import GateSim.Console

/-!
# The program

Reads and writes bytes around `Console.start` and `Console.reply`, a line at a time.
-/

namespace GateSim

namespace Program

def write (out : IO.FS.Stream) (t : Text) : IO Unit := do
  out.write (ByteArray.mk t.toArray)
  out.flush

/-- What is left of a file, up to its end or to where it cannot be read. -/
partial def readRest (file : IO.FS.Handle) (bytes : ByteArray) : IO ByteArray := do
  let more ← try file.read 4096 catch _ => pure ByteArray.empty
  if more.isEmpty then return bytes else readRest file (bytes ++ more)

/-- The contents of a file; `none` if it cannot be opened. A directory can be opened, but nothing
can be read from it. -/
def readFile (path : String) : IO (Option Text) := do
  let some file ← try some <$> IO.FS.Handle.mk path .read catch _ => pure none | return none
  return some (← readRest file ByteArray.empty).toList

/-- The next line of the input without its newline; `none` at the end. -/
partial def readLine (input : IO.FS.Stream) (line : Text) : IO (Option Text) := do
  match (← input.read 1).toList with
  | [] => return if line.isEmpty then none else some line.reverse
  | b :: _ => if b = Byte.newline then return some line.reverse else readLine input (b :: line)

partial def serve (input out : IO.FS.Stream) (e : Engine) : IO Unit := do
  write out Console.prompt
  match ← readLine input [] with
  | none => return
  | some line =>
    match Console.reply e line with
    | none => return
    | some (e, output) =>
      write out output
      serve input out e

end Program

end GateSim

open GateSim in
def main (args : List String) : IO UInt32 := do
  let out ← IO.getStdout
  let err ← IO.getStderr
  let content ←
    match args with
    | [path] => Program.readFile path
    | _ => pure none
  match Console.start (fun _ => content) (args.map fun a => a.toUTF8.toList) with
  | .over outcome =>
    Program.write out outcome.output
    Program.write err outcome.errors
    return UInt32.ofNat outcome.code
  | .commands e errors =>
    Program.write err errors
    Program.write out Console.greeting
    Program.serve (← IO.getStdin) out e
    return 0
