import GateSim.Engine

/-!
# Consoles

The command line of the simulator. It loads the circuit file that is its only argument, shows what
is wrong with it, and then answers commands, one a line, until `q` or the end of the input. A reply
depends only on the engine and the line (`Console.reply`), so a session is a fold over the lines.
-/

namespace GateSim

namespace Console

def usage : Text :=
  .ofString "Usage: logsim <circuit file>\n" ++ .ofString "       logsim -h\n"

def help : Text :=
  .ofString "User commands:\n" ++
    .ofString "r N       - run the simulation for N cycles\n" ++
    .ofString "c N       - continue the simulation for N cycles\n" ++
    .ofString "s X N     - set switch X to N (0 or 1)\n" ++
    .ofString "m X       - set a monitor on signal X\n" ++
    .ofString "z X       - zap the monitor on signal X\n" ++
    .ofString "h         - help (this command)\n" ++
    .ofString "q         - quit the program\n"

def greeting : Text :=
  .ofString "Logic Simulator: interactive command line user interface.\n" ++
    .ofString "Enter 'h' for help.\n"

def prompt : Text := .ofString "#: "

def errorLine (message : Text) : Text :=
  .ofString "Error! " ++ message ++ .ofString "\n"

/-! ### Arguments of commands -/

def maxCycles : Nat := 18446744073709551615

def readCycles : Option Text → Except Text Nat
  | none => .error (.ofString "Expected a number of cycles")
  | some t =>
    let bad := Text.ofString "Expected a positive integer, got " ++ t.quoted
    if !t.all Byte.isDigit then .error bad
    else if maxCycles < t.value then .error (.ofString "Number of cycles is too large")
    else if t.value = 0 then .error bad
    else .ok t.value

/-- A number read from the start of a word, and whether reading it succeeded. -/
structure Scanned where
  value : Int
  isGood : Bool
  deriving DecidableEq

def maxValue : Int := 2147483647

def minValue : Int := -2147483648

/-- Reads a signed number from the start of a word. A word that starts with none reads as 0, and a
number out of range as the nearest in range; neither is a success. -/
def scanValue (t : Text) : Scanned :=
  let isMinus := t.head? == some '-'.toUInt8
  let unsigned := if isMinus || t.head? == some '+'.toUInt8 then t.tail else t
  let digits : Text := unsigned.takeWhile Byte.isDigit
  let n : Int := if isMinus then -digits.value else digits.value
  if digits.isEmpty then ⟨0, false⟩
  else if maxValue < n then ⟨maxValue, false⟩
  else if n < minValue then ⟨minValue, false⟩
  else ⟨n, true⟩

/-- The value that stands for a missing one. -/
def noValue : Int := -1

/-! ### Commands -/

def traces (e : Engine) : Text :=
  match e.circuit with
  | none => []
  | some c => c.monitors.render e.names

def runReport (verb : Text) (n : Nat) (e : Engine) : Text :=
  (if e.state = .error then errorLine e.message
    else verb ++ .ofString " for " ++ .decimal n ++ .ofString " cycles\n") ++ traces e

def runCommand (verb : Text) (go : Engine → Nat → Engine) (e : Engine) (arg : Option Text) :
    Engine × Text :=
  match readCycles arg with
  | .error message => (e, errorLine message)
  | .ok n =>
    let e := go e n
    (e, runReport verb n e)

/-- Sets a switch. If no value was read, or one that stands for none, the reply asks for one;
otherwise a refusal is explained by the engine's last message. -/
def switchCommand (e : Engine) (name : Text) (arg : Option Text) : Engine × Text :=
  let scanned := (arg.map scanValue).getD ⟨noValue, false⟩
  let (isSet, e) := if scanned.isGood then e.setSwitch name scanned.value else (false, e)
  if isSet then (e, .ofString "Successfully set switch " ++ name ++ .ofString "\n")
  else if scanned.value = noValue then (e, errorLine (.ofString "Expected 0 or 1"))
  else (e, errorLine e.message)

/-- A command on a signal, with the words that report its success. -/
def signalCommand (done : Text) (go : Engine → Text → Bool × Engine) (e : Engine) (signal : Text) :
    Engine × Text :=
  match go e signal with
  | (true, e) => (e, done ++ signal ++ .ofString "\n")
  | (false, e) => (e, errorLine e.message)

/-- Gives the argument that names a signal to a command. -/
def withSignal (e : Engine) (arg : Option Text) (go : Text → Engine × Text) : Engine × Text :=
  match arg with
  | none => (e, errorLine (.ofString "Expected a signal name"))
  | some signal => go signal

def command (e : Engine) (name : Text) (args : List Text) : Engine × Text :=
  if name = .ofString "h" then (e, help)
  else if name = .ofString "r" then runCommand (.ofString "Running") Engine.run e args[0]?
  else if name = .ofString "c" then runCommand (.ofString "Continuing") Engine.resume e args[0]?
  else if name = .ofString "s" then
    withSignal e args[0]? fun signal => switchCommand e signal args[1]?
  else if name = .ofString "m" then
    withSignal e args[0]?
      (signalCommand (.ofString "Successfully made monitor ") Engine.addMonitor e)
  else if name = .ofString "z" then
    withSignal e args[0]?
      (signalCommand (.ofString "Successfully zapped monitor ") Engine.removeMonitor e)
  else (e, .ofString "Invalid command. Enter 'h' for help.\n")

/-- The answer to a line of input; `none` ends the session. -/
def reply (e : Engine) (line : Text) : Option (Engine × Text) :=
  match line.words with
  | [] => some (e, [])
  | name :: args => if name = .ofString "q" then none else some (command e name args)

/-- What is printed for lines of input, each after a prompt. The prompt is also shown at the end of
the input. -/
def session (e : Engine) : List Text → Text
  | [] => prompt
  | line :: lines =>
    match reply e line with
    | none => prompt
    | some (e, output) => prompt ++ output ++ session e lines

/-! ### Programs -/

structure Outcome where
  code : Nat
  output : Text
  errors : Text
  deriving DecidableEq

/-- How a program starts: it is over at once, or it goes on to answer commands after it has printed
errors. -/
inductive Start
  | over (outcome : Outcome)
  | commands (engine : Engine) (errors : Text)

/-- Starts with the arguments of a program and a way to read files. -/
def start (read : Text → Option Text) : List Text → Start
  | [arg] =>
    if arg = .ofString "-h" ∨ arg = .ofString "--help" then .over ⟨0, usage ++ help, []⟩
    else
      let (isLoaded, e) := Engine.loadFile {} arg (read arg)
      let errors := e.diagnostics.render
      if isLoaded then .commands e errors
      else .over ⟨1, [], errors ++ e.message ++ .ofString "\n"⟩
  | _ => .over ⟨1, [], usage⟩

/-- All that a program prints, by its arguments, the files it can read and its input. -/
def program (read : Text → Option Text) (args : List Text) (input : Text) : Outcome :=
  match start read args with
  | .over outcome => outcome
  | .commands e errors => ⟨0, greeting ++ session e input.inputLines, errors⟩

end Console

end GateSim
