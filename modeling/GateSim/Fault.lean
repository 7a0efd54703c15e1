import GateSim.Text

/-!
# Faults

What makes an operation give up. A fault knows its category, the file and line it blames (if any)
and its message; `Fault.description` is the line shown to a user.
-/

namespace GateSim

inductive Category
  | lexical
  | syntactic
  | semantic
  | runtime
  | file
  | internal
  deriving DecidableEq

namespace Category

def all : List Category := [.lexical, .syntactic, .semantic, .runtime, .file, .internal]

def label : Category → Text
  | .lexical => .ofString "Lexical Error"
  | .syntactic => .ofString "Syntax Error"
  | .semantic => .ofString "Semantic Error"
  | .runtime => .ofString "Runtime Error"
  | .file => .ofString "File Error"
  | .internal => .ofString "Internal Error"

end Category

inductive Fault
  /-- A fault of any category, with an optional place; an empty file or a line 0 is no place. -/
  | general (category : Category) (file : Text) (line : Nat) (message : Text)
  | semantic (message : Text)
  /-- A device parameter outside the domain of its kind. -/
  | invalidParameter (message : Text)
  | duplicateDevice (message : Text)
  | runtime (message : Text)
  | floatingInput (device pin : Text)
  /-- The gates did not settle within so many passes. -/
  | oscillation (passes : Nat)
  | unreadable (path message : Text)
  | internal (message : Text)
  /-- An id that the name table never gave out. -/
  | unknownId (id : Nat)
  deriving DecidableEq

namespace Fault

def category : Fault → Category
  | general category .. => category
  | semantic _ | invalidParameter _ | duplicateDevice _ => .semantic
  | runtime _ | floatingInput .. | oscillation _ => .runtime
  | unreadable .. => .file
  | internal _ | unknownId _ => .internal

/-- The file that is blamed, empty if none is. -/
def file : Fault → Text
  | general _ file .. => file
  | unreadable path _ => path
  | _ => []

/-- The line that is blamed, 0 if none is. -/
def line : Fault → Nat
  | general _ _ line _ => line
  | _ => 0

def message : Fault → Text
  | general _ _ _ message | semantic message | invalidParameter message | duplicateDevice message
  | runtime message | unreadable _ message | internal message => message
  | floatingInput device pin =>
    .ofString "Input " ++ device ++ .ofString "." ++ pin ++ .ofString " is not connected"
  | oscillation passes =>
    .ofString "Network did not settle after " ++ .decimal passes ++
      .ofString " passes (combinational loop is oscillating)"
  | unknownId id => .ofString "Unknown name id: " ++ .decimal id

/-- ` in FILE:LINE`, as far as they are known. -/
def place (f : Fault) : Text :=
  if f.file.isEmpty then []
  else Text.ofString " in " ++ f.file ++
    if f.line = 0 then [] else Text.ofString ":" ++ Text.decimal f.line

/-- Category, place and message on one line, which ends before the first zero byte. -/
def description (f : Fault) : Text :=
  (f.category.label ++ f.place ++ .ofString " - " ++ f.message).upToZero

end Fault

end GateSim
