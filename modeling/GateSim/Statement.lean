import GateSim.Diagnostic

/-!
# Statements and notes

What a circuit definition is read into. A statement is the content of an item that is well formed.
A note is one thing that happens while the symbols of a definition are read, in order: a symbol is
passed, a statement is complete, or something is out of place.
-/

namespace GateSim

inductive Statement
  | device (kind : Kind) (name : Symbol) (parameter : Option Symbol)
  | connection (source : Symbol) (sourcePin : Option Symbol) (target targetPin : Symbol)
  | monitor (device : Symbol) (pin : Option Symbol)
  deriving DecidableEq

/-- Why a symbol is out of place. -/
inductive SyntaxFault
  | expectedSection (s : Section)
  | expectedColon (s : Section)
  | noDevices
  | expectedSeparator
  | unclosedSection (s : Section)
  | expectedClose
  | expectedFinalSemicolon
  | afterClose
  | expectedKind
  | expectedName
  | expectedParameter (kind : Kind) (name : Text)
  | leadingZero
  | expectedOutputPin
  | expectedArrow
  | expectedDot (target : Text)
  | expectedInputPin
  deriving DecidableEq

namespace SyntaxFault

def code : SyntaxFault → Code
  | noDevices => .missingDevices
  | expectedName => .invalidDeviceName
  | expectedOutputPin | expectedInputPin => .invalidPinName
  | _ => .unexpectedSymbol

def message (f : SyntaxFault) (got : Symbol) : Text :=
  match f with
  | expectedSection s => wanted (.ofString "'" ++ s.text ++ .ofString ":'")
  | expectedColon s => wanted (.ofString "':' after " ++ s.text)
  | noDevices => .ofString "There should be at least one device"
  | expectedSeparator => wanted (.ofString "',' or ';'")
  | unclosedSection s =>
    .ofString "Expected ';' to end the " ++ s.text ++ .ofString " section before " ++ got.describe
  | expectedClose => wanted (.ofString "'END;'")
  | expectedFinalSemicolon => wanted (.ofString "';' after END")
  | afterClose => .ofString "Unexpected " ++ got.describe ++ .ofString " after 'END;'"
  | expectedKind =>
    wanted (.ofString
      "a device kind (SWITCH, CLOCK, AND, NAND, OR, NOR, XOR, DTYPE, RC, SIGGEN)")
  | expectedName =>
    wanted (.ofString "a device name (a letter followed by letters, digits or '_')")
  | expectedParameter kind name =>
    wanted (kind.parameterText ++ .ofString " for " ++ kind.text ++ .ofString " " ++ name)
  | leadingZero =>
    .ofString "Number " ++ got.text.quoted ++ .ofString " should not have a leading zero"
  | expectedOutputPin => .ofString "Output pins can only be Q or QBAR, got " ++ got.describe
  | expectedArrow => wanted (.ofString "'>'")
  | expectedDot target => wanted (.ofString "'.' and an input pin after " ++ target)
  | expectedInputPin =>
    .ofString "The input pin should be one of I1..I16, DATA, CLK, SET, CLEAR, got " ++
      got.describe
where
  wanted (what : Text) : Text :=
    .ofString "Expected " ++ what ++ .ofString ", got " ++ got.describe

end SyntaxFault

inductive Note
  /-- The symbol at hand is done with; the next one is looked at. -/
  | pass
  /-- A symbol is out of place; `none` is the end of the file. -/
  | reject (symbol : Option Symbol) (fault : SyntaxFault)
  /-- The file ends where something was still to come. -/
  | endsEarly
  /-- A device declaration broke off after its name. -/
  | abandon (name : Symbol)
  | complete (statement : Statement)
  deriving DecidableEq

namespace Note

/-- Something other than the first of the symbols was to come. -/
def blame (fault : SyntaxFault) : List Symbol → Note
  | [] => .endsEarly
  | x :: _ => .reject (some x) fault

def passes (symbols : List Symbol) : List Note := symbols.map fun _ => .pass

end Note

end GateSim
