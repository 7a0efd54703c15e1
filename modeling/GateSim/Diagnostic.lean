import GateSim.Symbol

/-!
# Diagnostics

Problems found while a circuit definition is read, in the order in which they were found. Each
carries its place and the line of the definition that it is about, which `render` prints with a
caret under the place.
-/

namespace GateSim

inductive Severity
  | warning
  | error
  deriving DecidableEq

def Severity.label : Severity → Text
  | .warning => .ofString "warning"
  | .error => .ofString "error"

inductive Code
  | invalidCharacter
  | unterminatedComment
  | unexpectedSymbol
  | unexpectedEndOfFile
  | invalidDeviceName
  | invalidPinName
  | missingDevices
  | duplicateDevice
  | undefinedDevice
  | invalidPin
  | inputAlreadyConnected
  | invalidArgument
  | duplicateMonitor
  deriving DecidableEq

namespace Code

def all : List Code :=
  [.invalidCharacter, .unterminatedComment, .unexpectedSymbol, .unexpectedEndOfFile,
    .invalidDeviceName, .invalidPinName, .missingDevices, .duplicateDevice, .undefinedDevice,
    .invalidPin, .inputAlreadyConnected, .invalidArgument, .duplicateMonitor]

def label : Code → Text
  | .invalidCharacter => .ofString "invalid-character"
  | .unterminatedComment => .ofString "unterminated-comment"
  | .unexpectedSymbol => .ofString "unexpected-symbol"
  | .unexpectedEndOfFile => .ofString "unexpected-end-of-file"
  | .invalidDeviceName => .ofString "invalid-device-name"
  | .invalidPinName => .ofString "invalid-pin-name"
  | .missingDevices => .ofString "missing-devices"
  | .duplicateDevice => .ofString "duplicate-device"
  | .undefinedDevice => .ofString "undefined-device"
  | .invalidPin => .ofString "invalid-pin"
  | .inputAlreadyConnected => .ofString "input-already-connected"
  | .invalidArgument => .ofString "invalid-argument"
  | .duplicateMonitor => .ofString "duplicate-monitor"

end Code

structure Diagnostic where
  severity : Severity
  category : Category
  code : Code
  message : Text
  file : Text
  position : Position
  sourceLine : Text
  deriving DecidableEq

namespace Diagnostic

def isError (d : Diagnostic) : Bool := d.severity == .error

/-- As many blanks as are asked for: a tab for each tab of the line and a space for each other
character, so that they end under the same character of the line. -/
def caretPadding : Text → Nat → Text
  | _, 0 => []
  | [], n => List.replicate n Byte.space
  | b :: t, n + 1 =>
    if b.isContinuation then caretPadding t (n + 1)
    else (if b = Byte.tab then Byte.tab else Byte.space) :: caretPadding t n

/-- `FILE:LINE:COLUMN:`, as far as they are known. -/
def place (d : Diagnostic) : Text :=
  (if d.file.isEmpty then [] else d.file ++ .ofString ":") ++
    if d.position.line = 0 then []
    else
      .decimal d.position.line ++ Text.ofString ":" ++
        if d.position.column = 0 then [] else .decimal d.position.column ++ Text.ofString ":"

/-- The line that the diagnostic is about, and the line with the caret. -/
def excerpt (d : Diagnostic) : Text :=
  if d.sourceLine.isEmpty then []
  else
    Text.ofString "    " ++ d.sourceLine ++ .ofString "\n" ++
      if d.position.column = 0 then []
      else
        Text.ofString "    " ++ caretPadding d.sourceLine (d.position.column - 1) ++
          .ofString "^\n"

def render (d : Diagnostic) : Text :=
  d.place ++ .ofString " " ++ d.severity.label ++ .ofString ": " ++ d.category.label ++
    .ofString " - " ++ d.message ++ .ofString " [" ++ d.code.label ++ .ofString "]\n" ++ d.excerpt

end Diagnostic

/-- In the order in which they were found. -/
abbrev Diagnostics := List Diagnostic

namespace Diagnostics

def errorCount (ds : Diagnostics) : Nat := ds.countP Diagnostic.isError

def warningCount (ds : Diagnostics) : Nat := ds.length - ds.errorCount

def hasErrors (ds : Diagnostics) : Bool := ds.errorCount != 0

def count (ds : Diagnostics) (code : Code) : Nat := ds.countP (·.code == code)

def render (ds : Diagnostics) : Text := ds.flatMap Diagnostic.render

end Diagnostics

end GateSim
