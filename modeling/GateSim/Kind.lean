import GateSim.Text

/-!
# Device kinds and signals
-/

namespace GateSim

/-- The value of a wire: `true` is HIGH, `false` is LOW. -/
abbrev Signal := Bool

inductive Kind
  | switch
  | clock
  | and
  | or
  | nand
  | nor
  | xor
  | dtype
  | rc
  | siggen
  deriving DecidableEq

namespace Kind

def all : List Kind := [.switch, .clock, .and, .or, .nand, .nor, .xor, .dtype, .rc, .siggen]

def text : Kind → Text
  | .switch => .ofString "SWITCH"
  | .clock => .ofString "CLOCK"
  | .and => .ofString "AND"
  | .or => .ofString "OR"
  | .nand => .ofString "NAND"
  | .nor => .ofString "NOR"
  | .xor => .ofString "XOR"
  | .dtype => .ofString "DTYPE"
  | .rc => .ofString "RC"
  | .siggen => .ofString "SIGGEN"

def ofText? (t : Text) : Option Kind := all.find? (·.text == t)

/-- A gate declared with its number of inputs. -/
def isCountedGate : Kind → Bool
  | .and | .or | .nand | .nor => true
  | _ => false

/-- All kinds but XOR and DTYPE are declared with a parameter. -/
def takesParameter : Kind → Bool
  | .xor | .dtype => false
  | _ => true

/-- The parameter is a decimal number, in which a file may not write a leading zero. -/
def takesNumber : Kind → Bool
  | .clock | .rc => true
  | k => k.isCountedGate

/-- What a parameter of the kind is, in words. -/
def parameterText : Kind → Text
  | .switch => .ofString "switch state (0 or 1)"
  | .clock => .ofString "clock half period"
  | .rc => .ofString "RC period"
  | .siggen => .ofString "waveform of 0s and 1s"
  | .and | .or | .nand | .nor => .ofString "number of inputs (1-16)"
  | .xor | .dtype => .ofString "parameter"

theorem ofText?_text (k : Kind) : ofText? k.text = some k := by cases k <;> decide

end Kind

end GateSim
