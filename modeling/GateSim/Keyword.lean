import GateSim.Kind

/-!
# Keywords

The words that cannot be device names: the four section words and the device kinds.
-/

namespace GateSim

/-- The parts of a circuit definition, in order; `close` is the final `END;`. -/
inductive Section
  | devices
  | connect
  | monitor
  | close
  deriving DecidableEq

namespace Section

def all : List Section := [.devices, .connect, .monitor, .close]

def text : Section → Text
  | .devices => .ofString "DEVICES"
  | .connect => .ofString "CONNECT"
  | .monitor => .ofString "MONITOR"
  | .close => .ofString "END"

def ofText? (t : Text) : Option Section := all.find? (·.text == t)

/-- A section and those that come after it. -/
def onward : Section → List Section
  | .devices => all
  | .connect => [.connect, .monitor, .close]
  | .monitor => [.monitor, .close]
  | .close => [.close]

theorem ofText?_text (s : Section) : ofText? s.text = some s := by cases s <;> decide

end Section

/-- Section words first, then kinds. -/
def keywords : List Text := Section.all.map Section.text ++ Kind.all.map Kind.text

def isKeyword (t : Text) : Bool := keywords.contains t

end GateSim
