import GateSim.Names

/-!
# Pins

The words that name pins, and their ids. A gate has the inputs `I1` to `I16` (as many as it is
declared with), a flip-flop has `DATA`, `CLK`, `SET` and `CLEAR` and the outputs `Q` and `QBAR`.
Every other device has one output without a name.
-/

namespace GateSim

/-- An output pin; `none` is the output without a name. -/
abbrev OutputPin := Option NameId

namespace PinWord

def maxGateInputs : Nat := 16

def gateInputs : List Text :=
  (List.range maxGateInputs).map fun i => Text.ofString "I" ++ Text.decimal (i + 1)

def data : Text := .ofString "DATA"

def clk : Text := .ofString "CLK"

def set : Text := .ofString "SET"

def clear : Text := .ofString "CLEAR"

def q : Text := .ofString "Q"

def qbar : Text := .ofString "QBAR"

def inputs : List Text := gateInputs ++ [data, clk, set, clear]

def outputs : List Text := [q, qbar]

end PinWord

structure Pins where
  gateInputs : List NameId
  data : NameId
  clk : NameId
  set : NameId
  clear : NameId
  q : NameId
  qbar : NameId
  deriving DecidableEq

namespace Pins

/-- The ids of the pin words in a table that has seen them. -/
def ofNames (names : NameTable) : Pins where
  gateInputs := PinWord.gateInputs.map names.idOf
  data := names.idOf PinWord.data
  clk := names.idOf PinWord.clk
  set := names.idOf PinWord.set
  clear := names.idOf PinWord.clear
  q := names.idOf PinWord.q
  qbar := names.idOf PinWord.qbar

def isInput (pins : Pins) (id : NameId) : Bool :=
  [pins.data, pins.clk, pins.set, pins.clear].contains id || pins.gateInputs.contains id

def isOutput (pins : Pins) (id : NameId) : Bool := [pins.q, pins.qbar].contains id

end Pins

namespace NameTable

/-- Sees the pin words, as happens before a circuit is built. -/
def insertPins (names : NameTable) : NameTable :=
  names.insertAll (PinWord.inputs ++ PinWord.outputs)

/-- `DEVICE`, or `DEVICE.PIN` for an output with a name. -/
def label (names : NameTable) (device : NameId) : OutputPin → Text
  | none => names.nameOf device
  | some pin => names.nameOf device ++ .ofString "." ++ names.nameOf pin

end NameTable

end GateSim
