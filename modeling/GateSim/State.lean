import GateSim.Kind
import GateSim.Pin

/-!
# States

The hidden state of a device. It starts out as the parameter of the device says
(`State.ofParameter`), and it settles which pins the device has.
-/

namespace GateSim

inductive State
  | switch (initial setting : Signal)
  | clock (halfPeriod counter : Nat)
  | gate (inputCount : Nat)
  | xor
  /-- The latched bit, and the clock input as it was last sampled. -/
  | dtype (q lastClk : Signal)
  | rc (period countdown : Nat)
  | siggen (waveform : List Signal) (cursor : Nat)
  deriving DecidableEq

/-! ### Parameters -/

/-- A number that a device is declared with. -/
inductive Quantity
  | halfPeriod
  | rcPeriod
  | inputCount
  deriving DecidableEq

def Quantity.text : Quantity → Text
  | .halfPeriod => .ofString "Clock half period"
  | .rcPeriod => .ofString "RC period"
  | .inputCount => .ofString "Number of inputs"

/-- Why a parameter is outside the domain of its kind. -/
inductive ParameterFault
  | switchState (t : Text)
  | missing (q : Quantity)
  | tooLarge (q : Quantity) (t : Text)
  | notNumber (q : Quantity) (t : Text)
  | notPositive (q : Quantity)
  | inputCount (kind : Kind) (t : Text)
  | unwanted (kind : Kind) (t : Text)
  | noWaveform
  | waveform (t : Text)
  deriving DecidableEq

def ParameterFault.message : ParameterFault → Text
  | switchState t => .ofString "Switch state should be 0 or 1, got " ++ t.quoted
  | missing q => q.text ++ .ofString " is missing"
  | tooLarge q t => q.text ++ .ofString " " ++ t.quoted ++ .ofString " is too large"
  | notNumber q t => q.text ++ .ofString " " ++ t.quoted ++ .ofString " is not a number"
  | notPositive q => q.text ++ .ofString " should be a positive integer"
  | inputCount kind t =>
    .ofString "Number of inputs for " ++ kind.text ++ .ofString " should be between 1 and " ++
      .decimal PinWord.maxGateInputs ++ .ofString ", got " ++ t
  | unwanted kind t => kind.text ++ .ofString " takes no parameter, got " ++ t.quoted
  | noWaveform => .ofString "Siggen waveform is missing"
  | waveform t => .ofString "Siggen waveform should only consist of 0s and 1s, got " ++ t.quoted

namespace Quantity

def maxDigits : Nat := 9

/-- Reads a decimal number of at most nine digits; leading zeros are allowed. -/
def read (q : Quantity) (t : Text) : Except ParameterFault Nat :=
  if t.isEmpty then .error (.missing q)
  else if maxDigits < t.length then .error (.tooLarge q t)
  else if t.all Byte.isDigit then .ok t.value
  else .error (.notNumber q t)

def readPositive (q : Quantity) (t : Text) : Except ParameterFault Nat := do
  let n ← q.read t
  if n = 0 then .error (.notPositive q) else .ok n

end Quantity

namespace State

def bit0 : Text := .ofString "0"

def bit1 : Text := .ofString "1"

/-- The state in which a device of a kind starts, by its parameter. -/
def ofParameter (kind : Kind) (t : Text) : Except ParameterFault State :=
  match kind with
  | .switch =>
    if t = bit0 then .ok (.switch false false)
    else if t = bit1 then .ok (.switch true true)
    else .error (.switchState t)
  | .clock => do return .clock (← Quantity.halfPeriod.readPositive t) 0
  | .and | .or | .nand | .nor => do
    let n ← Quantity.inputCount.read t
    if n < 1 ∨ PinWord.maxGateInputs < n then .error (.inputCount kind t) else .ok (.gate n)
  | .xor => if t.isEmpty then .ok .xor else .error (.unwanted kind t)
  | .dtype => if t.isEmpty then .ok (.dtype false false) else .error (.unwanted kind t)
  | .rc => do
    let n ← Quantity.rcPeriod.readPositive t
    return .rc n n
  | .siggen =>
    if t.isEmpty then .error .noWaveform
    else if t.all fun b => b == '0'.toUInt8 || b == '1'.toUInt8 then
      .ok (.siggen (t.map (· == '1'.toUInt8)) 0)
    else .error (.waveform t)

def reset : State → State
  | switch initial _ => .switch initial initial
  | clock halfPeriod _ => .clock halfPeriod 0
  | gate n => .gate n
  | xor => .xor
  | dtype _ _ => .dtype false false
  | rc period _ => .rc period period
  | siggen waveform _ => .siggen waveform 0

def inputPins (pins : Pins) : State → List NameId
  | gate n => pins.gateInputs.take n
  | xor => pins.gateInputs.take 2
  | dtype _ _ => [pins.data, pins.clk, pins.set, pins.clear]
  | _ => []

/-- The outputs of a new device. -/
def startOutputs (pins : Pins) : State → List (OutputPin × Signal)
  | switch initial _ => [(none, initial)]
  | clock _ _ | gate _ | xor => [(none, false)]
  | dtype _ _ => [(some pins.q, false), (some pins.qbar, true)]
  | rc _ _ => [(none, true)]
  | siggen waveform _ => [(none, waveform.head?.getD false)]

/-- What a reset puts on the outputs of a device. -/
def resetOutputs (pins : Pins) : State → List (OutputPin × Signal)
  | switch initial _ => [(none, initial)]
  | clock _ _ => [(none, false)]
  | gate _ => [(none, false)]
  | xor => [(none, false)]
  | dtype _ _ => [(some pins.q, false), (some pins.qbar, true)]
  | rc _ _ => [(none, true)]
  | siggen waveform _ => [(none, waveform.head?.getD false)]

/-- A reset gives the outputs of a new device. -/
theorem resetOutputs_eq (s : State) (pins : Pins) : s.resetOutputs pins = s.startOutputs pins := by
  cases s <;> rfl

end State

end GateSim
