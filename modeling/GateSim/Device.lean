import GateSim.PinMap
import GateSim.State

/-!
# Devices

A device has a kind, a hidden state, inputs that have a source or float, and outputs that have a
value. `Device.make` reads the parameter of a new device, `Device.reset` returns a device to the
state in which it was made, and `Device.advance` lets a signal source take its step at the start of
a cycle. What a device does follows from its state; its kind names it and tells the counted gates
apart.
-/

namespace GateSim

/-- The output that drives an input. -/
structure Source where
  device : NameId
  pin : OutputPin
  deriving DecidableEq

structure Device where
  id : NameId
  kind : Kind
  inputs : PinMap NameId (Option Source)
  outputs : PinMap OutputPin Signal
  state : State
  deriving DecidableEq

namespace Device

/-- A new device, all of whose inputs float. -/
def make (pins : Pins) (kind : Kind) (id : NameId) (parameter : Text) :
    Except ParameterFault Device := do
  let state ← State.ofParameter kind parameter
  return {
    id, kind, state
    inputs := PinMap.putAll ((state.inputPins pins).map (·, none)) []
    outputs := PinMap.putAll (state.startOutputs pins) [] }

def putOutput (d : Device) (pin : OutputPin) (v : Signal) : Device :=
  { d with outputs := d.outputs.put pin v }

/-- Back to the state in which the device started; connections are kept. -/
def reset (pins : Pins) (d : Device) : Device :=
  { d with state := d.state.reset, outputs := PinMap.putAll (d.state.resetOutputs pins) d.outputs }

/-- The value of the output without a name; an output that was removed counts as LOW. -/
def value (d : Device) : Signal := (d.outputs.get? none).getD false

/-- The step of a signal source at the start of a cycle. A switch takes its setting, a clock turns
over when its half period is full, an RC is HIGH until its countdown is over, and a generator goes
round its waveform. -/
def advance (d : Device) : Device :=
  match d.state with
  | .switch _ setting => d.putOutput none setting
  | .clock halfPeriod counter =>
    if halfPeriod ≤ counter + 1 then
      { d.putOutput none (!d.value) with state := .clock halfPeriod 0 }
    else { d with state := .clock halfPeriod (counter + 1) }
  | .rc _ 0 => d.putOutput none false
  | .rc period (countdown + 1) => { d.putOutput none true with state := .rc period countdown }
  | .siggen waveform cursor =>
    { d.putOutput none (waveform[cursor]?.getD false) with
      state := .siggen waveform ((cursor + 1) % waveform.length) }
  | .gate _ | .xor | .dtype _ _ => d

/-- The inputs without a source, in the order of their ids. -/
def floating (d : Device) : List NameId :=
  d.inputs.filterMap fun (pin, source) => if source.isNone then some pin else none

def eraseInput (d : Device) (pin : NameId) : Device := { d with inputs := d.inputs.erase pin }

def eraseOutput (d : Device) (pin : OutputPin) : Device := { d with outputs := d.outputs.erase pin }

def setKind (d : Device) (kind : Kind) : Device := { d with kind }

end Device

end GateSim
