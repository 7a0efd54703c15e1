import GateSim.Registry

/-!
# Cycles

A cycle advances the signal sources, settles the gates, clocks the flip-flops once and, if one of
them changed, settles the gates again. A pass evaluates every gate once, in the order in which the
devices were made, and each gate sees what the earlier ones of the pass have set; settling makes
passes until one changes nothing. Flip-flops all sample before any of them changes.

All of this changes the devices in place, and any part of it may fail after some devices have
changed. `Registry.cycle` saves the devices first and puts them back if the rest fails.
-/

namespace GateSim

/-- Why a cycle cannot be simulated or recorded. -/
inductive RunFault
  | floating (device pin : NameId)
  /-- The gates did not settle within so many passes. -/
  | oscillation (passes : Nat)
  /-- The source of an input is an output that does not exist. -/
  | missingOutput (device pin : NameId) (source : Source)
  /-- A device of another kind is in the state of a counted gate. -/
  | gateState (kind : Kind)
  /-- A monitored output does not exist. -/
  | lostMonitor (device : NameId) (pin : OutputPin)
  deriving DecidableEq

namespace RunFault

/-- `DEVICE.PIN` in a message about it. -/
def pinText (names : NameTable) (device : NameId) : OutputPin → Except Fault Text
  | none => names.text device
  | some pin => do return (← names.text device) ++ .ofString "." ++ (← names.text pin)

/-- The fault that is seen from outside, unless one of the ids has no name. -/
def explain (names : NameTable) : RunFault → Except Fault Fault
  | floating device pin => do return .floatingInput (← names.text device) (← names.text pin)
  | oscillation passes => return .oscillation passes
  | missingOutput device pin source => do
    return .internal (.ofString "Input " ++ (← pinText names device (some pin)) ++
      .ofString " is driven by missing output " ++ (← pinText names source.device source.pin))
  | gateState kind =>
    return .internal (.ofString "Gate state on a " ++ kind.text ++ .ofString " device")
  | lostMonitor device pin => do
    return .internal (.ofString "Monitored output " ++ (← pinText names device pin) ++
      .ofString " no longer exists")

def report (names : NameTable) (f : RunFault) : Fault :=
  match f.explain names with
  | .ok fault | .error fault => fault

end RunFault

namespace Kind

def gateValue : Kind → List Signal → Except RunFault Signal
  | .and, vs => .ok (vs.all id)
  | .nand, vs => .ok (!vs.all id)
  | .or, vs => .ok (vs.any id)
  | .nor, vs => .ok (!vs.any id)
  | kind, _ => .error (.gateState kind)

end Kind

/-- A change of the devices in place. What was changed before it fails stays changed. -/
abbrev Change (α : Type) := EStateM RunFault Registry α

namespace Change

/-- What is computed from the devices without changing them. -/
def ofRead {α : Type} (f : Registry → Except RunFault α) : Change α := fun r =>
  match f r with
  | .ok a => .ok a r
  | .error e => .error e r

end Change

namespace Registry

/-- The most passes that settling may take, by the number of devices. -/
def settleLimit (r : Registry) : Nat := 2 * r.size + 20

def read (r : Registry) (d : Device) (pin : NameId) : Except RunFault Signal :=
  match (d.inputs.get? pin).join with
  | none => .error (.floating d.id pin)
  | some source =>
    match r.output? source.device source.pin with
    | some v => .ok v
    | none => .error (.missingOutput d.id pin source)

/-- The value that a gate computes from its inputs; `none` for devices that are no gates. -/
def gateOutput (r : Registry) (d : Device) : Except RunFault (Option Signal) :=
  match d.state with
  | .gate n => do
    let vs ← (r.pins.gateInputs.take n).mapM (r.read d)
    return some (← d.kind.gateValue vs)
  | .xor => do
    let vs ← (r.pins.gateInputs.take 2).mapM (r.read d)
    return some (vs.foldl xor false)
  | _ => return none

/-- Evaluates a device, if it is a gate. Gives its new value. -/
def gateAt (i : Nat) (r : Registry) : Except RunFault (Option (Device × Signal)) :=
  match r.devices[i]? with
  | none => return none
  | some d => return (← r.gateOutput d).map (d, ·)

/-- Evaluates the device at a place, if it is a gate. Tells whether its output changed. -/
def evaluate (i : Nat) : Change Bool := do
  match ← Change.ofRead (gateAt i) with
  | none => return false
  | some (d, v) =>
    modify fun r => { r with devices := r.devices.set i (d.putOutput none v) }
    return d.value != v

/-- Evaluates the gates among the first devices, in place. Tells whether an output changed. -/
def sweep : Nat → Change Bool
  | 0 => return false
  | n + 1 => do
    let changed ← sweep n
    let c ← evaluate n
    return changed || c

/-- Evaluates every gate once, in place. Tells whether an output changed. -/
def pass : Change Bool := do sweep (← get).size

/-- Makes up to `left` passes after `done` ones, until one changes nothing. Gives the number of
passes made in all. -/
def settleWithin : (left done : Nat) → Change Nat
  | 0, done => throw (.oscillation done)
  | left + 1, done => do
    if ← pass then settleWithin left (done + 1) else return done + 1

def settle : Change Nat := do settleWithin (← get).settleLimit 0

def advance (r : Registry) : Registry := { r with devices := r.devices.map Device.advance }

/-- The bit that a flip-flop latches and the clock value that it samples. SET wins over CLEAR, and
both win over DATA, which is read only when the clock rises. -/
def sample (r : Registry) (d : Device) (q lastClk : Signal) : Except RunFault (Signal × Signal) := do
  let clk ← r.read d r.pins.clk
  if ← r.read d r.pins.set then return (true, clk)
  if ← r.read d r.pins.clear then return (false, clk)
  if clk && !lastClk then return (← r.read d r.pins.data, clk)
  return (q, clk)

/-- A device after the flip-flops are clocked. Tells whether it latched another bit. -/
def latch (r : Registry) (d : Device) : Except RunFault (Device × Bool) :=
  match d.state with
  | .dtype q lastClk => do
    let (q', clk) ← r.sample d q lastClk
    let outputs := (d.outputs.put (some r.pins.q) q').put (some r.pins.qbar) (!q')
    return ({ d with state := .dtype q' clk, outputs }, q != q')
  | _ => return (d, false)

/-- Clocks all flip-flops at once: all of them sample before one changes. Tells whether one of them
latched another bit. -/
def latchAll : Change Bool := do
  let latched ← Change.ofRead fun r => r.devices.mapM r.latch
  modify fun r => { r with devices := latched.map (·.1) }
  return latched.any (·.2)

/-- The phases of a cycle. Gives the number of passes that it took. -/
def phases : Change Nat := do
  modify advance
  let passes ← settle
  if ← latchAll then
    let more ← settle
    return passes + more
  else return passes

/-- One cycle, and the number of passes that it took. Nothing is touched if an input floats, and
the devices are put back if a phase fails. -/
def cycle : Change Nat := do
  let r ← get
  match r.floating with
  | (device, pin) :: _ => throw (.floating device pin)
  | [] =>
    try phases
    catch f =>
      modify (·.restore r.devices)
      throw f

end Registry

end GateSim
