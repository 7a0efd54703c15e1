import GateSim.Build

/-!
# Engines

An engine loads circuits and simulates the one that is loaded, with its signals addressed by name:
`DEVICE`, or `DEVICE.PIN` for an output with a name. A call that is refused leaves a message. Names
outlive the circuits that brought them.
-/

namespace GateSim

inductive EngineState
  /-- Nothing has been loaded. -/
  | empty
  /-- A circuit was loaded. -/
  | ready
  /-- The cycles that were asked for are done. -/
  | halted
  | error
  deriving DecidableEq

def EngineState.text : EngineState → Text
  | .empty => .ofString "EMPTY"
  | .ready => .ofString "READY"
  | .halted => .ofString "HALTED"
  | .error => .ofString "ERROR"

structure Statistics where
  cycles : Nat := 0
  passes : Nat := 0
  runs : Nat := 0
  deriving DecidableEq

structure Engine where
  state : EngineState := .empty
  statistics : Statistics := {}
  message : Text := []
  /-- A run has been started since the last load. -/
  hasRun : Bool := false
  names : NameTable := {}
  circuit : Option Circuit := none
  diagnostics : Diagnostics := []

namespace Engine

def fail (e : Engine) (message : Text) : Engine := { e with state := .error, message }

/-- Leaves a message and nothing else. -/
def refuse (e : Engine) (message : Text) : Engine := { e with message }

def unloaded (e : Engine) : Engine := e.fail (.ofString "No circuit loaded")

/-! ### Loading -/

/-- Drops the circuit and builds a new one. -/
def load (e : Engine) (d : Definition) : Bool × Engine :=
  let e := { e with circuit := none, statistics := {}, hasRun := false, message := [] }
  match d.build e.names with
  | .error f => (false, e.fail f.description)
  | .ok built =>
    let e := { e with names := built.names, diagnostics := built.diagnostics }
    if built.success then (true, { e with circuit := some built.circuit, state := .ready })
    else
      (false, e.fail (d.file ++ .ofString ": " ++ .decimal built.diagnostics.errorCount ++
        .ofString " error(s) in circuit definition"))

def loadFile (e : Engine) (path : Text) : Option Text → Bool × Engine
  | some text => e.load { text, file := path }
  | none =>
    (false, { e with circuit := none, diagnostics := [] }.fail
      (Fault.unreadable path (.ofString "Could not open circuit file")).description)

/-! ### Simulation -/

/-- Simulates a cycle and samples the monitored outputs. -/
def cycle (e : Engine) : Bool × Engine :=
  match e.circuit with
  | none => (false, e.unloaded)
  | some c =>
    match c.step with
    | (.ok passes, c) =>
      (true, { e with
        circuit := some c
        statistics := { e.statistics with
          cycles := e.statistics.cycles + 1
          passes := e.statistics.passes + passes } })
    | (.error f, c) =>
      (false, { e with circuit := some c }.fail (f.report e.names).description)

/-- Simulates cycles, up to the first that fails. -/
def cycles : Nat → Engine → Engine
  | 0, e => { e with state := .halted }
  | n + 1, e =>
    match e.cycle with
    | (true, e) => cycles n e
    | (false, e) => e

/-- Simulates cycles, without the message of an earlier call. -/
def simulate (e : Engine) (n : Nat) : Engine := cycles n { e with message := [] }

/-- Simulates cycles from a cold start and with empty monitors. -/
def run (e : Engine) (n : Nat) : Engine :=
  match e.circuit with
  | none => e.unloaded
  | some c =>
    { e with
      circuit := some c.coldStart.resetMonitors
      statistics := { e.statistics with runs := e.statistics.runs + 1 }
      hasRun := true }.simulate n

/-- Simulates cycles from where the last run stopped. -/
def resume (e : Engine) (n : Nat) : Engine :=
  if e.circuit.isNone then e.unloaded
  else if e.hasRun then e.simulate n
  else e.fail (.ofString "Nothing to continue; run the circuit first")

def coldStart (e : Engine) : Engine := { e with circuit := e.circuit.map Circuit.coldStart }

/-! ### Switches and outputs -/

def setSwitch (e : Engine) (name : Text) (value : Int) : Bool × Engine :=
  match e.circuit with
  | none => (false, e.unloaded)
  | some c =>
    if value ≠ 0 ∧ value ≠ 1 then
      (false, e.refuse (.ofString "Switch value should be 0 or 1, got " ++ .signedDecimal value))
    else
      match (e.names.find? name).map (c.setSwitch · (value == 1)) with
      | some (true, c) => (true, { e with circuit := some c })
      | _ => (false, e.refuse (.ofString "Invalid switch: " ++ name))

def setting? (e : Engine) (name : Text) : Option Signal := do
  let c ← e.circuit
  c.devices.setting? (← e.names.find? name)

def switchNames (e : Engine) : List Text :=
  match e.circuit with
  | none => []
  | some c => (c.devices.idsOf .switch).map e.names.nameOf

def outputNames (e : Engine) : List Text :=
  match e.circuit with
  | none => []
  | some c =>
    c.devices.devices.flatMap fun d => d.outputs.map fun (pin, _) => e.names.label d.id pin

/-- The device and the pin that a name stands for: the parts before and after its first dot, if it
has one. The device exists, but the pin may be of another kind of device. -/
def resolve (e : Engine) (c : Circuit) (signal : Text) : Option (NameId × OutputPin) := do
  let isDot (b : Byte) : Bool := b == '.'.toUInt8
  let device ← e.names.find? (signal.takeWhile (!isDot ·))
  guard (c.devices.has device)
  match signal.dropWhile (!isDot ·) with
  | [] => return (device, none)
  | _ :: pin => return (device, some (← e.names.find? pin))

def output? (e : Engine) (signal : Text) : Option Signal := do
  let c ← e.circuit
  let (device, pin) ← e.resolve c signal
  c.devices.output? device pin

/-! ### Monitors -/

def addMonitor (e : Engine) (signal : Text) : Bool × Engine :=
  match e.circuit with
  | none => (false, e.unloaded)
  | some c =>
    match e.resolve c signal with
    | none => (false, e.refuse (.ofString "Unknown signal: " ++ signal))
    | some (device, pin) =>
      match c.monitor device pin with
      | (.ok, c) => (true, { e with circuit := some c })
      | (.present, _) => (false, e.refuse (signal ++ .ofString " is already monitored"))
      | (_, _) => (false, e.refuse (signal ++ .ofString " is not an output"))

def removeMonitor (e : Engine) (signal : Text) : Bool × Engine :=
  match e.circuit with
  | none => (false, e.unloaded)
  | some c =>
    match e.resolve c signal with
    | none => (false, e.refuse (signal ++ .ofString " is not monitored"))
    | some (device, pin) =>
      match c.unmonitor device pin with
      | (.ok, c) => (true, { e with circuit := some c })
      | (_, _) => (false, e.refuse (signal ++ .ofString " is not monitored"))

def isMonitored (e : Engine) (signal : Text) : Bool :=
  match e.circuit with
  | none => false
  | some c => (e.resolve c signal).any fun (device, pin) => c.monitors.isMonitored device pin

def monitoredNames (e : Engine) : List Text :=
  match e.circuit with
  | none => []
  | some c => c.monitors.names e.names

def signals (e : Engine) : List (Text × Trace) :=
  match e.circuit with
  | none => []
  | some c => (c.monitors.names e.names).zip c.monitors.traces

end Engine

end GateSim
