import GateSim.Network

/-!
# Monitors

A monitor keeps the values that an output had after each recorded cycle. Monitors stand in the
order in which they were set. A monitor that was set late has fewer samples, and its trace starts
with as many blanks, so that all traces end on the same cycle.
-/

namespace GateSim

structure Monitor where
  device : NameId
  pin : OutputPin
  /-- The samples, latest first. -/
  recent : List Signal := []
  deriving DecidableEq

/-- One entry for each cycle; `none` is a cycle from before the monitor was set. -/
abbrev Trace := List (Option Signal)

inductive MonitorStatus
  | ok
  | deviceAbsent
  | notOutput
  /-- The output is monitored; nothing changed. -/
  | present
  | notMonitored
  deriving DecidableEq

namespace Monitor

def watches (m : Monitor) (device : NameId) (pin : OutputPin) : Bool :=
  m.device == device && m.pin == pin

/-- The samples in the order of the cycles. -/
def history (m : Monitor) : List Signal := m.recent.reverse

def add (m : Monitor) (v : Signal) : Monitor := { m with recent := v :: m.recent }

def reset (m : Monitor) : Monitor := { m with recent := [] }

def name (names : NameTable) (m : Monitor) : Text := names.label m.device m.pin

/-- The samples after as many blanks as bring them to a length. -/
def trace (m : Monitor) (length : Nat) : Trace :=
  List.replicate (length - m.recent.length) none ++ m.history.map some

@[simp] theorem history_add (m : Monitor) (v : Signal) : (m.add v).history = m.history ++ [v] := by
  simp [history, add]

end Monitor

/-- `-` is HIGH, `_` is LOW and a space is a cycle without a sample. -/
def Trace.render (t : Trace) : Text :=
  t.map fun
    | none => Byte.space
    | some true => '-'.toUInt8
    | some false => '_'.toUInt8

/-- In the order in which they were set. -/
abbrev Monitors := List Monitor

namespace Monitors

def find? (ms : Monitors) (device : NameId) (pin : OutputPin) : Option Monitor :=
  List.find? (·.watches device pin) ms

def isMonitored (ms : Monitors) (device : NameId) (pin : OutputPin) : Bool :=
  (ms.find? device pin).isSome

/-- Sets a monitor on an output that exists and has none. -/
def insert (r : Registry) (ms : Monitors) (device : NameId) (pin : OutputPin) :
    MonitorStatus × Monitors :=
  if !r.has device then (.deviceAbsent, ms)
  else if !r.isOutput device pin then (.notOutput, ms)
  else if ms.isMonitored device pin then (.present, ms)
  else (.ok, ms ++ [{ device := device, pin := pin }])

def erase (ms : Monitors) (device : NameId) (pin : OutputPin) : MonitorStatus × Monitors :=
  if ms.isMonitored device pin then (.ok, ms.eraseP (·.watches device pin)) else (.notMonitored, ms)

/-- Samples every output, up to the first one that does not exist. -/
def record (r : Registry) : Monitors → Option RunFault × Monitors
  | [] => (none, [])
  | m :: ms =>
    match r.output? m.device m.pin with
    | none => (some (.lostMonitor m.device m.pin), m :: ms)
    | some v =>
      let (fault, ms) := record r ms
      (fault, m.add v :: ms)

def reset (ms : Monitors) : Monitors := ms.map Monitor.reset

def names (table : NameTable) (ms : Monitors) : List Text := ms.map (·.name table)

def maxHistory (ms : Monitors) : Nat := ms.foldl (fun n m => max n m.recent.length) 0

/-- The traces, all of the length of the longest history. -/
def traces (ms : Monitors) : List Trace := ms.map (·.trace ms.maxHistory)

/-- A line for each monitor: its name, padded to the longest, and its trace. -/
def render (table : NameTable) (ms : Monitors) : Text :=
  let width := (ms.names table).foldl (fun n t => max n t.length) 0
  ((ms.names table).zip ms.traces).flatMap fun (name, trace) =>
    name ++ List.replicate (width - name.length) Byte.space ++ Text.ofString " : " ++
      trace.render ++ Text.ofString "\n"

end Monitors

end GateSim
