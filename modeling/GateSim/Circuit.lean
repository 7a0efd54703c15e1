import GateSim.Monitor

/-!
# Circuits

The devices of a circuit, its monitors, and how many passes its last successful cycle took. A cycle
that fails leaves the circuit as it was.
-/

namespace GateSim

structure Circuit where
  devices : Registry
  monitors : Monitors := []
  lastPasses : Nat := 0
  deriving DecidableEq

namespace Circuit

/-- A circuit without devices, over names that know the pin words. -/
def empty (names : NameTable) : Circuit := { devices := { pins := Pins.ofNames names } }

def create (c : Circuit) (kind : Kind) (id : NameId) (parameter : Text) :
    Except CreateFault Unit × Circuit :=
  match c.devices.create kind id parameter with
  | .ok devices => (.ok (), { c with devices })
  | .error f => (.error f, c)

def connect (c : Circuit) (source : NameId) (sourcePin : OutputPin) (target pin : NameId) :
    ConnectStatus × Circuit :=
  let (status, devices) := c.devices.connect source sourcePin target pin
  (status, { c with devices })

/-- Sets a switch. Tells whether the device is one. -/
def setSwitch (c : Circuit) (id : NameId) (v : Signal) : Bool × Circuit :=
  match c.devices.setSwitch id v with
  | some devices => (true, { c with devices })
  | none => (false, c)

/-- Simulates a cycle and gives the passes that it took. -/
def cycle (c : Circuit) : Except RunFault Nat × Circuit :=
  match Registry.cycle.run c.devices with
  | .ok passes devices => (.ok passes, { c with devices, lastPasses := passes })
  | .error f devices => (.error f, { c with devices })

/-- Samples the monitored outputs. A sample that was taken before one that fails stays. -/
def record (c : Circuit) : Except RunFault Unit × Circuit :=
  let (fault, monitors) := Monitors.record c.devices c.monitors
  (match fault with
    | none => .ok ()
    | some f => .error f, { c with monitors })

/-- Simulates a cycle and samples the monitored outputs. -/
def step (c : Circuit) : Except RunFault Nat × Circuit :=
  match c.cycle with
  | (.error f, c) => (.error f, c)
  | (.ok passes, c) =>
    match c.record with
    | (.error f, c) => (.error f, c)
    | (.ok (), c) => (.ok passes, c)

def monitor (c : Circuit) (device : NameId) (pin : OutputPin) : MonitorStatus × Circuit :=
  let (status, monitors) := Monitors.insert c.devices c.monitors device pin
  (status, { c with monitors })

def unmonitor (c : Circuit) (device : NameId) (pin : OutputPin) : MonitorStatus × Circuit :=
  let (status, monitors) := c.monitors.erase device pin
  (status, { c with monitors })

def coldStart (c : Circuit) : Circuit := { c with devices := c.devices.coldStart }

def restore (c : Circuit) (saved : List Device) : Circuit :=
  { c with devices := c.devices.restore saved }

def resetMonitors (c : Circuit) : Circuit := { c with monitors := c.monitors.reset }

end Circuit

end GateSim
