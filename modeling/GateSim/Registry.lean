import GateSim.Device

/-!
# Registries

All devices of a circuit in the order in which they were made, and an index from ids to places in
that order. Devices refer to each other by id only, so loops in a circuit are plain data.
-/

namespace GateSim

structure Registry where
  pins : Pins
  devices : List Device := []
  /-- The place of each id, latest first. -/
  places : List (NameId × Nat) := []
  deriving DecidableEq

inductive CreateFault
  | taken (id : NameId)
  | parameter (fault : ParameterFault)
  deriving DecidableEq

def CreateFault.report (names : NameTable) : CreateFault → Fault
  | taken id =>
    match names.text id with
    | .ok t => .duplicateDevice (.ofString "Device " ++ t ++ .ofString " already exists")
    | .error f => f
  | parameter fault => .invalidParameter fault.message

inductive ConnectStatus
  | ok
  | deviceAbsent
  /-- The source has no such output or the target no such input. -/
  | pinAbsent
  /-- The input has a source, which stays. -/
  | inputConnected
  deriving DecidableEq

namespace Registry

def size (r : Registry) : Nat := r.devices.length

def has (r : Registry) (id : NameId) : Bool := (r.places.lookup id).isSome

def device? (r : Registry) (id : NameId) : Option Device :=
  (r.places.lookup id).bind (r.devices[·]?)

def update (r : Registry) (id : NameId) (f : Device → Device) : Registry :=
  match r.places.lookup id with
  | some i => { r with devices := r.devices.modify i f }
  | none => r

def ids (r : Registry) : List NameId := r.devices.map (·.id)

def idsOf (r : Registry) (kind : Kind) : List NameId :=
  (r.devices.filter (·.kind == kind)).map (·.id)

def isInput (r : Registry) (id pin : NameId) : Bool :=
  (r.device? id).any (·.inputs.contains pin)

def isOutput (r : Registry) (id : NameId) (pin : OutputPin) : Bool :=
  (r.device? id).any (·.outputs.contains pin)

def output? (r : Registry) (id : NameId) (pin : OutputPin) : Option Signal :=
  (r.device? id).bind (·.outputs.get? pin)

def source? (r : Registry) (id pin : NameId) : Option Source :=
  (r.device? id).bind fun d => (d.inputs.get? pin).join

/-- Every input without a source, by device and pin. -/
def floating (r : Registry) : List (NameId × NameId) :=
  r.devices.flatMap fun d => d.floating.map (d.id, ·)

/-- Makes a device, which comes last. -/
def create (r : Registry) (kind : Kind) (id : NameId) (parameter : Text) :
    Except CreateFault Registry :=
  if r.has id then .error (.taken id)
  else
    match Device.make r.pins kind id parameter with
    | .ok d => .ok { r with devices := r.devices ++ [d], places := (id, r.size) :: r.places }
    | .error f => .error (.parameter f)

/-- Gives an input its source, unless it has one. -/
def connect (r : Registry) (source : NameId) (sourcePin : OutputPin) (target pin : NameId) :
    ConnectStatus × Registry :=
  match r.device? target with
  | none => (.deviceAbsent, r)
  | some d =>
    if !r.has source then (.deviceAbsent, r)
    else if !r.isOutput source sourcePin then (.pinAbsent, r)
    else
      match d.inputs.get? pin with
      | none => (.pinAbsent, r)
      | some (some _) => (.inputConnected, r)
      | some none =>
        (.ok, r.update target fun d =>
          { d with inputs := d.inputs.put pin (some ⟨source, sourcePin⟩) })

def setting? (r : Registry) (id : NameId) : Option Signal :=
  match (r.device? id).map Device.state with
  | some (.switch _ setting) => some setting
  | _ => none

/-- Sets a switch, whose output follows at once; `none` if the device is not a switch. -/
def setSwitch (r : Registry) (id : NameId) (v : Signal) : Option Registry :=
  match (r.device? id).map Device.state with
  | some (.switch initial _) =>
    some (r.update id fun d => { d.putOutput none v with state := .switch initial v })
  | _ => none

/-- Returns every device to the state in which it started. -/
def coldStart (r : Registry) : Registry := { r with devices := r.devices.map (Device.reset r.pins) }

/-- Puts back devices that were saved. The index is not touched, so that ids made since then keep
their places. -/
def restore (r : Registry) (saved : List Device) : Registry := { r with devices := saved }

end Registry

end GateSim
