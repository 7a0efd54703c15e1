import GateSim.Circuit
import GateSim.Definition

/-!
# Drafts

A draft is a circuit under construction, which takes in the events of a definition one by one. A
statement that makes no sense is reported by one diagnostic and changes nothing. A device that was
declared but could not be made is never reported as undefined, since its declaration has been
reported already.
-/

namespace GateSim

/-- Why a statement makes no sense. -/
inductive SemanticFault
  | duplicateDevice (name : Symbol)
  | badParameter (parameter : Symbol) (fault : ParameterFault)
  | undefinedDevice (device : Symbol)
  | noNamedOutput (device pin : Symbol) (kind : Kind)
  | noUnnamedOutput (device : Symbol) (kind : Kind)
  | noInput (device pin : Symbol) (kind : Kind)
  /-- The input has a source, which is given by its label. -/
  | inputTaken (device pin : Symbol) (source : Text)
  /-- The output, given by its label, has a monitor. -/
  | monitorPresent (symbol : Symbol) (label : Text)

namespace SemanticFault

def symbol : SemanticFault → Symbol
  | duplicateDevice name => name
  | badParameter parameter _ => parameter
  | undefinedDevice device | noUnnamedOutput device _ => device
  | noNamedOutput _ pin _ | noInput _ pin _ | inputTaken _ pin _ => pin
  | monitorPresent symbol _ => symbol

def code : SemanticFault → Code
  | duplicateDevice _ => .duplicateDevice
  | badParameter .. => .invalidArgument
  | undefinedDevice _ => .undefinedDevice
  | noNamedOutput .. | noUnnamedOutput .. | noInput .. => .invalidPin
  | inputTaken .. => .inputAlreadyConnected
  | monitorPresent .. => .duplicateMonitor

/-- A monitor that is set twice is only warned of. -/
def severity : SemanticFault → Severity
  | monitorPresent .. => .warning
  | _ => .error

def message : SemanticFault → Text
  | duplicateDevice name =>
    .ofString "Device names are not unique. " ++ name.text ++
      .ofString " is already the name of a device"
  | badParameter _ fault => fault.message
  | undefinedDevice device => .ofString "Device " ++ device.text ++ .ofString " is not defined"
  | noNamedOutput device pin kind =>
    .ofString "Port " ++ pin.text ++ .ofString " is not defined for device " ++ device.text ++
      .ofString " (" ++ kind.text ++ .ofString " has a single unnamed output)"
  | noUnnamedOutput device kind =>
    .ofString "Device " ++ device.text ++ .ofString " (" ++ kind.text ++
      .ofString ") has no unnamed output; use " ++ device.text ++ .ofString ".Q or " ++
      device.text ++ .ofString ".QBAR"
  | noInput device pin kind =>
    .ofString "Port " ++ pin.text ++ .ofString " is not defined for device " ++ device.text ++
      .ofString " (" ++ kind.text ++ .ofString ")"
  | inputTaken device pin source =>
    .ofString "A signal is already connected to input " ++ device.text ++ .ofString "." ++
      pin.text ++ .ofString " (from " ++ source ++
      .ofString "). Only one signal may drive an input"
  | monitorPresent _ label =>
    .ofString "Monitor exists at " ++ label ++ .ofString " already; ignored"

end SemanticFault

/-- A circuit under construction. -/
structure Draft where
  circuit : Circuit
  /-- The names that a device declaration came as far as. -/
  declared : List NameId := []
  /-- The declared names of devices that could not be made. -/
  broken : List NameId := []
  /-- The place of the last syntax error. -/
  lastReject : Option Position := none
  /-- An early end of the file has been noted. -/
  ended : Bool := false

namespace Draft

/-- The name came up in a declaration that makes no device. -/
def abandon (d : Draft) (id : NameId) : Draft :=
  { d with declared := id :: d.declared, broken := id :: d.broken }

/-- Declares a device. Nothing but a taken id, which the declared names rule out, lets the whole
construction fail. -/
def device (names : NameTable) (d : Draft) (kind : Kind) (name : Symbol)
    (parameter : Option Symbol) : Except Fault (Draft × Option SemanticFault) :=
  let id := name.id names
  if d.declared.contains id then .ok (d, some (.duplicateDevice name))
  else
    match d.circuit.create kind id ((parameter.map (·.text)).getD []) with
    | (.ok (), circuit) => .ok ({ d with circuit, declared := id :: d.declared }, none)
    | (.error (.parameter f), _) =>
      .ok (d.abandon id, some (.badParameter (parameter.getD name) f))
    | (.error f, _) => .error (f.report names)

/-- Why a name stands for no device: `none` if it stands for one. A broken name is no fault, but
nothing can be done with it. -/
def undefined (names : NameTable) (d : Draft) (device : Symbol) :
    Option (Option SemanticFault) :=
  let id := device.id names
  if d.circuit.devices.has id then none
  else if d.broken.contains id then some none
  else some (some (.undefinedDevice device))

/-- Why an output does not exist on a device that does. -/
def noOutput (names : NameTable) (d : Draft) (device : Symbol) (pin : Option Symbol) :
    Option SemanticFault :=
  let id := device.id names
  if d.circuit.devices.isOutput id (pin.map (·.id names)) then none
  else
    (d.circuit.devices.device? id).map fun dev =>
      match pin with
      | some p => .noNamedOutput device p dev.kind
      | none => .noUnnamedOutput device dev.kind

/-- Why an input does not exist on a device that does. -/
def noInput (names : NameTable) (d : Draft) (device pin : Symbol) : Option SemanticFault :=
  let id := device.id names
  if d.circuit.devices.isInput id (pin.id names) then none
  else (d.circuit.devices.device? id).map fun dev => .noInput device pin dev.kind

def connection (names : NameTable) (d : Draft) (source : Symbol) (sourcePin : Option Symbol)
    (target targetPin : Symbol) : Except Fault (Draft × Option SemanticFault) :=
  match (d.undefined names source).or (d.undefined names target) with
  | some fault => .ok (d, fault)
  | none =>
  match (d.noOutput names source sourcePin).or (d.noInput names target targetPin) with
  | some fault => .ok (d, some fault)
  | none =>
    let (id, pin) := (target.id names, targetPin.id names)
    match d.circuit.connect (source.id names) (sourcePin.map (·.id names)) id pin with
    | (.ok, circuit) => .ok ({ d with circuit }, none)
    | (.inputConnected, _) =>
      let label :=
        match d.circuit.devices.source? id pin with
        | some s => names.label s.device s.pin
        | none => .ofString "?"
      .ok (d, some (.inputTaken target targetPin label))
    | (_, _) =>
      .error (.internal (.ofString "Connection " ++ source.text ++ .ofString " > " ++
        target.text ++ .ofString "." ++ targetPin.text ++
        .ofString " rejected after its checks passed"))

def monitor (names : NameTable) (d : Draft) (device : Symbol) (pin : Option Symbol) :
    Except Fault (Draft × Option SemanticFault) :=
  match d.undefined names device with
  | some fault => .ok (d, fault)
  | none =>
  match d.noOutput names device pin with
  | some fault => .ok (d, some fault)
  | none =>
    let (id, pinId) := (device.id names, pin.map (·.id names))
    match d.circuit.monitor id pinId with
    | (.ok, circuit) => .ok ({ d with circuit }, none)
    | (.present, _) =>
      .ok (d, some (.monitorPresent (pin.getD device) (names.label id pinId)))
    | (_, _) =>
      .error (.internal (.ofString "Monitor " ++ names.label id pinId ++
        .ofString " rejected after its checks passed"))

/-- Does what a statement says, or tells why it makes no sense. -/
def perform (names : NameTable) (d : Draft) :
    Statement → Except Fault (Draft × Option SemanticFault)
  | .device kind name parameter => d.device names kind name parameter
  | .connection source sourcePin target targetPin =>
    d.connection names source sourcePin target targetPin
  | .monitor device pin => d.monitor names device pin

/-- Reports a syntax error, unless the last one was at the same place and so brought it about. -/
def reject (text : Definition) (d : Draft) (symbol : Symbol) (code : Code) (message : Text) :
    Draft × Option Diagnostic :=
  if d.lastReject = some symbol.position then (d, none)
  else
    ({ d with lastReject := some symbol.position },
      some (text.diagnose symbol .syntactic code message))

/-- Takes one event in, and gives the diagnostic that it leads to. -/
def step (text : Definition) (names : NameTable) (d : Draft) :
    Event → Except Fault (Draft × Option Diagnostic)
  | .stray symbol => .ok (d, some (text.stray symbol))
  | .note .pass => .ok (d, none)
  | .note (.reject symbol fault) =>
    let symbol := symbol.getD text.last
    .ok (d.reject text symbol fault.code (fault.message symbol))
  | .note .endsEarly =>
    if d.ended then .ok (d, none)
    else
      .ok ({ d with ended := true }.reject text text.last .unexpectedEndOfFile
        (.ofString "File ends too early. Check for missing sections or 'END;'"))
  | .note (.abandon name) => .ok (d.abandon (name.id names), none)
  | .note (.complete statement) => do
    let (d, fault) ← d.perform names statement
    return (d, fault.map fun f => text.diagnose f.symbol .semantic f.code f.message f.severity)

/-- Takes events in, and gives the diagnostics that they lead to. -/
def run (text : Definition) (names : NameTable) (d : Draft) :
    List Event → Except Fault (Draft × Diagnostics)
  | [] => .ok (d, [])
  | e :: events => do
    let (d, diagnostic) ← d.step text names e
    let (d, diagnostics) ← d.run text names events
    return (d, diagnostic.toList ++ diagnostics)

end Draft

end GateSim
