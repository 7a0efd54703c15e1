import Mathlib.Data.Multiset.MapFold
import GateSim.Proofs.Description
import GateSim.Proofs.Mirror
import GateSim.Proofs.Tables

/-!
# Circuits without ids

A sketch shows a circuit with names in the place of ids (`Session.sketch`), and a story tells what
commands bring about (`Session.story`). Two sessions may have the same circuit under other ids and
with other names for the devices (`Session.Relabels`): then sketches and stories are the same under
these names (`Session.Relabels.sketch_eq`, `Session.Relabels.story_eq`), whatever the ids are.
-/

namespace GateSim

/-- What a device is and shows. Its pins stand in no order. -/
structure DeviceSketch where
  name : Text
  kind : Kind
  state : State
  inputs : Multiset (Text × Option Port)
  outputs : Multiset (Option Text × Signal)

/-- The devices in the order in which they were made, and the monitored outputs with their
samples. -/
structure Sketch where
  devices : List DeviceSketch
  monitors : List (Port × List Signal)

/-- What a command leads to. -/
structure Moment where
  reply : Reply
  sketch : Sketch

/-- If inputs of a device float, the one with the least id is blamed. Which one this is is not
told. -/
def Reply.blur : Reply → Reply
  | .cycleFailed (.floatingInput device _) => .cycleFailed (.floatingInput device [])
  | reply => reply

/-! ### Other names for devices -/

section rename
variable (σ : Text → Text)

def Port.rename (p : Port) : Port := { p with device := σ p.device }

def DeviceSketch.rename (d : DeviceSketch) : DeviceSketch :=
  { d with
    name := σ d.name
    inputs := d.inputs.map fun e => (e.1, e.2.map (Port.rename σ)) }

def Sketch.rename (s : Sketch) : Sketch where
  devices := s.devices.map (DeviceSketch.rename σ)
  monitors := s.monitors.map fun e => (e.1.rename σ, e.2)

def Reply.rename : Reply → Reply
  | .cycleFailed (.floatingInput device pin) => .cycleFailed (.floatingInput (σ device) pin)
  | reply => reply

def Moment.rename (m : Moment) : Moment := ⟨m.reply.rename σ, m.sketch.rename σ⟩

def Command.rename : Command → Command
  | .setSwitch name v => .setSwitch (σ name) v
  | .cycle => .cycle

end rename

def Command.name? : Command → Option Text
  | .setSwitch name _ => some name
  | .cycle => none

/-! ### Without other names -/

theorem Port.rename_id : Port.rename id = id := rfl

theorem Sketch.rename_id (s : Sketch) : s.rename id = s := by
  have hdevice : DeviceSketch.rename id = id := by
    funext d
    simp [DeviceSketch.rename, Port.rename_id]
  simp [rename, hdevice, Port.rename_id]

theorem Reply.rename_id (reply : Reply) : reply.rename id = reply := by
  unfold rename
  split <;> rfl

theorem Moment.rename_id : Moment.rename id = id := by
  funext m
  rw [rename, Reply.rename_id, Sketch.rename_id, id]

theorem Command.rename_id : Command.rename id = id := by
  funext c
  cases c <;> rfl

namespace Session

def port (s : Session) (a : NameId) (pin : OutputPin) : Port :=
  ⟨s.names.nameOf a, pin.map s.names.nameOf⟩

def deviceSketch (s : Session) (d : Device) : DeviceSketch where
  name := s.names.nameOf d.id
  kind := d.kind
  state := d.state
  inputs := d.inputs.map fun e => (s.names.nameOf e.1, e.2.map fun o => s.port o.device o.pin)
  outputs := d.outputs.map fun e => (e.1.map s.names.nameOf, e.2)

def sketch (s : Session) : Sketch where
  devices := s.circuit.devices.devices.map s.deviceSketch
  monitors := s.circuit.monitors.map fun m => (s.port m.device m.pin, m.history)

def deviceNames (s : Session) : List Text := s.circuit.devices.ids.map s.names.nameOf

/-- Does what is asked. A name that nobody has seen is refused as that of no switch. -/
def ask (s : Session) : Command → Reply × Session
  | .setSwitch name v =>
    match s.names.find? name with
    | none => (.switched false, s)
    | some id => s.perform (.setSwitch id v)
  | .cycle => s.perform .cycle

/-- What commands lead to, one after the other. -/
def story (s : Session) : List Command → List Moment
  | [] => []
  | c :: cs =>
    let (reply, s) := s.ask c
    ⟨reply.blur, s.sketch⟩ :: s.story cs

variable {s s' : Session} {t : Text} {v : Signal}

theorem ask_keeps (hs : s.Reachable) (c : Command) : (s.ask c).2.Reachable ∧
    (s.ask c).2.names = s.names ∧ (s.ask c).2.circuit.devices.ids = s.circuit.devices.ids := by
  have hcommand : (s.command c).2 = (s.ask c).2 := by
    cases c with
    | setSwitch name v =>
      simp only [ask, command]
      cases s.names.find? name <;> rfl
    | cycle => rfl
  obtain ⟨hreachable, hnames, hwiring⟩ := command_keeps hs c
  rw [hcommand] at hreachable hnames hwiring
  exact ⟨hreachable, hnames, Registry.ids_eq_of_wiring_eq hwiring⟩

/-- What is not the name of a device is refused. -/
theorem ask_setSwitch_of_not_mem (hs : s.Intact) (h : t ∉ s.deviceNames) :
    s.ask (.setSwitch t v) = (.switched false, s) := by
  by_cases ht : t ∈ s.names.texts
  case neg => rw [ask, NameTable.find?_of_not_mem ht]
  have hid : s.names.idOf t ∉ s.circuit.devices.ids := fun hid =>
    h (List.mem_map.2 ⟨_, hid, NameTable.nameOf_idOf ht⟩)
  rw [ask, NameTable.find?_of_mem ht]
  exact perform_setSwitch_of_none (hs.sound.wellFormed.setSwitch_eq_none hid v)

/-- What is told of a cycle that fails at a floating input. -/
theorem Intact.blur_floating (hs : s.Intact) {d : Device} (hd : d ∈ s.circuit.devices.devices)
    {pin : NameId} (hpin : pin ∈ d.inputs.keys) (ht : t ∈ s.names.texts)
    (hid : s.names.idOf t = d.id) :
    (Reply.cycleFailed ((RunFault.floating d.id pin).report s.names)).blur =
      .cycleFailed (.floatingInput t []) := by
  obtain ⟨word, hword, rfl⟩ := (hs.exists_word hd).1 pin hpin
  have hknown := hs.knowsPins word (List.mem_append_left _ hword)
  simp only [RunFault.report, RunFault.explain, ← hid, NameTable.text_idOf ht,
    NameTable.text_idOf hknown]
  rfl

/-! ### Relabelled sessions -/

/-- The other session has the same circuit under other ids, in which devices go by other names, but
pins by the same ones. -/
structure Relabels (σ : Text → Text) (T : Recoding) (s s' : Session) : Prop where
  circuit : s.circuit.Recodes T s'.circuit
  pin : ∀ t ∈ PinWord.inputs ++ PinWord.outputs, T.pin (s.names.idOf t) = s'.names.idOf t
  known : ∀ a ∈ s.circuit.devices.ids, ∃ t ∈ s.names.texts, s.names.idOf t = a ∧
    σ t ∈ s'.names.texts ∧ T.device a = s'.names.idOf (σ t)

namespace Relabels
variable {σ : Text → Text} {T : Recoding}

/-- Both sessions after a change that leaves the names and the ids of the devices alone. -/
theorem of_ids {r r' : Session} (h : s.Relabels σ T s') (hn : r.names = s.names)
    (hn' : r'.names = s'.names) (hids : r.circuit.devices.ids = s.circuit.devices.ids)
    (hc : r.circuit.Recodes T r'.circuit) : r.Relabels σ T r' := by
  refine ⟨hc, ?_, ?_⟩
  · rw [hn, hn']
    exact h.pin
  · rw [hn, hn', hids]
    exact h.known

variable (h : s.Relabels σ T s')
include h

theorem nameOf_device {a : NameId} (ha : a ∈ s.circuit.devices.ids) :
    s'.names.nameOf (T.device a) = σ (s.names.nameOf a) := by
  obtain ⟨t, ht, rfl, ht', heq⟩ := h.known a ha
  rw [heq, NameTable.nameOf_idOf ht, NameTable.nameOf_idOf ht']

theorem deviceNames_eq : s'.deviceNames = s.deviceNames.map σ := by
  rw [deviceNames, deviceNames, h.circuit.devices, Registry.ids_recode, List.map_map, List.map_map]
  exact List.map_congr_left fun a ha => h.nameOf_device ha

section
variable (hs : s.Intact) (hs' : s'.Intact)
include hs hs'

theorem nameOf_pin (ht : t ∈ PinWord.inputs ++ PinWord.outputs) :
    s'.names.nameOf (T.pin (s.names.idOf t)) = s.names.nameOf (s.names.idOf t) := by
  rw [h.pin t ht, NameTable.nameOf_idOf (hs.knowsPins t ht),
    NameTable.nameOf_idOf (hs'.knowsPins t ht)]

theorem nameOf_output {d : Device} (hd : d ∈ s.circuit.devices.devices) {pin : OutputPin}
    (hpin : pin ∈ d.outputs.keys) :
    (pin.map T.pin).map s'.names.nameOf = pin.map s.names.nameOf := by
  cases pin with
  | none => rfl
  | some pin =>
    obtain ⟨t, ht, rfl⟩ := (hs.exists_word hd).2 pin hpin
    exact congrArg some (h.nameOf_pin hs hs' (List.mem_append_right _ ht))

/-- An output goes by the same name on a device of another name. -/
theorem port_eq {a : NameId} {pin : OutputPin}
    (hout : ∃ d ∈ s.circuit.devices.devices, d.id = a ∧ pin ∈ d.outputs.keys) :
    s'.port (T.device a) (pin.map T.pin) = (s.port a pin).rename σ := by
  obtain ⟨d, hd, rfl, hpin⟩ := hout
  rw [port, port, h.nameOf_device (List.mem_map_of_mem hd), h.nameOf_output hs hs' hd hpin]
  rfl

theorem deviceSketch_eq {d : Device} (hd : d ∈ s.circuit.devices.devices) :
    s'.deviceSketch (d.recode T) = (s.deviceSketch d).rename σ := by
  have hvalid := hs.sound.wellFormed.devices d hd
  refine DeviceSketch.mk.injEq .. |>.mpr
    ⟨h.nameOf_device (List.mem_map_of_mem hd), rfl, rfl, ?_, ?_⟩
  · refine (Multiset.coe_eq_coe.2 ((T.inputs_perm _ hvalid.inputs).map _)).trans ?_
    simp only [deviceSketch, Multiset.map_coe, List.map_map]
    refine congrArg _ (List.map_congr_left fun e he => Prod.ext ?_ ?_)
    · obtain ⟨t, ht, heq⟩ := (hs.exists_word hd).1 e.1 (List.mem_map_of_mem he)
      simp only [Function.comp_apply, heq]
      exact h.nameOf_pin hs hs' (List.mem_append_left _ ht)
    · simp only [Function.comp_apply, Option.map_map]
      refine Option.map_congr fun o ho => ?_
      exact h.port_eq hs hs' (hs.sound.wellFormed.sources d hd e.1 o
        (hvalid.inputs.get?_of_mem (Option.mem_def.1 ho ▸ he)))
  · refine (Multiset.coe_eq_coe.2 ((T.outputs_perm _ hvalid.outputs).map _)).trans ?_
    simp only [deviceSketch, List.map_map]
    refine congrArg _ (List.map_congr_left fun e he => Prod.ext ?_ rfl)
    exact h.nameOf_output hs hs' hd (List.mem_map_of_mem he)

/-- The sketch is the same, with the other names. -/
theorem sketch_eq : s'.sketch = s.sketch.rename σ := by
  refine Sketch.mk.injEq .. |>.mpr ⟨?_, ?_⟩
  · rw [h.circuit.devices, Registry.recode, sketch, List.map_map, List.map_map]
    exact List.map_congr_left fun d hd => h.deviceSketch_eq hs hs' hd
  · rw [h.circuit.monitors, sketch, List.map_map, List.map_map]
    exact List.map_congr_left fun m hm => Prod.ext (h.port_eq hs hs' (hs.monitors m hm)) rfl

end

/-! ### Commands -/

section
variable (hs : s.Reachable) (hs' : s'.Reachable)
include hs hs'

theorem of_ask {c c' : Command} (hc : (s.ask c).2.circuit.Recodes T (s'.ask c').2.circuit) :
    Relabels σ T (s.ask c).2 (s'.ask c').2 := by
  obtain ⟨-, hn, hids⟩ := ask_keeps hs c
  obtain ⟨-, hn', -⟩ := ask_keeps hs' c'
  exact h.of_ids hn hn' hids hc

theorem ask_setSwitch {t : Text} (hσ : ∀ u ∈ s.deviceNames, σ u = σ t → u = t) (v : Signal) :
    (s'.ask (.setSwitch (σ t) v)).1 = (s.ask (.setSwitch t v)).1 ∧
      (s.ask (.setSwitch t v)).2.circuit.Recodes T (s'.ask (.setSwitch (σ t) v)).2.circuit := by
  by_cases hmem : t ∈ s.deviceNames
  case neg =>
    have hmem' : σ t ∉ s'.deviceNames := by
      rw [h.deviceNames_eq]
      rintro hmem'
      obtain ⟨u, hu, heq⟩ := List.mem_map.1 hmem'
      exact hmem (hσ u hu heq ▸ hu)
    rw [ask_setSwitch_of_not_mem hs.intact hmem, ask_setSwitch_of_not_mem hs'.intact hmem']
    exact ⟨rfl, h.circuit⟩
  obtain ⟨a, ha, rfl⟩ := List.mem_map.1 hmem
  obtain ⟨t, ht, rfl, ht', hdevice⟩ := h.known a ha
  rw [NameTable.nameOf_idOf ht, ask, ask, NameTable.find?_of_mem ht, NameTable.find?_of_mem ht',
    ← hdevice]
  obtain ⟨hresult, hcircuit⟩ := h.circuit.setSwitch (s.names.idOf t) v
  exact ⟨congrArg Reply.switched hresult, hcircuit⟩

theorem blur_floating {a p p' : NameId} {c c' : Circuit}
    (hc : s.circuit.cycle = (.error (.floating a p), c))
    (hc' : s'.circuit.cycle = (.error (.floating (T.device a) p'), c')) :
    (Reply.cycleFailed ((RunFault.floating (T.device a) p').report s'.names)).blur =
      (Reply.cycleFailed ((RunFault.floating a p).report s.names)).blur.rename σ := by
  -- the blamed device is one of the circuit, in either session
  have hfault : ∀ {s : Session} {a p : NameId} {c : Circuit}, s.Reachable →
      s.circuit.cycle = (.error (.floating a p), c) →
      ∃ d ∈ s.circuit.devices.devices, p ∈ d.inputs.keys ∧ a = d.id := by
    intro s a p c hs hc
    rcases Registry.fault_of_cycle hs.sound.wellFormed hs.sound.latched
      (Circuit.cycle_devices_of_error hc) with ⟨d, hd, pin, hpin, heq⟩ | heq <;> cases heq
    exact ⟨d, hd, hpin, rfl⟩
  obtain ⟨d, hd, hp, rfl⟩ := hfault hs hc
  obtain ⟨d', hd', hp', hid'⟩ := hfault hs' hc'
  obtain ⟨t, ht, hid, ht', hdevice⟩ := h.known d.id (List.mem_map_of_mem hd)
  rw [hs.intact.blur_floating hd hp ht hid, hid',
    hs'.intact.blur_floating hd' hp' ht' (hdevice.symm.trans hid')]
  rfl

/-- A cycle that fails is reported alike, but for the input that is blamed. -/
theorem ask_cycle :
    (s'.ask .cycle).1.blur = (s.ask .cycle).1.blur.rename σ ∧
      (s.ask .cycle).2.circuit.Recodes T (s'.ask .cycle).2.circuit := by
  have hw := hs.sound.wellFormed
  rcases h.circuit.cycle fun d hd => (hw.devices d hd).inputs with
    ⟨a, p, p', hc, hc'⟩ | ⟨hresult, hcircuit⟩
  · rw [Session.ask, Session.ask, perform_cycle_of_error hc, perform_cycle_of_error hc']
    exact ⟨h.blur_floating hs hs' hc hc', h.circuit⟩
  rcases hc : s.circuit.cycle with ⟨f | passes, c⟩ <;>
    rcases hc' : s'.circuit.cycle with ⟨f' | passes', c'⟩ <;>
    rw [hc, hc'] at hresult hcircuit <;> cases hresult
  · obtain rfl := Circuit.cycle_error hc
    obtain rfl := Circuit.cycle_error hc'
    rw [Session.ask, Session.ask, perform_cycle_of_error hc, perform_cycle_of_error hc']
    refine ⟨?_, hcircuit⟩
    rcases Registry.fault_of_cycle hw hs.sound.latched (Circuit.cycle_devices_of_error hc) with
      ⟨d, hd, pin, hpin, rfl⟩ | rfl
    · exact h.blur_floating hs hs' hc hc'
    · rfl
  · rw [Session.ask, Session.ask, perform_cycle_of_ok hc, perform_cycle_of_ok hc']
    exact ⟨rfl, hcircuit⟩

theorem ask {c : Command} (hσ : ∀ t ∈ c.name?, ∀ u ∈ s.deviceNames, σ u = σ t → u = t) :
    (s'.ask (c.rename σ)).1.blur = (s.ask c).1.blur.rename σ ∧
      Relabels σ T (s.ask c).2 (s'.ask (c.rename σ)).2 := by
  cases c with
  | setSwitch t v =>
    obtain ⟨hreply, hcircuit⟩ := h.ask_setSwitch hs hs' (hσ t rfl) v
    refine ⟨?_, h.of_ask hs hs' hcircuit⟩
    rw [Command.rename, hreply, Session.ask]
    cases s.names.find? t <;> rfl
  | cycle =>
    obtain ⟨hreply, hcircuit⟩ := h.ask_cycle hs hs'
    exact ⟨hreply, h.of_ask hs hs' hcircuit⟩

/-- The story is the same, with the other names. -/
theorem story_eq (cs : List Command)
    (hσ : ∀ c ∈ cs, ∀ t ∈ c.name?, ∀ u ∈ s.deviceNames, σ u = σ t → u = t) :
    s'.story (cs.map (Command.rename σ)) = (s.story cs).map (Moment.rename σ) := by
  induction cs generalizing s s' with
  | nil => rfl
  | cons c cs ih =>
    obtain ⟨hc, hcs⟩ := List.forall_mem_cons.1 hσ
    obtain ⟨hreply, hnext⟩ := h.ask hs hs' hc
    obtain ⟨hr, hn, hids⟩ := ask_keeps hs c
    obtain ⟨hr', -, -⟩ := ask_keeps hs' (c.rename σ)
    have hnames : (s.ask c).2.deviceNames = s.deviceNames := by
      rw [deviceNames, deviceNames, hn, hids]
    rw [List.map_cons, story, story, List.map_cons]
    dsimp only
    rw [ih hnext hr hr' (hnames ▸ hcs), hreply, hnext.sketch_eq hr.intact hr'.intact]
    rfl

end

end Relabels

end Session

end GateSim
