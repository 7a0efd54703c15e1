import GateSim.Proofs.Construction
import GateSim.Proofs.Range

/-!
# The invariant of circuits

`Session.Valid`: the index and the devices agree, each device has a hidden state of its kind and in
range and exactly the pins of its kind, and whatever drives an input or is monitored exists. It
holds of every circuit that arises without damage, built ones included, since no operation takes
anything away from a device (`Device.Continues`): name, kind, parameter and pins stay, and an input
that has a source keeps it.
-/

namespace GateSim

namespace State

/-- The words for the inputs of a device. -/
def inputWords : State → List Text
  | .gate n => PinWord.gateInputs.take n
  | .xor => PinWord.gateInputs.take 2
  | .dtype _ _ => [PinWord.data, PinWord.clk, PinWord.set, PinWord.clear]
  | _ => []

/-- The words for the outputs of a device; one output has no word. -/
def outputWords : State → List (Option Text)
  | .dtype _ _ => [some PinWord.q, some PinWord.qbar]
  | _ => [none]

theorem mem_inputWords {s : State} {t : Text} (h : t ∈ s.inputWords) : t ∈ PinWord.inputs := by
  cases s with
  | gate n => exact List.mem_append_left _ (List.mem_of_mem_take h)
  | xor => exact List.mem_append_left _ (List.mem_of_mem_take h)
  | dtype q lastClk => exact List.mem_append_right _ h
  | _ => cases h

theorem mem_outputWords {s : State} {t : Text} (h : some t ∈ s.outputWords) :
    t ∈ PinWord.outputs := by
  cases s <;> simp_all [outputWords, PinWord.outputs]

theorem inputPins_ofNames (names : NameTable) (s : State) :
    s.inputPins (.ofNames names) = s.inputWords.map names.idOf := by
  cases s <;> simp [inputPins, inputWords, Pins.ofNames, List.map_take]

theorem outputPins_ofNames (names : NameTable) (s : State) :
    s.outputPins (.ofNames names) = s.outputWords.map (·.map names.idOf) := by
  cases s <;> rfl

theorem nodup_outputPins {pins : Pins} (h : pins.Distinct) (s : State) :
    (s.outputPins pins).Nodup := by
  cases s with
  | dtype q lastClk => simpa [outputPins, startOutputs] using h.outputs
  | _ => exact List.pairwise_singleton _ _

end State

/-! ### What stays -/

/-- The device `d'` is what became of the device `d`: it has its name, its kind, its parameter (which
is the state to which it is reset) and its pins, and the source of each input that had one. -/
structure Device.Continues (d d' : Device) : Prop where
  id : d'.id = d.id
  kind : d'.kind = d.kind
  parameter : d'.state.reset = d.state.reset
  inputs : d'.inputs.keys = d.inputs.keys
  outputs : d'.outputs.keys = d.outputs.keys
  sources : ∀ pin s, d.inputs.get? pin = some (some s) → d'.inputs.get? pin = some (some s)

/-- Every device has stayed at its place. -/
def Registry.Continues (r r' : Registry) : Prop :=
  ∀ (i : Nat) (d : Device), r.devices[i]? = some d →
    ∃ d', r'.devices[i]? = some d' ∧ d.Continues d'

namespace Device

theorem Continues.refl (d : Device) : d.Continues d := ⟨rfl, rfl, rfl, rfl, rfl, fun _ _ h => h⟩

theorem Continues.trans {d d' d'' : Device} (h : d.Continues d') (h' : d'.Continues d'') :
    d.Continues d'' where
  id := h'.id.trans h.id
  kind := h'.kind.trans h.kind
  parameter := h'.parameter.trans h.parameter
  inputs := h'.inputs.trans h.inputs
  outputs := h'.outputs.trans h.outputs
  sources := fun pin s hs => h'.sources pin s (h.sources pin s hs)

theorem continues_of_wiring_eq {d d' : Device} (h : d'.wiring = d.wiring) : d.Continues d' := by
  obtain ⟨hid, hkind, hin, hout, hstate⟩ := wiring_eq_iff.1 h
  exact ⟨hid, hkind, hstate, congrArg _ hin, hout, fun pin s hs => hin ▸ hs⟩

end Device

namespace Registry
variable {r r' r'' : Registry}

theorem Continues.refl (r : Registry) : r.Continues r := fun _ d hd => ⟨d, hd, .refl d⟩

theorem Continues.trans (h : r.Continues r') (h' : r'.Continues r'') : r.Continues r'' := by
  intro i d hd
  obtain ⟨d₁, hd₁, hc⟩ := h i d hd
  obtain ⟨d₂, hd₂, hc'⟩ := h' i d₁ hd₁
  exact ⟨d₂, hd₂, hc.trans hc'⟩

theorem continues_of_wiring_eq (h : r'.wiring = r.wiring) : r.Continues r' := by
  intro i d hd
  have hi := congrArg (·[i]?) (devices_eq_of_wiring_eq h)
  simp only [List.getElem?_map, hd, Option.map_some] at hi
  obtain ⟨d', hd', heq⟩ := Option.map_eq_some_iff.1 hi
  exact ⟨d', hd', Device.continues_of_wiring_eq heq⟩

theorem continues_create {kind : Kind} {id : NameId} {parameter : Text}
    (hc : r.create kind id parameter = .ok r') : r.Continues r' := by
  obtain ⟨-, d, -, rfl⟩ := create_eq_ok_iff.1 hc
  intro i d₁ hd₁
  obtain ⟨hlt, -⟩ := List.getElem?_eq_some_iff.1 hd₁
  exact ⟨d₁, (List.getElem?_append_left hlt).trans hd₁, .refl d₁⟩

/-- Only an input without a source gets one. -/
theorem continues_connect (h : r.WellFormed) (source : NameId) (sourcePin : OutputPin)
    (target pin : NameId) : r.Continues (r.connect source sourcePin target pin).2 := by
  rcases h.connect_cases source sourcePin target pin with heq | ⟨d, hd, hid, hfree, -, heq⟩
  · rw [heq]
    exact .refl r
  rw [heq]
  intro i d₁ hd₁
  refine ⟨_, by rw [List.getElem?_map, hd₁]; rfl, ?_⟩
  show d₁.Continues (if d₁.id = target then _ else d₁)
  split
  · next hid₁ =>
    obtain rfl := h.eq_of_id_eq (List.mem_of_getElem? hd₁) hd (hid₁.trans hid.symm)
    have hkey : pin ∈ d₁.inputs.keys := List.mem_map.2 ⟨_, PinMap.mem_of_get? hfree, rfl⟩
    refine ⟨rfl, rfl, rfl, (h.devices d₁ hd).inputs.keys_put hkey, rfl, fun pin' s hs => ?_⟩
    have hne : ¬ (pin' == pin) = true := by
      intro hpin
      rw [eq_of_beq hpin, hfree] at hs
      cases hs
    show (d₁.inputs.put pin _).get? pin' = some (some s)
    rwa [PinMap.get?_put, if_neg hne]
  · exact .refl d₁

/-- An output that exists does not go away. -/
theorem Continues.exists_output (h : r.Continues r') {id : NameId} {pin : OutputPin}
    (hout : ∃ d ∈ r.devices, d.id = id ∧ pin ∈ d.outputs.keys) :
    ∃ d' ∈ r'.devices, d'.id = id ∧ pin ∈ d'.outputs.keys := by
  obtain ⟨d, hd, hid, hpin⟩ := hout
  obtain ⟨i, hi⟩ := List.getElem?_of_mem hd
  obtain ⟨d', hd', hc⟩ := h i d hi
  exact ⟨d', List.mem_of_getElem? hd', hc.id.trans hid, hc.outputs ▸ hpin⟩

end Registry

/-! ### What an operation does -/

namespace Monitors

/-- Everything that is monitored exists. -/
def Exist (r : Registry) (ms : Monitors) : Prop :=
  ∀ m ∈ ms, ∃ d ∈ r.devices, d.id = m.device ∧ m.pin ∈ d.outputs.keys

variable {r r' : Registry} {ms ms' : Monitors}

theorem Exist.of_continues (h : ms.Exist r) (hr : r.Continues r') : ms.Exist r' :=
  fun m hm => hr.exists_output (h m hm)

/-- Recording and resetting leave the monitors on their outputs. -/
theorem Exist.of_outputs (h : ms.Exist r) (hms : ∀ m' ∈ ms', ∃ m ∈ ms, m.device = m'.device ∧
    m.pin = m'.pin) : ms'.Exist r := by
  intro m' hm'
  obtain ⟨m, hm, hdevice, hpin⟩ := hms m' hm'
  obtain ⟨d, hd, hid, hkey⟩ := h m hm
  exact ⟨d, hd, hid.trans hdevice, hpin ▸ hkey⟩

theorem record_outputs (r : Registry) (ms : Monitors) :
    ∀ m' ∈ (record r ms).2, ∃ m ∈ ms, m.device = m'.device ∧ m.pin = m'.pin := by
  induction ms with
  | nil => exact fun m' hm' => absurd hm' List.not_mem_nil
  | cons m ms ih =>
    intro m' hm'
    unfold record at hm'
    split at hm'
    · exact ⟨m', hm', rfl, rfl⟩
    · rcases List.mem_cons.1 hm' with rfl | hm'
      · exact ⟨m, List.mem_cons_self .., rfl, rfl⟩
      · obtain ⟨m₁, hm₁, heq⟩ := ih m' hm'
        exact ⟨m₁, List.mem_cons_of_mem _ hm₁, heq⟩

theorem Exist.insert (h : ms.Exist r) (hw : r.WellFormed) (device : NameId) (pin : OutputPin) :
    (Monitors.insert r ms device pin).2.Exist r := by
  unfold Monitors.insert
  split
  · exact h
  split
  · exact h
  next hout =>
  split
  · exact h
  · intro m hm
    rcases List.mem_append.1 hm with hm | hm
    · exact h m hm
    · rw [List.mem_singleton.1 hm]
      exact hw.isOutput_iff.1 (by simpa using hout)

theorem Exist.erase (h : ms.Exist r) (device : NameId) (pin : OutputPin) :
    (ms.erase device pin).2.Exist r := by
  unfold Monitors.erase
  split
  · exact fun m hm => h m (List.mem_of_mem_eraseP hm)
  · exact h

end Monitors

namespace Session
variable {s s' : Session}

/-- What an operation without damage leaves of the devices, and of the names. -/
structure Continues (s s' : Session) : Prop where
  names : ∃ ts, s'.names = s.names.insertAll ts
  pins : s'.circuit.devices.pins = s.circuit.devices.pins
  devices : s.circuit.devices.Continues s'.circuit.devices
  inRange : s.circuit.devices.InRange → s'.circuit.devices.InRange
  monitors : s.circuit.monitors.Exist s.circuit.devices →
    s'.circuit.monitors.Exist s'.circuit.devices

theorem Continues.of_circuit {c : Circuit} (hp : c.devices.pins = s.circuit.devices.pins)
    (hd : s.circuit.devices.Continues c.devices)
    (hr : s.circuit.devices.InRange → c.devices.InRange) (hm : c.monitors = s.circuit.monitors) :
    s.Continues { s with circuit := c } :=
  ⟨⟨[], rfl⟩, hp, hd, hr, fun h => hm ▸ h.of_continues hd⟩

theorem Continues.of_monitors {ms : Monitors}
    (hm : s.circuit.monitors.Exist s.circuit.devices → ms.Exist s.circuit.devices) :
    s.Continues { s with circuit := { s.circuit with monitors := ms } } :=
  ⟨⟨[], rfl⟩, rfl, .refl _, fun h => h, hm⟩

theorem Continues.refl (s : Session) : s.Continues s :=
  ⟨⟨[], rfl⟩, rfl, .refl _, fun h => h, fun h => h⟩

theorem continues_create (s : Session) (kind : Kind) (id : NameId) (parameter : Text) :
    s.Continues (s.perform (.create kind id parameter)).2 := by
  rw [perform_create, Circuit.create]
  split
  · next r hc =>
    refine .of_circuit ?_ (Registry.continues_create hc) (fun h => h.create hc) rfl
    obtain ⟨-, d, -, rfl⟩ := Registry.create_eq_ok_iff.1 hc
    rfl
  · exact .refl s

theorem continues_connect (hw : s.circuit.devices.WellFormed) (source : NameId)
    (sourcePin : OutputPin) (target pin : NameId) :
    s.Continues (s.perform (.connect source sourcePin target pin)).2 := by
  refine .of_circuit ?_ (Registry.continues_connect hw source sourcePin target pin)
    (fun h => h.connect hw source sourcePin target pin) rfl
  rcases hw.connect_cases source sourcePin target pin with heq | ⟨d, -, -, -, -, heq⟩
  · exact congrArg Registry.pins heq
  · exact congrArg (·.2.pins) heq

theorem continues_of_wiring_eq {c : Circuit} (hw : c.devices.wiring = s.circuit.devices.wiring)
    (hr : s.circuit.devices.InRange → c.devices.InRange) (hm : c.monitors = s.circuit.monitors) :
    s.Continues { s with circuit := c } :=
  .of_circuit (Registry.pins_eq_of_wiring_eq hw) (Registry.continues_of_wiring_eq hw) hr hm

theorem continues_setSwitch (hw : s.circuit.devices.WellFormed) (id : NameId) (v : Signal) :
    s.Continues (s.perform (.setSwitch id v)).2 := by
  show s.Continues { s with circuit := (s.circuit.setSwitch id v).2 }
  unfold Circuit.setSwitch
  split
  · next hs => exact continues_of_wiring_eq (hw.wiring_setSwitch hs) (fun h => h.setSwitch hw hs) rfl
  · exact .refl s

theorem continues_cycle (hs : s.circuit.Sound) : s.Continues (s.perform .cycle).2 := by
  obtain ⟨hw, hl⟩ := hs
  rcases hc : s.circuit.cycle with ⟨_ | passes, c⟩
  · rw [perform_cycle_of_error (Circuit.cycle_error hc ▸ hc)]
    exact .refl s
  · have hcycle := Circuit.cycle_eq_ok hc
    rw [perform_cycle_of_ok hc]
    refine continues_of_wiring_eq (Registry.consistent_cycle hw hl hcycle).1
      (fun h => h.cycle hw hl hcycle) ?_
    unfold Circuit.cycle at hc
    split at hc <;> cases hc
    rfl

theorem continues_record (s : Session) : s.Continues (s.perform .record).2 := by
  have hrecord : (s.perform .record).2 = { s with circuit := (s.circuit.record).2 } := by
    rw [perform]
    split <;> next heq => rw [heq]
  rw [hrecord]
  exact .of_monitors fun h => h.of_outputs (Monitors.record_outputs _ _)

theorem continues_perform (hs : s.circuit.Sound) {op : Operation} (hop : op.isDamage = false) :
    s.Continues (s.perform op).2 := by
  cases op with
  | intern t => exact ⟨⟨[t], rfl⟩, rfl, .refl _, fun h => h, fun h => h⟩
  | create kind id parameter => exact continues_create s kind id parameter
  | connect source sourcePin target pin =>
    exact continues_connect hs.wellFormed source sourcePin target pin
  | setSwitch id v => exact continues_setSwitch hs.wellFormed id v
  | coldStart =>
    exact continues_of_wiring_eq hs.wellFormed.wiring_coldStart (fun h => h.coldStart) rfl
  | cycle => exact continues_cycle hs
  | record => exact continues_record s
  | monitor device pin => exact .of_monitors fun h => h.insert hs.wellFormed device pin
  | unmonitor device pin => exact .of_monitors fun h => h.erase device pin
  | resetMonitors =>
    refine .of_monitors fun h => h.of_outputs fun m' hm' => ?_
    obtain ⟨m, hm, rfl⟩ := List.mem_map.1 hm'
    exact ⟨m, hm, rfl, rfl⟩
  | eraseInput | eraseOutput | setKind => cases hop

/-! ### The invariant -/

/-- What each operation keeps, besides soundness. -/
structure Intact (s : Session) : Prop where
  sound : s.circuit.Sound
  knowsPins : s.names.KnowsPins
  pins : s.circuit.devices.pins = .ofNames s.names
  inRange : s.circuit.devices.InRange
  monitors : s.circuit.monitors.Exist s.circuit.devices

theorem names_start (names : NameTable) : (start names).names = names.insertPins := by
  simp only [start]

theorem circuit_start (names : NameTable) : (start names).circuit = .empty names.insertPins := by
  simp only [start]

theorem intact_start (names : NameTable) : (start names).Intact := by
  refine ⟨sound_start names, ?_, ?_, ?_, ?_⟩
  · rw [names_start]
    exact NameTable.knowsPins_insertPins
  · rw [circuit_start, names_start, Circuit.empty]
  · rw [circuit_start]
    exact fun d hd => absurd hd List.not_mem_nil
  · rw [circuit_start]
    exact fun m hm => absurd hm List.not_mem_nil

theorem Intact.perform (h : s.Intact) {op : Operation} (hop : op.isDamage = false) :
    (s.perform op).2.Intact := by
  obtain ⟨⟨ts, hnames⟩, hpins, -, hrange, hmonitors⟩ := continues_perform h.sound hop
  refine ⟨sound_perform h.sound hop, ?_, ?_, hrange h.inRange, hmonitors h.monitors⟩
  · rw [hnames]
    exact h.knowsPins.insertAll ts
  · rw [hpins, h.pins, hnames, Pins.ofNames_insertAll h.knowsPins]

theorem Intact.run (h : s.Intact) {ops : List Operation}
    (hops : ∀ op ∈ ops, op.isDamage = false) :
    (s.run ops).2.Intact ∧ s.circuit.devices.Continues (s.run ops).2.circuit.devices := by
  induction ops generalizing s with
  | nil => exact ⟨h, .refl _⟩
  | cons op ops ih =>
    obtain ⟨hop, hops⟩ := List.forall_mem_cons.1 hops
    obtain ⟨hintact, hcontinues⟩ := ih (h.perform hop) hops
    exact ⟨hintact, (continues_perform h.sound hop).devices.trans hcontinues⟩

theorem Reachable.intact (h : s.Reachable) : s.Intact := by
  obtain ⟨names, ops, hops, rfl⟩ := h
  exact ((intact_start names).run hops).1

end Session

/-- A device has a hidden state of its kind, in range, and exactly the pins of its kind. -/
structure Device.Valid (names : NameTable) (d : Device) : Prop where
  kind : d.state.fits d.kind = true
  range : d.state.InRange
  inputs : d.inputs.keys.Perm (d.state.inputWords.map names.idOf)
  outputs : d.outputs.keys.Perm (d.state.outputWords.map (·.map names.idOf))

theorem Device.WellFormed.valid {names : NameTable} {d : Device} (h : names.KnowsPins)
    (hd : d.WellFormed (.ofNames names)) (hr : d.state.InRange) : d.Valid names := by
  have hpins := Pins.distinct_ofNames h
  refine ⟨hd.fits, hr, ?_, ?_⟩
  · rw [← State.inputPins_ofNames]
    exact (List.perm_ext_iff_of_nodup hd.inputs.nodup_keys (State.nodup_inputPins hpins _)).2
      hd.mem_inputs
  · rw [← State.outputPins_ofNames]
    exact (List.perm_ext_iff_of_nodup hd.outputs.nodup_keys (State.nodup_outputPins hpins _)).2
      hd.mem_outputs

namespace Session

structure Valid (s : Session) : Prop where
  ids : s.circuit.devices.ids.Nodup
  index : ∀ id i, s.circuit.devices.places.lookup id = some i ↔
    s.circuit.devices.ids[i]? = some id
  pinWords : ∀ t ∈ PinWord.inputs ++ PinWord.outputs, t ∈ s.names.texts
  devices : ∀ d ∈ s.circuit.devices.devices, d.Valid s.names
  sources : ∀ d ∈ s.circuit.devices.devices, ∀ pin source, d.inputs.get? pin = some (some source) →
    ∃ d' ∈ s.circuit.devices.devices, d'.id = source.device ∧ source.pin ∈ d'.outputs.keys
  monitors : ∀ m ∈ s.circuit.monitors,
    ∃ d ∈ s.circuit.devices.devices, d.id = m.device ∧ m.pin ∈ d.outputs.keys

theorem Intact.valid {s : Session} (h : s.Intact) : s.Valid where
  ids := h.sound.wellFormed.nodup_ids
  index := h.sound.wellFormed.places
  pinWords := h.knowsPins
  devices := fun d hd =>
    Device.WellFormed.valid h.knowsPins (h.pins ▸ h.sound.wellFormed.devices d hd) (h.inRange d hd)
  sources := h.sound.wellFormed.sources
  monitors := h.monitors

/-- Circuits that arise without damage are valid, and so are circuits that are built, whether or not
there are errors. Their devices stay where and what they are, whatever is done later, and inputs
keep the source that they got first. -/
theorem valid_continues :
    (∀ s : Session, s.Reachable → s.Valid ∧ ∀ ops, (∀ op ∈ ops, op.isDamage = false) →
      s.circuit.devices.Continues (s.run ops).2.circuit.devices) ∧
    ∀ (d : Definition) (names : NameTable), ∃ built, d.build names = .ok built ∧
      Valid ⟨built.names, built.circuit⟩ ∧ ∀ ops, (∀ op ∈ ops, op.isDamage = false) →
        built.circuit.devices.Continues
          (run ⟨built.names, built.circuit⟩ ops).2.circuit.devices := by
  have hreachable : ∀ s : Session, s.Reachable → s.Valid ∧
      ∀ ops, (∀ op ∈ ops, op.isDamage = false) →
        s.circuit.devices.Continues (s.run ops).2.circuit.devices :=
    fun s hs => ⟨hs.intact.valid, fun ops hops => (hs.intact.run hops).2⟩
  refine ⟨hreachable, fun d names => ?_⟩
  obtain ⟨draft, ds, -, hbuild⟩ := d.build_eq names
  exact ⟨_, hbuild, hreachable _ (reachable_of_build hbuild)⟩

theorem valid_continues_lateRing :
    let s := ((start {}).run lateRing).2
    let ops := [.cycle, .connect lateRing.data none lateRing.gate Pin.i2,
      .setSwitch lateRing.data false, .cycle]
    s.Valid ∧ s.circuit.devices.Continues (s.run ops).2.circuit.devices := by
  intro s ops
  have hs : s.Reachable := ⟨_, _, by decide, rfl⟩
  obtain ⟨hvalid, hcontinues⟩ := valid_continues.1 s hs
  exact ⟨hvalid, hcontinues _ (by decide)⟩

end Session

end GateSim
