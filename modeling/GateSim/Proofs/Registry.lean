import GateSim.Registry
import GateSim.Proofs.PinMap
import GateSim.Proofs.Pins

/-!
# Well-formed registries

`Registry.WellFormed`: the index and the devices agree, each device has the state and exactly the
pins of its kind, and connected inputs lead to outputs that exist. None of this looks at values, so
it is a matter of the registry's `wiring`, which only making and connecting devices change.

`Registry.Latched` is about values: the outputs of each flip-flop show its latched bit.
-/

namespace GateSim

namespace State

def fits : State → Kind → Bool
  | .switch _ _, .switch | .clock _ _, .clock | .xor, .xor | .dtype _ _, .dtype | .rc _ _, .rc
  | .siggen _ _, .siggen => true
  | .gate _, kind => kind.isCountedGate
  | _, _ => false

def outputPins (pins : Pins) (s : State) : List OutputPin := (s.startOutputs pins).map (·.1)

@[simp] theorem reset_reset (s : State) : s.reset.reset = s.reset := by cases s <;> rfl

@[simp] theorem fits_reset (s : State) (kind : Kind) : s.reset.fits kind = s.fits kind := by
  cases s <;> cases kind <;> rfl

@[simp] theorem inputPins_reset (s : State) (pins : Pins) :
    s.reset.inputPins pins = s.inputPins pins := by
  cases s <;> rfl

@[simp] theorem startOutputs_reset (s : State) (pins : Pins) :
    s.reset.startOutputs pins = s.startOutputs pins := by
  cases s <;> rfl

@[simp] theorem outputPins_reset (s : State) (pins : Pins) :
    s.reset.outputPins pins = s.outputPins pins := by
  rw [outputPins, startOutputs_reset]; rfl

theorem nodup_inputPins {pins : Pins} (h : pins.Distinct) (s : State) :
    (s.inputPins pins).Nodup := by
  cases s with
  | gate n => exact h.gateInputs.sublist (List.take_sublist _ _)
  | xor => exact h.gateInputs.sublist (List.take_sublist _ _)
  | dtype => exact h.flipFlopInputs
  | _ => exact List.nodup_nil

/-- A parameter that is accepted gives a starting state of the kind. -/
theorem fits_of_ofParameter {kind : Kind} {t : Text} {s : State}
    (h : ofParameter kind t = .ok s) : s.fits kind = true ∧ s.reset = s := by
  cases kind <;> simp only [ofParameter, bind, Except.bind, pure, Except.pure] at h <;>
    (repeat' split at h) <;> cases h <;> exact ⟨rfl, rfl⟩

end State

/-! ### Devices -/

namespace Device

/-- The device without values: its outputs are LOW and its state is the one it started in. -/
def wiring (d : Device) : Device :=
  { d with outputs := d.outputs.map fun e => (e.1, false), state := d.state.reset }

/-- A device has the state and exactly the pins of its kind. -/
structure WellFormed (pins : Pins) (d : Device) : Prop where
  fits : d.state.fits d.kind = true
  inputs : d.inputs.Ascending
  outputs : d.outputs.Ascending
  mem_inputs : ∀ pin, pin ∈ d.inputs.keys ↔ pin ∈ d.state.inputPins pins
  mem_outputs : ∀ pin, pin ∈ d.outputs.keys ↔ pin ∈ d.state.outputPins pins

/-- The outputs of a flip-flop show its latched bit. -/
def Latched (pins : Pins) (d : Device) : Prop :=
  ∀ q lastClk, d.state = .dtype q lastClk →
    d.outputs.get? (some pins.q) = some q ∧ d.outputs.get? (some pins.qbar) = some (!q)

section
variable {pins : Pins} {d d' : Device}

theorem keys_wiring (d : Device) : d.wiring.outputs.keys = d.outputs.keys := by
  simp [wiring, PinMap.keys, Function.comp_def]

theorem wellFormed_wiring : d.wiring.WellFormed pins ↔ d.WellFormed pins := by
  have hk := keys_wiring d
  constructor <;> rintro ⟨h1, h2, h3, h4, h5⟩
  · refine ⟨by simpa [wiring] using h1, h2, ?_, by simpa [wiring] using h4, ?_⟩
    · rwa [PinMap.Ascending, hk] at h3
    · rw [hk] at h5; simpa [wiring] using h5
  · refine ⟨by simpa [wiring] using h1, h2, ?_, by simpa [wiring] using h4, ?_⟩
    · rwa [PinMap.Ascending, hk]
    · rw [hk]; simpa [wiring] using h5

theorem map_false_eq_iff {m m' : PinMap OutputPin Signal} :
    (m'.map fun e => (e.1, false)) = (m.map fun e => (e.1, false)) ↔ m'.keys = m.keys := by
  refine ⟨fun h => ?_, fun h => ?_⟩
  · simpa [PinMap.keys, Function.comp_def] using congrArg (List.map (·.1)) h
  · simpa [PinMap.keys, Function.comp_def] using congrArg (List.map (·, false)) h

theorem wiring_eq_iff : d'.wiring = d.wiring ↔
    d'.id = d.id ∧ d'.kind = d.kind ∧ d'.inputs = d.inputs ∧
      d'.outputs.keys = d.outputs.keys ∧ d'.state.reset = d.state.reset := by
  rw [wiring, wiring, Device.mk.injEq, map_false_eq_iff]

theorem WellFormed.putInput (h : d.WellFormed pins) {pin : NameId} (hp : pin ∈ d.inputs.keys)
    (s : Option Source) : WellFormed pins { d with inputs := d.inputs.put pin s } :=
  ⟨h.fits, h.inputs.put pin s, h.outputs,
    fun k => by
      rw [show PinMap.keys _ = d.inputs.keys from h.inputs.keys_put hp]
      exact h.mem_inputs k,
    h.mem_outputs⟩

@[simp] theorem wiring_putOutput (h : d.WellFormed pins) {pin : OutputPin}
    (hp : pin ∈ d.state.outputPins pins) (v : Signal) :
    (d.putOutput pin v).wiring = d.wiring :=
  wiring_eq_iff.2
    ⟨rfl, rfl, rfl, h.outputs.keys_put ((h.mem_outputs pin).2 hp), rfl⟩

theorem keys_putAll_outputs (h : d.outputs.Ascending) {entries : List (OutputPin × Signal)}
    (he : ∀ e ∈ entries, e.1 ∈ d.outputs.keys) :
    (PinMap.putAll entries d.outputs).keys = d.outputs.keys := by
  unfold PinMap.putAll
  generalize d.outputs = m at h he
  induction entries generalizing m with
  | nil => rfl
  | cons e es ih =>
    have hk := h.keys_put (a := e.2) (he e (List.mem_cons_self ..))
    rw [List.foldl_cons, ih _ (h.put e.1 e.2) fun e' he' => ?_, hk]
    rw [hk]
    exact he e' (List.mem_cons_of_mem _ he')

/-- A reset leaves the state and the outputs of a new device. -/
theorem reset_eq_start (pins : Pins) (d : Device) : d.reset pins =
    { d with
      state := d.state.reset
      outputs := PinMap.putAll (d.state.startOutputs pins) d.outputs } := by
  rw [reset, State.resetOutputs_eq]

theorem wiring_reset (h : d.WellFormed pins) : (d.reset pins).wiring = d.wiring := by
  rw [reset_eq_start]
  refine wiring_eq_iff.2 ⟨rfl, rfl, rfl, ?_, d.state.reset_reset⟩
  refine keys_putAll_outputs h.outputs fun e he => (h.mem_outputs e.1).2 ?_
  exact List.mem_map.2 ⟨e, he, rfl⟩

theorem wiring_advance (h : d.WellFormed pins) : d.advance.wiring = d.wiring := by
  have hput (s : State) (hs : d.state = s) (hp : none ∈ s.outputPins pins) (v : Signal) :
      (d.outputs.put none v).keys = d.outputs.keys :=
    h.outputs.keys_put ((h.mem_outputs none).2 (hs ▸ hp))
  cases hs : d.state with
  | clock half counter =>
    simp only [advance, hs]
    split
    · exact wiring_eq_iff.2
        ⟨rfl, rfl, rfl, hput _ hs (by simp [State.outputPins, State.startOutputs]) _, by rw [hs]; rfl⟩
    · exact wiring_eq_iff.2 ⟨rfl, rfl, rfl, rfl, by rw [hs]; rfl⟩
  | rc period countdown =>
    cases countdown <;> simp only [advance, hs] <;> exact wiring_eq_iff.2
      ⟨rfl, rfl, rfl, hput _ hs (by simp [State.outputPins, State.startOutputs]) _, by
        simp [putOutput, hs, State.reset]⟩
  | switch _ _ | siggen _ _ =>
    simp only [advance, hs]
    exact wiring_eq_iff.2
      ⟨rfl, rfl, rfl, hput _ hs (by simp [State.outputPins, State.startOutputs]) _, by
        simp [putOutput, hs, State.reset]⟩
  | gate _ | xor | dtype _ _ => simp only [advance, hs]

theorem advance_of_dtype {q lastClk : Signal} (hs : d.state = .dtype q lastClk) :
    d.advance = d := by
  simp [advance, hs]

theorem advance_state_eq_dtype {q lastClk : Signal} (h : d.advance.state = .dtype q lastClk) :
    d.state = .dtype q lastClk := by
  revert h
  cases hs : d.state with
  | rc _ countdown => cases countdown <;> simp [advance, hs, putOutput]
  | clock _ _ => simp only [advance, hs]; split <;> simp
  | _ => simp [advance, hs, putOutput]

theorem Latched.advance (h : d.Latched pins) : d.advance.Latched pins := by
  intro q lastClk hs
  have hd := advance_state_eq_dtype hs
  rw [advance_of_dtype hd]
  exact h q lastClk hd

/-- The outputs that a flip-flop starts with show its first latched bit. -/
theorem latched_startOutputs (h : pins.Distinct) {s : State} {m : PinMap OutputPin Signal}
    {q lastClk : Signal} (hs : s.reset = .dtype q lastClk) :
    (PinMap.putAll (s.startOutputs pins) m).get? (some pins.q) = some q ∧
      (PinMap.putAll (s.startOutputs pins) m).get? (some pins.qbar) = some (!q) := by
  cases s <;> simp only [State.reset, reduceCtorEq, State.dtype.injEq] at hs
  obtain ⟨rfl, rfl⟩ := hs
  have hne : (pins.q == pins.qbar) = false := beq_eq_false_iff_ne.2 h.outputs
  simp [State.startOutputs, PinMap.get?_putAll, List.lookup_cons, hne]

theorem latched_reset (h : pins.Distinct) (d : Device) : (d.reset pins).Latched pins := by
  rw [reset_eq_start]
  intro q lastClk hs
  exact latched_startOutputs h hs

section make
variable {kind : Kind} {id : NameId} {parameter : Text}

theorem make_eq_ok_iff : make pins kind id parameter = .ok d ↔
    ∃ s, State.ofParameter kind parameter = .ok s ∧
      d = { id, kind, state := s
            inputs := PinMap.putAll ((s.inputPins pins).map (·, none)) []
            outputs := PinMap.putAll (s.startOutputs pins) [] } := by
  unfold make
  cases State.ofParameter kind parameter with
  | error f => simp [bind, Except.bind]
  | ok s => simp [bind, Except.bind, pure, Except.pure, eq_comm]

theorem id_make (h : make pins kind id parameter = .ok d) : d.id = id := by
  obtain ⟨s, -, rfl⟩ := make_eq_ok_iff.1 h
  rfl

theorem wellFormed_make (h : make pins kind id parameter = .ok d) : d.WellFormed pins := by
  obtain ⟨s, hs, rfl⟩ := make_eq_ok_iff.1 h
  refine ⟨(State.fits_of_ofParameter hs).1, .putAll .nil _, .putAll .nil _, fun pin => ?_,
    fun pin => ?_⟩
  · rw [PinMap.mem_keys_putAll]; simp
  · rw [PinMap.mem_keys_putAll]; simp [State.outputPins]

theorem latched_make (hp : pins.Distinct) (h : make pins kind id parameter = .ok d) :
    d.Latched pins := by
  obtain ⟨s, hs, rfl⟩ := make_eq_ok_iff.1 h
  intro q lastClk hq
  exact latched_startOutputs hp ((State.fits_of_ofParameter hs).2.trans hq)

theorem get?_inputs_make (h : make pins kind id parameter = .ok d) {pin : NameId}
    {s : Option Source} (hs : d.inputs.get? pin = some s) : s = none := by
  obtain ⟨st, -, rfl⟩ := make_eq_ok_iff.1 h
  rw [PinMap.get?_putAll, PinMap.get?_nil, Option.or_none] at hs
  have hm := PinMap.mem_of_get? (m := ((st.inputPins pins).map (·, none)).reverse) hs
  simp only [List.mem_reverse, List.mem_map, Prod.mk.injEq] at hm
  obtain ⟨_, _, _, rfl⟩ := hm
  rfl

end make

end

end Device

/-! ### Registries -/

namespace Registry

/-- The devices without values: what making and connecting devices settles. -/
def wiring (r : Registry) : Registry := { r with devices := r.devices.map Device.wiring }

/-- The index and the devices agree in both directions, each device has the state and exactly the
pins of its kind, and connected inputs lead to outputs that exist. -/
structure WellFormed (r : Registry) : Prop where
  pins : r.pins.Distinct
  places : ∀ id i, r.places.lookup id = some i ↔ r.ids[i]? = some id
  devices : ∀ d ∈ r.devices, d.WellFormed r.pins
  sources : ∀ d ∈ r.devices, ∀ pin s, d.inputs.get? pin = some (some s) →
    ∃ d' ∈ r.devices, d'.id = s.device ∧ s.pin ∈ d'.outputs.keys

def Latched (r : Registry) : Prop := ∀ d ∈ r.devices, d.Latched r.pins

section lookup
variable {r : Registry} {id : NameId} {d : Device}

theorem WellFormed.device?_eq_some_iff (h : r.WellFormed) :
    r.device? id = some d ↔ d ∈ r.devices ∧ d.id = id := by
  rw [device?, Option.bind_eq_some_iff]
  constructor
  · rintro ⟨i, hi, hd⟩
    refine ⟨List.mem_of_getElem? hd, ?_⟩
    have hid := (h.places id i).1 hi
    rw [ids, List.getElem?_map, hd] at hid
    exact Option.some.inj hid
  · rintro ⟨hd, rfl⟩
    obtain ⟨i, hi⟩ := List.getElem?_of_mem hd
    exact ⟨i, (h.places d.id i).2 (by rw [ids, List.getElem?_map, hi]; rfl), hi⟩

theorem WellFormed.device?_of_mem (h : r.WellFormed) (hd : d ∈ r.devices) :
    r.device? d.id = some d :=
  h.device?_eq_some_iff.2 ⟨hd, rfl⟩

theorem WellFormed.eq_of_id_eq (h : r.WellFormed) {d' : Device} (hd : d ∈ r.devices)
    (hd' : d' ∈ r.devices) (hid : d.id = d'.id) : d = d' := by
  have := h.device?_of_mem hd
  rw [hid, h.device?_of_mem hd'] at this
  exact (Option.some.inj this).symm

theorem WellFormed.nodup_ids (h : r.WellFormed) : r.ids.Nodup := by
  refine List.pairwise_iff_getElem.2 fun i j hi hj hij heq => ?_
  have h1 := (h.places r.ids[j] i).2 (by rw [List.getElem?_eq_getElem hi, heq])
  rw [(h.places r.ids[j] j).2 (List.getElem?_eq_getElem hj)] at h1
  exact Nat.lt_irrefl _ (Option.some.inj h1 ▸ hij)

theorem WellFormed.has_iff (h : r.WellFormed) : r.has id = true ↔ id ∈ r.ids := by
  rw [has, Option.isSome_iff_exists, List.mem_iff_getElem?]
  exact exists_congr fun i => h.places id i

theorem WellFormed.device?_eq_none (h : r.WellFormed) (hid : id ∉ r.ids) : r.device? id = none := by
  refine Option.eq_none_iff_forall_ne_some.2 fun d hd => hid ?_
  obtain ⟨hmem, rfl⟩ := h.device?_eq_some_iff.1 hd
  exact List.mem_map_of_mem hmem

theorem WellFormed.exists_device?_of_has (h : r.WellFormed) (hid : r.has id = true) :
    ∃ d, r.device? id = some d := by
  obtain ⟨d, hd, rfl⟩ := List.mem_map.1 (h.has_iff.1 hid)
  exact ⟨d, h.device?_of_mem hd⟩

theorem WellFormed.isOutput_iff (h : r.WellFormed) {pin : OutputPin} :
    r.isOutput id pin = true ↔ ∃ d ∈ r.devices, d.id = id ∧ pin ∈ d.outputs.keys := by
  rw [isOutput, Option.any_eq_true]
  simp only [h.device?_eq_some_iff, PinMap.contains_iff, and_assoc]

theorem WellFormed.isInput_iff (h : r.WellFormed) {pin : NameId} :
    r.isInput id pin = true ↔ ∃ d ∈ r.devices, d.id = id ∧ pin ∈ d.inputs.keys := by
  rw [isInput, Option.any_eq_true]
  simp only [h.device?_eq_some_iff, PinMap.contains_iff, and_assoc]

theorem WellFormed.exists_of_isInput (h : r.WellFormed) {pin : NameId}
    (hp : r.isInput id pin = true) :
    ∃ d, r.device? id = some d ∧
      (d.inputs.get? pin = some none ∨ ∃ s, d.inputs.get? pin = some (some s)) := by
  obtain ⟨d, hd, rfl, hpin⟩ := h.isInput_iff.1 hp
  refine ⟨d, h.device?_of_mem hd, ?_⟩
  cases hs : d.inputs.get? pin with
  | none => exact absurd hpin (PinMap.get?_eq_none_iff.1 hs)
  | some s =>
    cases s with
    | none => exact Or.inl rfl
    | some s => exact Or.inr ⟨s, rfl⟩

theorem WellFormed.output?_of_mem (h : r.WellFormed) (hd : d ∈ r.devices) (pin : OutputPin) :
    r.output? d.id pin = d.outputs.get? pin := by
  rw [output?, h.device?_of_mem hd]; rfl

theorem WellFormed.update_eq (h : r.WellFormed) (id : NameId) (f : Device → Device) :
    r.update id f = { r with devices := r.devices.map fun d => if d.id = id then f d else d } := by
  have hmem : ∀ (j : Nat) (d : Device), r.devices[j]? = some d → r.ids[j]? = some d.id := by
    intro j d hj
    rw [ids, List.getElem?_map, hj]
    rfl
  unfold update
  split
  · next i hi =>
    congr 1
    refine List.ext_getElem? fun j => ?_
    rw [List.getElem?_modify, List.getElem?_map]
    cases hj : r.devices[j]? with
    | none => simp
    | some d =>
      have hid := (h.places d.id j).2 (hmem j d hj)
      by_cases heq : d.id = id
      · have hij : i = j := by rw [heq, hi] at hid; exact Option.some.inj hid
        simp [heq, hij]
      · have hij : i ≠ j := by
          rintro rfl
          have := (h.places id i).1 hi
          rw [hmem i d hj] at this
          exact heq (Option.some.inj this)
        simp [heq, hij]
  · next hnone =>
    have hid : ∀ d ∈ r.devices, d.id ≠ id := fun d hd heq => by
      obtain ⟨j, hj⟩ := List.getElem?_of_mem hd
      rw [← heq, (h.places d.id j).2 (hmem j d hj)] at hnone
      cases hnone
    have hmap : (r.devices.map fun d => if d.id = id then f d else d) = r.devices :=
      (List.map_congr_left fun d hd => if_neg (hid d hd)).trans (List.map_id _)
    rw [hmap]

end lookup

/-! ### What keeps a registry well-formed -/

section wiring
variable {r r' : Registry}

theorem wiring_map {f : Device → Device} (h : ∀ d ∈ r.devices, (f d).wiring = d.wiring) :
    ({ r with devices := r.devices.map f } : Registry).wiring = r.wiring := by
  simp only [wiring, List.map_map]
  congr 1
  exact List.map_congr_left h

theorem pins_eq_of_wiring_eq (h : r'.wiring = r.wiring) : r'.pins = r.pins :=
  show r'.wiring.pins = r.wiring.pins by rw [h]

theorem places_eq_of_wiring_eq (h : r'.wiring = r.wiring) : r'.places = r.places :=
  show r'.wiring.places = r.wiring.places by rw [h]

theorem devices_eq_of_wiring_eq (h : r'.wiring = r.wiring) :
    r'.devices.map Device.wiring = r.devices.map Device.wiring :=
  show r'.wiring.devices = r.wiring.devices by rw [h]

theorem ids_eq_of_wiring_eq (h : r'.wiring = r.wiring) : r'.ids = r.ids := by
  have := congrArg (List.map Device.id) (devices_eq_of_wiring_eq h)
  rwa [List.map_map, List.map_map] at this

theorem size_eq_of_wiring_eq (h : r'.wiring = r.wiring) : r'.size = r.size := by
  have := congrArg List.length (devices_eq_of_wiring_eq h)
  rwa [List.length_map, List.length_map] at this

theorem exists_mem_of_wiring_eq (h : r'.wiring = r.wiring) {d' : Device} (hd : d' ∈ r'.devices) :
    ∃ d ∈ r.devices, d.wiring = d'.wiring := by
  have hm : d'.wiring ∈ r.devices.map Device.wiring := by
    rw [← devices_eq_of_wiring_eq h]; exact List.mem_map_of_mem hd
  exact List.mem_map.1 hm

theorem WellFormed.of_wiring_eq (hw : r.WellFormed) (h : r'.wiring = r.wiring) :
    r'.WellFormed := by
  have hpins := pins_eq_of_wiring_eq h
  refine ⟨hpins ▸ hw.pins, fun id i => ?_, fun d' hd' => ?_, fun d' hd' pin s hs => ?_⟩
  · rw [places_eq_of_wiring_eq h, ids_eq_of_wiring_eq h]
    exact hw.places id i
  · obtain ⟨d, hd, heq⟩ := exists_mem_of_wiring_eq h hd'
    rw [← Device.wellFormed_wiring, ← heq, Device.wellFormed_wiring, hpins]
    exact hw.devices d hd
  · obtain ⟨d, hd, heq⟩ := exists_mem_of_wiring_eq h hd'
    have hin := (Device.wiring_eq_iff.1 heq).2.2.1
    obtain ⟨d₁, hd₁, hid, hpin⟩ := hw.sources d hd pin s (hin ▸ hs)
    obtain ⟨d₂, hd₂, heq₂⟩ := exists_mem_of_wiring_eq h.symm hd₁
    obtain ⟨hid₂, -, -, hk, -⟩ := Device.wiring_eq_iff.1 heq₂
    exact ⟨d₂, hd₂, hid₂.trans hid, hk ▸ hpin⟩

end wiring

section
variable {r : Registry}

theorem WellFormed.empty {pins : Pins} (h : pins.Distinct) : WellFormed { pins } :=
  ⟨h, fun _ _ => by simp [ids], fun _ hd => absurd hd List.not_mem_nil,
    fun _ hd => absurd hd List.not_mem_nil⟩

theorem latched_empty (pins : Pins) : Latched { pins } :=
  fun _ hd => absurd hd List.not_mem_nil

theorem ids_map {f : Device → Device} (h : ∀ d ∈ r.devices, (f d).id = d.id) :
    ids { r with devices := r.devices.map f } = r.ids := by
  rw [ids, List.map_map]
  exact List.map_congr_left h

theorem create_eq_ok_iff {r' : Registry} {kind : Kind} {id : NameId} {parameter : Text} :
    r.create kind id parameter = .ok r' ↔ r.has id = false ∧
      ∃ d, Device.make r.pins kind id parameter = .ok d ∧
        r' = { r with devices := r.devices ++ [d], places := (id, r.size) :: r.places } := by
  unfold Registry.create
  split
  · next h => simp [h]
  · next h =>
    cases hm : Device.make r.pins kind id parameter <;> simp [eq_comm, Bool.eq_false_iff.2 h]

theorem mem_idsOf_iff {kind : Kind} {id : NameId} :
    id ∈ r.idsOf kind ↔ ∃ d ∈ r.devices, d.kind = kind ∧ d.id = id := by
  simp only [idsOf, List.mem_map, List.mem_filter, beq_iff_eq, and_assoc]

theorem length_ids (r : Registry) : r.ids.length = r.size := List.length_map _

theorem ids_create {r' : Registry} {kind : Kind} {id : NameId} {parameter : Text}
    (hc : r.create kind id parameter = .ok r') : r'.ids = r.ids ++ [id] := by
  obtain ⟨-, d, hmake, rfl⟩ := create_eq_ok_iff.1 hc
  rw [ids, ids, List.map_append, List.map_singleton, Device.id_make hmake]

theorem WellFormed.create {r' : Registry} {kind : Kind} {id : NameId} {parameter : Text}
    (h : r.WellFormed) (hc : r.create kind id parameter = .ok r') : r'.WellFormed := by
  have hids := ids_create hc
  obtain ⟨hnew, d, hmake, rfl⟩ := create_eq_ok_iff.1 hc
  have hfresh : id ∉ r.ids := fun hm => by simp [h.has_iff.2 hm] at hnew
  refine ⟨h.pins, fun id' i => ?_, fun d' hd' => ?_, fun d' hd' pin s hs => ?_⟩
  · have hlen := r.length_ids
    rw [hids, List.lookup_cons, List.getElem?_append]
    by_cases heq : id' = id
    · subst heq
      have hlt (hi : i < r.ids.length) : r.ids[i]? ≠ some id' := fun hm =>
        hfresh (List.mem_of_getElem? hm)
      grind
    · have hb : (id' == id) = false := beq_eq_false_iff_ne.2 heq
      have := h.places id' i
      grind
  · rcases List.mem_append.1 hd' with hd' | hd'
    · exact h.devices d' hd'
    · rw [List.mem_singleton.1 hd']; exact Device.wellFormed_make hmake
  · rcases List.mem_append.1 hd' with hd' | hd'
    · obtain ⟨d₁, hd₁, hsrc⟩ := h.sources d' hd' pin s hs
      exact ⟨d₁, List.mem_append_left _ hd₁, hsrc⟩
    · rw [List.mem_singleton.1 hd'] at hs
      cases Device.get?_inputs_make hmake hs

theorem latched_create {r' : Registry} {kind : Kind} {id : NameId} {parameter : Text}
    (h : r.WellFormed) (hl : r.Latched) (hc : r.create kind id parameter = .ok r') :
    r'.Latched := by
  obtain ⟨-, d, hmake, rfl⟩ := create_eq_ok_iff.1 hc
  intro d' hd'
  rcases List.mem_append.1 hd' with hd' | hd'
  · exact hl d' hd'
  · rw [List.mem_singleton.1 hd']; exact Device.latched_make h.pins hmake

theorem has_of_isOutput {id : NameId} {pin : OutputPin} (h : r.isOutput id pin = true) :
    r.has id = true := by
  unfold isOutput device? at h
  unfold has
  cases hp : r.places.lookup id <;> simp_all

/-- What connecting does: the one input, which floated, gets its source. -/
theorem WellFormed.connect_cases (h : r.WellFormed) (source : NameId) (sourcePin : OutputPin)
    (target pin : NameId) :
    (r.connect source sourcePin target pin).2 = r ∨
    ∃ d ∈ r.devices, d.id = target ∧ d.inputs.get? pin = some none ∧
      r.isOutput source sourcePin = true ∧
      r.connect source sourcePin target pin = (.ok, { r with devices := r.devices.map fun d =>
        if d.id = target then { d with inputs := d.inputs.put pin (some ⟨source, sourcePin⟩) }
        else d }) := by
  unfold Registry.connect
  split
  · exact Or.inl rfl
  next d hd =>
  split
  · exact Or.inl rfl
  split
  · exact Or.inl rfl
  next hout =>
  split
  · exact Or.inl rfl
  · exact Or.inl rfl
  next hpin =>
  obtain ⟨hmem, hid⟩ := h.device?_eq_some_iff.1 hd
  exact Or.inr ⟨d, hmem, hid, hpin, by simpa using hout, by rw [h.update_eq]⟩

theorem connect_of_taken {source target pin : NameId} {sourcePin : OutputPin} {d : Device}
    {s : Source} (hout : r.isOutput source sourcePin = true) (hd : r.device? target = some d)
    (hpin : d.inputs.get? pin = some (some s)) :
    r.connect source sourcePin target pin = (.inputConnected, r) := by
  simp [Registry.connect, hd, has_of_isOutput hout, hout, hpin]

theorem WellFormed.connect_of_free (h : r.WellFormed) {source target pin : NameId}
    {sourcePin : OutputPin} {d : Device} (hout : r.isOutput source sourcePin = true)
    (hd : r.device? target = some d) (hpin : d.inputs.get? pin = some none) :
    r.connect source sourcePin target pin = (.ok, { r with devices := r.devices.map fun d =>
      if d.id = target then { d with inputs := d.inputs.put pin (some ⟨source, sourcePin⟩) }
      else d }) := by
  simp only [Registry.connect, hd, has_of_isOutput hout, hout, hpin, h.update_eq]
  rfl

theorem WellFormed.connect (h : r.WellFormed) (source : NameId) (sourcePin : OutputPin)
    (target pin : NameId) : (r.connect source sourcePin target pin).2.WellFormed := by
  rcases h.connect_cases source sourcePin target pin with heq | ⟨d, hd, hid, hpin, hout, heq⟩
  · rwa [heq]
  rw [heq]
  have hp : pin ∈ d.inputs.keys := List.mem_map.2 ⟨_, PinMap.mem_of_get? hpin, rfl⟩
  refine ⟨h.pins, fun id i => ?_, fun d' hd' => ?_, fun d' hd' pin' s hs => ?_⟩
  · rw [h.places id i]
    refine iff_of_eq (congrArg (·[i]? = some id) (ids_map fun d' _ => ?_).symm)
    split <;> rfl
  · obtain ⟨d₁, hd₁, rfl⟩ := List.mem_map.1 hd'
    split
    · next hid₁ =>
      obtain rfl := h.eq_of_id_eq hd₁ hd (hid₁.trans hid.symm)
      exact (h.devices d₁ hd₁).putInput hp _
    · exact h.devices d₁ hd₁
  · have houtputs : ∀ s : Source, (∃ d' ∈ r.devices, d'.id = s.device ∧ s.pin ∈ d'.outputs.keys) →
        ∃ d' ∈ r.devices.map fun d => if d.id = target then
          { d with inputs := d.inputs.put pin (some ⟨source, sourcePin⟩) } else d,
          d'.id = s.device ∧ s.pin ∈ d'.outputs.keys := by
      rintro s ⟨d₂, hd₂, hid₂, hpin₂⟩
      refine ⟨_, List.mem_map_of_mem hd₂, ?_⟩
      split <;> exact ⟨hid₂, hpin₂⟩
    obtain ⟨d₁, hd₁, rfl⟩ := List.mem_map.1 hd'
    refine houtputs s ?_
    split at hs
    · rw [PinMap.get?_put] at hs
      split at hs
      · cases hs
        exact (h.isOutput_iff).1 hout
      · exact h.sources d₁ hd₁ pin' s hs
    · exact h.sources d₁ hd₁ pin' s hs

theorem WellFormed.ids_connect (h : r.WellFormed) (source : NameId) (sourcePin : OutputPin)
    (target pin : NameId) : (r.connect source sourcePin target pin).2.ids = r.ids := by
  rcases h.connect_cases source sourcePin target pin with heq | ⟨d, hd, hid, hpin, hout, heq⟩
  · rw [heq]
  · rw [heq]
    exact ids_map fun d' _ => by split <;> rfl

theorem latched_connect (h : r.WellFormed) (hl : r.Latched) (source : NameId)
    (sourcePin : OutputPin) (target pin : NameId) :
    (r.connect source sourcePin target pin).2.Latched := by
  rcases h.connect_cases source sourcePin target pin with heq | ⟨d, hd, hid, hpin, hout, heq⟩
  · rwa [heq]
  rw [heq]
  intro d' hd'
  obtain ⟨d₁, hd₁, rfl⟩ := List.mem_map.1 hd'
  split <;> exact hl d₁ hd₁

theorem WellFormed.setSwitch_eq_none (h : r.WellFormed) {id : NameId} (hid : id ∉ r.ids)
    (v : Signal) : r.setSwitch id v = none := by
  rw [setSwitch, h.device?_eq_none hid]
  rfl

theorem WellFormed.setSwitch_eq_some (h : r.WellFormed) {id : NameId} {v : Signal}
    {r' : Registry} (hs : r.setSwitch id v = some r') :
    ∃ initial, (∃ d ∈ r.devices, d.id = id ∧ ∃ setting, d.state = .switch initial setting) ∧
      r' = { r with devices := r.devices.map fun d =>
        if d.id = id then { d.putOutput none v with state := .switch initial v } else d } := by
  unfold setSwitch at hs
  split at hs
  · next initial setting hst =>
    obtain ⟨d, hd, hstate⟩ := Option.map_eq_some_iff.1 hst
    obtain ⟨hmem, hid⟩ := h.device?_eq_some_iff.1 hd
    refine ⟨initial, ⟨d, hmem, hid, setting, hstate⟩, ?_⟩
    rw [← Option.some.inj hs, h.update_eq]
  · cases hs

theorem WellFormed.wiring_setSwitch (h : r.WellFormed) {id : NameId} {v : Signal}
    {r' : Registry} (hs : r.setSwitch id v = some r') : r'.wiring = r.wiring := by
  obtain ⟨initial, ⟨d, hd, hid, setting, hst⟩, rfl⟩ := h.setSwitch_eq_some hs
  refine wiring_map fun d' hd' => ?_
  split
  · next hid' =>
    obtain rfl := h.eq_of_id_eq hd' hd (hid'.trans hid.symm)
    have hpin : none ∈ d'.state.outputPins r.pins := by
      simp [hst, State.outputPins, State.startOutputs]
    obtain ⟨h1, h2, h3, h4, -⟩ :=
      Device.wiring_eq_iff.1 (Device.wiring_putOutput (h.devices d' hd') hpin v)
    exact Device.wiring_eq_iff.2 ⟨h1, h2, h3, h4, by rw [hst]; rfl⟩
  · rfl

theorem WellFormed.latched_setSwitch (h : r.WellFormed) (hl : r.Latched) {id : NameId}
    {v : Signal} {r' : Registry} (hs : r.setSwitch id v = some r') : r'.Latched := by
  obtain ⟨initial, -, rfl⟩ := h.setSwitch_eq_some hs
  intro d' hd'
  obtain ⟨d₁, hd₁, rfl⟩ := List.mem_map.1 hd'
  split
  · intro q lastClk hq; cases hq
  · exact hl d₁ hd₁

theorem device?_coldStart (r : Registry) (id : NameId) :
    r.coldStart.device? id = (r.device? id).map (Device.reset r.pins) := by
  simp only [device?, coldStart, List.getElem?_map]
  cases r.places.lookup id <;> rfl

theorem source?_coldStart (r : Registry) (id pin : NameId) :
    r.coldStart.source? id pin = r.source? id pin := by
  rw [source?, device?_coldStart, source?]
  cases r.device? id <;> rfl

theorem WellFormed.wiring_coldStart (h : r.WellFormed) : r.coldStart.wiring = r.wiring :=
  wiring_map fun d hd => Device.wiring_reset (h.devices d hd)

theorem WellFormed.latched_coldStart (h : r.WellFormed) : r.coldStart.Latched := by
  intro d hd
  obtain ⟨d₁, -, rfl⟩ := List.mem_map.1 hd
  exact Device.latched_reset h.pins d₁

end

end Registry

end GateSim
