import Mathlib.Logic.Function.Basic
import GateSim.Network
import GateSim.Proofs.Registry

/-!
# Gates and their equations

A `Valuation` gives each gate a value, and `Registry.setGates` puts these values in. The equation of
a gate says that its value is `Registry.next`, its Boolean function of the values that its inputs
get. In a well-formed registry without floating inputs every gate can be evaluated, and what it
computes is `next` (`Registry.gateOutput_setGates`).
-/

namespace GateSim

namespace Kind

def isGate : Kind → Bool
  | .and | .or | .nand | .nor | .xor => true
  | .switch | .clock | .dtype | .rc | .siggen => false

def function : Kind → List Signal → Signal
  | .and, vs => vs.all id
  | .nand, vs => !vs.all id
  | .or, vs => vs.any id
  | .nor, vs => !vs.any id
  | .xor, vs => vs.countP id % 2 == 1
  | .switch, _ | .clock, _ | .dtype, _ | .rc, _ | .siggen, _ => false

/-- The order of the inputs does not matter. -/
theorem function_perm (kind : Kind) {vs ws : List Signal} (h : vs.Perm ws) :
    kind.function vs = kind.function ws := by
  cases kind <;> simp only [function]
  case and => exact h.all_eq
  case nand => rw [h.all_eq]
  case or => exact h.any_eq
  case nor => rw [h.any_eq]
  case xor => rw [h.countP_eq]

theorem foldl_xor (vs : List Signal) : vs.foldl Bool.xor false = Kind.xor.function vs := by
  have hacc : ∀ (v : Signal) (vs : List Signal),
      vs.foldl Bool.xor v = (v != (vs.countP id % 2 == 1)) := by
    intro v vs
    induction vs generalizing v with
    | nil => cases v <;> rfl
    | cons w vs ih =>
      have hmod : vs.countP id % 2 = 0 ∨ vs.countP id % 2 = 1 := by omega
      rw [List.foldl_cons, ih]
      cases w
      · simp
      · rw [List.countP_cons_of_pos (by rfl)]
        rcases hmod with hmod | hmod
        · have : (vs.countP id + 1) % 2 = 1 := by omega
          cases v <;> simp [hmod, this]
        · have : (vs.countP id + 1) % 2 = 0 := by omega
          cases v <;> simp [hmod, this]
  simpa [function] using hacc false vs

end Kind

namespace Device
variable {pins : Pins} {d : Device}

/-- A counted gate has its Boolean function. -/
theorem gateValue_of_gate (h : d.WellFormed pins) {n : Nat} (hs : d.state = .gate n) :
    d.kind.isGate = true ∧ ∀ vs, d.kind.gateValue vs = .ok (d.kind.function vs) := by
  have hfits := h.fits
  rw [hs] at hfits
  cases hk : d.kind <;> rw [hk] at hfits <;> first | exact ⟨rfl, fun _ => rfl⟩ | cases hfits

theorem kind_of_xor (h : d.WellFormed pins) (hs : d.state = .xor) : d.kind = .xor := by
  have hfits := h.fits
  rw [hs] at hfits
  cases hk : d.kind <;> rw [hk] at hfits <;> first | rfl | cases hfits

theorem state_of_isGate (h : d.WellFormed pins) (hg : d.kind.isGate = true) :
    (∃ n, d.state = .gate n) ∨ d.state = .xor := by
  have hf := h.fits
  cases hk : d.kind <;> simp only [hk, Kind.isGate, Bool.false_eq_true] at hg <;>
    cases hs : d.state <;> simp_all [State.fits]

/-- A device whose output has no name has one output. -/
theorem outputs_of_outputPins (h : d.WellFormed pins) (hpins : d.state.outputPins pins = [none]) :
    ∃ v, d.outputs = [(none, v)] := by
  have hmem : ∀ pin, pin ∈ d.outputs.keys ↔ pin = none := fun pin => by
    rw [h.mem_outputs, hpins, List.mem_singleton]
  have hnodup := h.outputs.nodup_keys
  match hout : d.outputs with
  | [] => simpa [hout] using (hmem none).2 rfl
  | [(pin, v)] =>
    have : pin = none := (hmem pin).1 (by simp [hout])
    exact ⟨v, by rw [this]⟩
  | (pin, v) :: (pin', v') :: m =>
    have h1 : pin = none := (hmem pin).1 (by simp [hout])
    have h2 : pin' = none := (hmem pin').1 (by simp [hout])
    rw [hout] at hnodup
    simp [h1, h2] at hnodup

theorem outputPins_of_isGate (h : d.WellFormed pins) (hg : d.kind.isGate = true) :
    d.state.outputPins pins = [none] := by
  rcases state_of_isGate h hg with ⟨n, hs⟩ | hs <;> rw [hs] <;> rfl

theorem outputs_of_isGate (h : d.WellFormed pins) (hg : d.kind.isGate = true) :
    ∃ v, d.outputs = [(none, v)] :=
  outputs_of_outputPins h (outputPins_of_isGate h hg)

theorem none_mem_outputPins (h : d.WellFormed pins) (hg : d.kind.isGate = true) :
    none ∈ d.state.outputPins pins :=
  outputPins_of_isGate h hg ▸ List.mem_singleton_self none

end Device

/-- The values of gates, by id. -/
abbrev Valuation := NameId → Signal

/-- Puts the value of a gate in. -/
def Device.setGate (f : Valuation) (d : Device) : Device :=
  if d.kind.isGate then d.putOutput none (f d.id) else d

namespace Registry

def isGate (r : Registry) (id : NameId) : Bool := (r.device? id).any (·.kind.isGate)

/-- Puts the values of gates in. -/
def setGates (r : Registry) (f : Valuation) : Registry :=
  { r with devices := r.devices.map (Device.setGate f) }

def gateValues (r : Registry) : Valuation := fun id => (r.output? id none).getD false

/-- The value of an output, if the gates have these values. -/
def value (r : Registry) (f : Valuation) (s : Source) : Signal :=
  if r.isGate s.device then f s.device else (r.output? s.device s.pin).getD false

/-- What a gate computes, if the gates have these values. -/
def next (r : Registry) (f : Valuation) (d : Device) : Signal :=
  d.kind.function (d.inputs.map fun e => (e.2.map (r.value f)).getD false)

end Registry

namespace Device
variable {pins : Pins} {d : Device} {f g : Valuation}

@[simp] theorem id_setGate : (d.setGate f).id = d.id := by unfold setGate; split <;> rfl

@[simp] theorem kind_setGate : (d.setGate f).kind = d.kind := by unfold setGate; split <;> rfl

@[simp] theorem inputs_setGate : (d.setGate f).inputs = d.inputs := by unfold setGate; split <;> rfl

@[simp] theorem state_setGate : (d.setGate f).state = d.state := by unfold setGate; split <;> rfl

theorem setGate_of_not_isGate (h : d.kind.isGate = false) : d.setGate f = d := by
  rw [setGate, h]; rfl

theorem outputs_setGate (h : d.WellFormed pins) (hg : d.kind.isGate = true) :
    (d.setGate f).outputs = [(none, f d.id)] := by
  obtain ⟨v, hv⟩ := outputs_of_isGate h hg
  rw [setGate, if_pos hg, putOutput, hv]
  rfl

theorem wiring_setGate (h : d.WellFormed pins) : (d.setGate f).wiring = d.wiring := by
  unfold setGate
  split
  · next hg => exact wiring_putOutput h (none_mem_outputPins h hg) _
  · rfl

theorem ext_outputs {d d' : Device} (hid : d.id = d'.id) (hkind : d.kind = d'.kind)
    (hin : d.inputs = d'.inputs) (hout : d.outputs = d'.outputs) (hst : d.state = d'.state) :
    d = d' := by
  cases d; cases d'; cases hid; cases hkind; cases hin; cases hout; cases hst; rfl

theorem setGate_congr (h : d.kind.isGate = true → f d.id = g d.id) : d.setGate f = d.setGate g := by
  unfold setGate
  split
  · next hg => rw [h hg]
  · rfl

end Device

namespace Registry
variable {r : Registry} {f g : Valuation}

/-! ### Registries with given gate values -/

theorem wiring_setGates (h : r.WellFormed) (f : Valuation) : (r.setGates f).wiring = r.wiring :=
  wiring_map fun d hd => Device.wiring_setGate (h.devices d hd)

theorem WellFormed.setGates (h : r.WellFormed) (f : Valuation) : (r.setGates f).WellFormed :=
  h.of_wiring_eq (wiring_setGates h f)

theorem setGates_congr (h : ∀ d ∈ r.devices, d.kind.isGate = true → f d.id = g d.id) :
    r.setGates f = r.setGates g := by
  unfold setGates
  rw [List.map_congr_left fun d hd => Device.setGate_congr (h d hd)]

theorem isGate_iff (h : r.WellFormed) {id : NameId} :
    r.isGate id = true ↔ ∃ d ∈ r.devices, d.id = id ∧ d.kind.isGate = true := by
  rw [isGate, Option.any_eq_true]
  simp only [h.device?_eq_some_iff, and_assoc]

theorem isGate_of_mem (h : r.WellFormed) {d : Device} (hd : d ∈ r.devices) :
    r.isGate d.id = d.kind.isGate := by
  rw [isGate, h.device?_of_mem hd]
  rfl

theorem exists_of_wiring_eq {r' : Registry} (hw : r'.wiring = r.wiring) {d' : Device}
    (hd : d' ∈ r'.devices) : ∃ d ∈ r.devices, d.id = d'.id ∧ d.kind = d'.kind ∧
      d.inputs = d'.inputs ∧ d.outputs.keys = d'.outputs.keys := by
  obtain ⟨d, hd, heq⟩ := exists_mem_of_wiring_eq hw hd
  obtain ⟨hid, hkind, hin, hout, -⟩ := Device.wiring_eq_iff.1 heq
  exact ⟨d, hd, hid, hkind, hin, hout⟩

theorem isGate_of_wiring_eq {r' : Registry} (h : r.WellFormed) (hw : r'.wiring = r.wiring)
    (id : NameId) : r'.isGate id = r.isGate id := by
  have h' := h.of_wiring_eq hw
  rw [Bool.eq_iff_iff, isGate_iff h, isGate_iff h']
  constructor
  · rintro ⟨d', hd', rfl, hg⟩
    obtain ⟨d, hd, hid, hkind, -⟩ := exists_of_wiring_eq hw hd'
    exact ⟨d, hd, hid, hkind ▸ hg⟩
  · rintro ⟨d, hd, rfl, hg⟩
    obtain ⟨d', hd', hid, hkind, -⟩ := exists_of_wiring_eq hw.symm hd
    exact ⟨d', hd', hid, hkind ▸ hg⟩

theorem gateValues_of_mem (h : r.WellFormed) {d : Device} (hd : d ∈ r.devices) :
    r.gateValues d.id = d.value := by
  rw [gateValues, h.output?_of_mem hd]
  rfl

theorem setGates_gateValues (h : r.WellFormed) : r.setGates r.gateValues = r := by
  have hmap : r.devices.map (Device.setGate r.gateValues) = r.devices := by
    refine (List.map_congr_left fun d hd => ?_).trans (List.map_id _)
    by_cases hg : d.kind.isGate = true
    · obtain ⟨v, hv⟩ := Device.outputs_of_isGate (h.devices d hd) hg
      refine Device.ext_outputs (by simp) (by simp) (by simp) ?_ (by simp)
      rw [Device.outputs_setGate (h.devices d hd) hg, gateValues_of_mem h hd, Device.value, id, hv]
      rfl
    · exact Device.setGate_of_not_isGate (by simpa using hg)
  rw [setGates, hmap]

/-- An output that exists has the value that is given, or the one that it had. -/
theorem output?_setGates (h : r.WellFormed) {s : Source}
    (hs : ∃ d ∈ r.devices, d.id = s.device ∧ s.pin ∈ d.outputs.keys) :
    (r.setGates f).output? s.device s.pin = some (r.value f s) := by
  obtain ⟨d, hd, hid, hpin⟩ := hs
  have hd' : d.setGate f ∈ (r.setGates f).devices := List.mem_map_of_mem hd
  have hout : (r.setGates f).output? s.device s.pin = (d.setGate f).outputs.get? s.pin := by
    rw [← (h.setGates f).output?_of_mem hd', Device.id_setGate, hid]
  rw [hout, value, ← hid, isGate_of_mem h hd]
  by_cases hg : d.kind.isGate = true
  · obtain ⟨v, hv⟩ := Device.outputs_of_isGate (h.devices d hd) hg
    have hnone : s.pin = none := by simpa [hv] using hpin
    rw [if_pos hg, Device.outputs_setGate (h.devices d hd) hg, hnone]
    rfl
  · rw [if_neg hg, Device.setGate_of_not_isGate (by simpa using hg), h.output?_of_mem hd]
    obtain ⟨v, hv⟩ := Option.isSome_iff_exists.1 (PinMap.contains_iff.2 hpin)
    rw [hv]
    rfl

theorem gateValues_setGates (h : r.WellFormed) {d : Device} (hd : d ∈ r.devices)
    (hg : d.kind.isGate = true) : (r.setGates f).gateValues d.id = f d.id := by
  obtain ⟨v, hv⟩ := Device.outputs_of_isGate (h.devices d hd) hg
  have := output?_setGates (f := f) (s := ⟨d.id, none⟩) h ⟨d, hd, rfl, by simp [hv]⟩
  rw [gateValues, this, value, isGate_of_mem h hd, if_pos hg]
  rfl

theorem value_congr (hr : r.WellFormed)
    (h : ∀ d ∈ r.devices, d.kind.isGate = true → f d.id = g d.id) (s : Source) :
    r.value f s = r.value g s := by
  unfold value
  split
  · next hg =>
    obtain ⟨d, hd, hid, hk⟩ := (isGate_iff hr).1 hg
    rw [← hid, h d hd hk]
  · rfl

/-! ### Evaluating gates -/

theorem floating_eq_nil_iff : r.floating = [] ↔ ∀ d ∈ r.devices, ∀ e ∈ d.inputs, e.2 ≠ none := by
  simp only [floating, List.flatMap_eq_nil_iff, List.map_eq_nil_iff, Device.floating,
    List.filterMap_eq_nil_iff]
  refine forall₂_congr fun d _ => forall₂_congr fun e _ => ?_
  cases e.2 <;> simp

theorem floating_of_wiring_eq {r' : Registry} (h : r'.wiring = r.wiring) :
    r'.floating = r.floating := by
  have hdev := devices_eq_of_wiring_eq h
  have hf : ∀ r : Registry, r.floating =
      (r.devices.map Device.wiring).flatMap fun d => d.floating.map (d.id, ·) := by
    intro r
    rw [List.flatMap_map]
    rfl
  rw [hf r', hf r, hdev]

theorem read_setGates (h : r.WellFormed) {d : Device} (hd : d ∈ r.devices) {pin : NameId}
    {s : Source} (hs : d.inputs.get? pin = some (some s)) :
    (r.setGates f).read (d.setGate f) pin = .ok (r.value f s) := by
  have hout := output?_setGates (f := f) h (h.sources d hd pin s hs)
  simp only [read, Device.inputs_setGate, hs, Option.join_some, hout]

/-- The value that an input gets, if the gates have these values. -/
def input (r : Registry) (f : Valuation) (d : Device) (pin : NameId) : Signal :=
  ((d.inputs.get? pin).join.map (r.value f)).getD false

theorem get?_inputs_of_floating (h : r.WellFormed) (hf : r.floating = []) {d : Device}
    (hd : d ∈ r.devices) {pin : NameId} (hp : pin ∈ d.state.inputPins r.pins) :
    ∃ s, d.inputs.get? pin = some (some s) := by
  have hkey := ((h.devices d hd).mem_inputs pin).2 hp
  obtain ⟨s, hs⟩ := Option.isSome_iff_exists.1 (PinMap.contains_iff.2 hkey)
  cases s with
  | none => exact absurd rfl (floating_eq_nil_iff.1 hf d hd _ (PinMap.mem_of_get? hs))
  | some s => exact ⟨s, hs⟩

theorem read_eq_ok (h : r.WellFormed) (hf : r.floating = []) {d : Device} (hd : d ∈ r.devices)
    {pin : NameId} (hp : pin ∈ d.state.inputPins r.pins) :
    (r.setGates f).read (d.setGate f) pin = .ok (r.input f d pin) := by
  obtain ⟨s, hs⟩ := get?_inputs_of_floating h hf hd hp
  rw [read_setGates h hd hs, input, hs]
  rfl

theorem mapM_eq_ok {α β ε : Type} {l : List α} {m : α → Except ε β} {g : α → β}
    (h : ∀ a ∈ l, m a = .ok (g a)) : l.mapM m = .ok (l.map g) := by
  induction l with
  | nil => rfl
  | cons a l ih =>
    obtain ⟨ha, hl⟩ := List.forall_mem_cons.1 h
    rw [List.mapM_cons, ha, ih hl]
    rfl

/-- The inputs of a device, in whatever order they are read. -/
theorem function_inputs (h : r.WellFormed) {d : Device} (hd : d ∈ r.devices) :
    d.kind.function ((d.state.inputPins r.pins).map (r.input f d)) = r.next f d := by
  have hw := h.devices d hd
  have hperm : (d.state.inputPins r.pins).Perm d.inputs.keys :=
    (List.perm_ext_iff_of_nodup (State.nodup_inputPins h.pins _) hw.inputs.nodup_keys).2
      fun pin => (hw.mem_inputs pin).symm
  have hkeys : d.inputs.keys.map (r.input f d) =
      d.inputs.map fun e => (e.2.map (r.value f)).getD false := by
    rw [PinMap.keys, List.map_map]
    refine List.map_congr_left fun e he => ?_
    have hget : d.inputs.get? e.1 = some e.2 := hw.inputs.get?_of_mem he
    show r.input f d e.1 = _
    rw [input, hget]
    rfl
  rw [Kind.function_perm _ (hperm.map _), hkeys, next]

/-- A gate computes its function of its inputs, and no other device computes anything. -/
theorem gateOutput_setGates (h : r.WellFormed) (hf : r.floating = []) {d : Device}
    (hd : d ∈ r.devices) :
    (r.setGates f).gateOutput (d.setGate f) =
      .ok (if d.kind.isGate then some (r.next f d) else none) := by
  have hw := h.devices d hd
  have hread : (d.state.inputPins r.pins).mapM ((r.setGates f).read (d.setGate f)) =
      .ok ((d.state.inputPins r.pins).map (r.input f d)) :=
    mapM_eq_ok fun pin hp => read_eq_ok h hf hd hp
  rw [← function_inputs h hd]
  unfold gateOutput
  rw [Device.state_setGate, Device.kind_setGate]
  cases hs : d.state with
  | gate n =>
    obtain ⟨hgate, hvalue⟩ := Device.gateValue_of_gate hw hs
    rw [hs] at hread
    rw [hgate]
    have hread' : ((r.setGates f).pins.gateInputs.take n).mapM
        ((r.setGates f).read (d.setGate f)) = _ := hread
    simp only [hread', bind, Except.bind, hvalue]
    rfl
  | xor =>
    rw [hs] at hread
    rw [Device.kind_of_xor hw hs]
    have hread' : ((r.setGates f).pins.gateInputs.take 2).mapM
        ((r.setGates f).read (d.setGate f)) = _ := hread
    simp only [hread', bind, Except.bind, Kind.foldl_xor]
    rfl
  | switch _ _ | clock _ _ | dtype _ _ | rc _ _ | siggen _ _ =>
    have hgate : d.kind.isGate = false := by
      rw [Bool.eq_false_iff]
      intro hg
      rcases Device.state_of_isGate hw hg with ⟨n, hn⟩ | hn <;> rw [hs] at hn <;> cases hn
    rw [hgate]
    rfl

end Registry

end GateSim
