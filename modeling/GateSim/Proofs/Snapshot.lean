import GateSim.Proofs.Calls

/-!
# Snapshots

To save a registry is to keep its devices, and to restore it is to put them back. The index is
neither kept nor put back, so it also has what was made in between. Devices that were saved are found
again as they were, whatever happened. But an id that was made since then is still taken, with a
place behind the last device, and the first device that is made later on comes to such a place and
goes by two ids (`Registry.Restored`). Nothing is left behind only if nothing was made, as in a
cycle.
-/

namespace GateSim

namespace Registry
variable {r r' r'' : Registry} {id : NameId}

/-- The index lists the devices in the order in which they were made, latest first. -/
def Indexed (r : Registry) : Prop := r.places = r.ids.zipIdx.reverse

theorem WellFormed.has_eq_false (h : r.WellFormed) (hid : id ∉ r.ids) : r.has id = false :=
  Bool.eq_false_iff.2 fun hhas => hid (h.has_iff.1 hhas)

/-! ### What keeps the index in order -/

theorem Indexed.of_eq (h : r.Indexed) (hp : r'.places = r.places) (hids : r'.ids = r.ids) :
    r'.Indexed := by
  rw [Indexed, hp, hids]
  exact h

theorem Indexed.of_wiring_eq (h : r.Indexed) (hw : r'.wiring = r.wiring) : r'.Indexed :=
  h.of_eq (places_eq_of_wiring_eq hw) (ids_eq_of_wiring_eq hw)

theorem Indexed.create {kind : Kind} {parameter : Text} (h : r.Indexed)
    (hc : r.create kind id parameter = .ok r') : r'.Indexed := by
  rw [Indexed, ids_create hc, List.zipIdx_append, List.reverse_append, ← h, length_ids]
  obtain ⟨-, d, -, rfl⟩ := create_eq_ok_iff.1 hc
  simp

theorem Indexed.connect (h : r.Indexed) (hw : r.WellFormed) (source : NameId)
    (sourcePin : OutputPin) (target pin : NameId) :
    (r.connect source sourcePin target pin).2.Indexed := by
  refine h.of_eq ?_ (hw.ids_connect source sourcePin target pin)
  rcases hw.connect_cases source sourcePin target pin with heq | ⟨d, -, -, -, -, heq⟩ <;> rw [heq]

/-! ### Between saving and restoring -/

/-- Devices stay at their places, so the later ones come behind them. -/
theorem Continues.ids (h : r.Continues r') : r.ids <+: r'.ids := by
  refine List.prefix_iff_getElem?.2 fun i hi => ?_
  obtain ⟨d, hd⟩ : ∃ d, r.devices[i]? = some d :=
    ⟨_, List.getElem?_eq_getElem (by rwa [length_ids] at hi)⟩
  obtain ⟨d', hd', hc⟩ := h i d hd
  have hid : r.ids[i]? = some d.id := by rw [Registry.ids, List.getElem?_map, hd]; rfl
  rw [← List.getElem?_eq_getElem hi, hid, Registry.ids, List.getElem?_map, hd', Option.map_some,
    hc.id]

/-- What becomes of a registry: it has the same pins, and new devices come last. -/
structure Grows (r r' : Registry) : Prop where
  pins : r'.pins = r.pins
  ids : r.ids <+: r'.ids
  wellFormed : r.WellFormed
  wellFormed' : r'.WellFormed
  indexed : r.Indexed
  indexed' : r'.Indexed

/-- A registry `back` that is restored to what was saved of `r`, after `r` had become `r'`. -/
structure Restored (r r' back : Registry) : Prop where
  devices : back.devices = r.devices
  /-- Saved devices are found again. -/
  saved : ∀ id ∈ r.ids, back.has id = true ∧ back.device? id = r.device? id
  /-- Ids that are not taken even now can be taken, as they could at the time. -/
  free : ∀ id, id ∉ r'.ids → back.has id = false ∧ ∀ kind parameter,
    (back.create kind id parameter).map Registry.devices =
      (r.create kind id parameter).map Registry.devices
  /-- Ids that were taken in between stay taken, by no device. -/
  stale : ∀ id ∈ r'.ids, id ∉ r.ids → back.has id = true ∧ id ∉ back.ids ∧
    (∃ i, back.places.lookup id = some i ∧ back.size ≤ i) ∧
    ∀ kind parameter, back.create kind id parameter = .error (.taken id)
  /-- The next device goes by two ids. -/
  shared : ∀ id kind id' parameter back', r'.ids[r.size]? = some id →
    back.create kind id' parameter = .ok back' → back'.device? id = back'.device? id'
  whole : back = r ↔ r'.ids = r.ids

namespace Grows

theorem refl (h : r.WellFormed) (hi : r.Indexed) : r.Grows r :=
  ⟨rfl, List.prefix_refl _, h, h, hi, hi⟩

theorem trans (h : r.Grows r') (h' : r'.Grows r'') : r.Grows r'' :=
  ⟨h'.pins.trans h.pins, h.ids.trans h'.ids, h.wellFormed, h'.wellFormed', h.indexed, h'.indexed'⟩

theorem lookup_of_mem (h : r.Grows r') (hid : id ∈ r.ids) :
    r'.places.lookup id = r.places.lookup id := by
  obtain ⟨i, hi⟩ := List.getElem?_of_mem hid
  have hlt : i < r.ids.length := (List.getElem?_eq_some_iff.1 hi).1
  obtain ⟨ids, hids⟩ := h.ids
  rw [(h.wellFormed.places id i).2 hi, h.wellFormed'.places id i, ← hids,
    List.getElem?_append_left hlt]
  exact hi

/-- What was made since then has its place behind what was there. -/
theorem exists_lookup (h : r.Grows r') (hid : id ∈ r'.ids) (hnew : id ∉ r.ids) :
    ∃ i, r'.places.lookup id = some i ∧ r.size ≤ i := by
  obtain ⟨i, hi⟩ := List.getElem?_of_mem hid
  refine ⟨i, (h.wellFormed'.places id i).2 hi, Nat.le_of_not_lt fun hlt => hnew ?_⟩
  obtain ⟨ids, hids⟩ := h.ids
  rw [← hids, List.getElem?_append_left (by rwa [length_ids])] at hi
  exact List.mem_of_getElem? hi

theorem restored (h : r.Grows r') : Restored r r' (r'.restore r.devices) where
  devices := rfl
  saved := by
    intro id hid
    have hlookup := h.lookup_of_mem hid
    refine ⟨?_, ?_⟩
    · exact h.wellFormed'.has_iff.2 (h.ids.subset hid)
    · show (r'.places.lookup id).bind (r.devices[·]?) = _
      rw [hlookup]
      rfl
  free := by
    intro id hid
    have hfree : r'.has id = false := h.wellFormed'.has_eq_false hid
    have hfree' : r.has id = false := h.wellFormed.has_eq_false fun hm => hid (h.ids.subset hm)
    refine ⟨hfree, fun kind parameter => ?_⟩
    have hback : (r'.restore r.devices).has id = false := hfree
    have hpins : (r'.restore r.devices).pins = r.pins := h.pins
    simp only [Registry.create, hback, hfree', hpins]
    cases Device.make r.pins kind id parameter <;> rfl
  stale := by
    intro id hid hnew
    have hhas : (r'.restore r.devices).has id = true := h.wellFormed'.has_iff.2 hid
    refine ⟨hhas, hnew, h.exists_lookup hid hnew, fun kind parameter => ?_⟩
    rw [Registry.create, if_pos hhas]
  shared := by
    intro id kind id' parameter back' hid hc
    obtain ⟨-, d, -, rfl⟩ := create_eq_ok_iff.1 hc
    have hlookup : r'.places.lookup id = some r.size := (h.wellFormed'.places id r.size).2 hid
    have hsize : (r'.restore r.devices).size = r.size := rfl
    simp only [device?, List.lookup_cons, beq_self_eq_true, hsize]
    split
    · rfl
    · show (r'.places.lookup id).bind _ = _
      rw [hlookup]
  whole := by
    constructor
    · intro hback
      have hplaces : r'.places = r.places :=
        show (r'.restore r.devices).places = r.places by rw [hback]
      rw [h.indexed, h.indexed', List.reverse_inj] at hplaces
      simpa using congrArg (List.map (·.1)) hplaces
    · intro hids
      have hplaces : r'.places = r.places := by rw [h.indexed', hids, h.indexed]
      rw [restore, h.pins, hplaces]

end Grows

end Registry

namespace Session
variable {s : Session}

theorem indexed_perform (hs : s.circuit.Sound) (h : s.circuit.devices.Indexed) {op : Operation}
    (hop : op.isDamage = false) : (s.perform op).2.circuit.devices.Indexed := by
  cases hkeeps : op.keepsWiring with
  | true => exact h.of_wiring_eq (wiring_perform hs hkeeps)
  | false =>
    cases op with
    | create kind id parameter =>
      rw [perform_create, Circuit.create]
      split
      · next hc => exact h.create hc
      · exact h
    | connect source sourcePin target pin =>
      exact h.connect hs.wellFormed source sourcePin target pin
    | eraseInput | eraseOutput | setKind => cases hop
    | _ => cases hkeeps

theorem grows_perform (hs : s.circuit.Sound) (h : s.circuit.devices.Indexed) {op : Operation}
    (hop : op.isDamage = false) : s.circuit.devices.Grows (s.perform op).2.circuit.devices where
  pins := (continues_perform hs hop).pins
  ids := (continues_perform hs hop).devices.ids
  wellFormed := hs.wellFormed
  wellFormed' := (sound_perform hs hop).wellFormed
  indexed := h
  indexed' := indexed_perform hs h hop

theorem grows_run (hs : s.circuit.Sound) (h : s.circuit.devices.Indexed) {ops : List Operation}
    (hops : ∀ op ∈ ops, op.isDamage = false) :
    s.circuit.devices.Grows (s.run ops).2.circuit.devices := by
  induction ops generalizing s with
  | nil => exact .refl hs.wellFormed h
  | cons op ops ih =>
    obtain ⟨hop, hops⟩ := List.forall_mem_cons.1 hops
    have hgrows := grows_perform hs h hop
    exact hgrows.trans (ih (sound_perform hs hop) hgrows.indexed' hops)

theorem Reachable.indexed (h : s.Reachable) : s.circuit.devices.Indexed := by
  obtain ⟨names, ops, hops, rfl⟩ := h
  refine (grows_run (sound_start names) ?_ hops).indexed'
  rw [circuit_start]
  rfl

/-- Devices that are put back are found as they were saved, whatever was done in the meantime. What
was made in the meantime stays in the index. -/
theorem restored_of_reachable (h : s.Reachable) {ops : List Operation}
    (hops : ∀ op ∈ ops, op.isDamage = false) :
    let saved := s.circuit.devices
    let now := (s.run ops).2.circuit.devices
    saved.Restored now (now.restore saved.devices) :=
  (grows_run h.sound h.indexed hops).restored

/-- A switch is set and a gate is made. Restoring puts the switch back, but the id of the gate is
still taken, by no device. -/
theorem restored_ring :
    let switch : NameId := 22
    let gate : NameId := 23
    let s := ((start {}).run [.create .switch switch (.ofString "0")]).2
    let now := (s.run [.setSwitch switch true, .create .nand gate (.ofString "1"),
      .connect switch none gate Pin.i1, .cycle]).2.circuit.devices
    let back := now.restore s.circuit.devices.devices
    back.setting? switch = some false ∧ back.has gate = true ∧ back.ids = [switch] ∧
      s.circuit.devices.Restored now back := by
  intro switch gate s now back
  have heval : back.setting? switch = some false ∧ back.has gate = true ∧ back.ids = [switch] := by
    decide +kernel
  exact ⟨heval.1, heval.2.1, heval.2.2, restored_of_reachable ⟨_, _, by decide, rfl⟩ (by decide)⟩

/-- A switch that is made after an empty circuit was saved is still there for the index, but not
among the devices. -/
theorem stale_switch :
    ¬ ∀ s : Session, s.Reachable → ∀ ops : List Operation, (∀ op ∈ ops, op.isDamage = false) →
      let saved := s.circuit.devices
      let back := (s.run ops).2.circuit.devices.restore saved.devices
      (∀ id, back.has id = true ↔ id ∈ back.ids) ∧ (∀ id, back.device? id = saved.device? id) ∧
        ∀ id ∉ saved.ids, ∀ kind parameter,
          (back.create kind id parameter).map Registry.devices =
            (saved.create kind id parameter).map Registry.devices := by
  intro h
  let switch : NameId := 22
  have hback := (h (start {}) ⟨{}, [], by decide, rfl⟩ [.create .switch switch (.ofString "0")]
    (by decide)).1 switch
  revert hback
  decide +kernel

end Session

end GateSim
