import Mathlib.Data.List.Sort
import GateSim.Proofs.CycleFault

/-!
# Connections

What becomes of an attempt to connect an input is settled by the devices as they are
(`Registry.verdict`), and an attempt that succeeds gives the one input its source
(`Registry.WellFormed.connect_eq`). No attempt adds or removes a pin, so after any number of attempts an input
has the source that it had before, or that of the first attempt for it which names pins that exist
(`Session.connections`).
-/

namespace GateSim

/-! ### Pin maps -/

/-- Entries of different pins can be set in either order. -/
theorem PinMap.Ascending.put_comm {κ α : Type} [BEq κ] [LawfulBEq κ] [PinRank κ] [LawfulPinRank κ]
    {m : PinMap κ α} (h : m.Ascending) {k k' : κ} (hne : k ≠ k') (a a' : α) :
    (m.put k a).put k' a' = (m.put k' a').put k a := by
  refine ((h.put k a).put k' a').ext ((h.put k' a').put k a) fun pin => ?_
  rw [get?_put, get?_put, get?_put, get?_put]
  split
  · next hk' => rw [if_neg fun hk => hne ((eq_of_beq hk).symm.trans (eq_of_beq hk'))]
  · rfl

/-! ### Attempts -/

/-- An attempt to give an input a source. -/
structure Attempt where
  source : Source
  target : NameId
  pin : NameId
  deriving DecidableEq

namespace Attempt

def operation (a : Attempt) : Operation := .connect a.source.device a.source.pin a.target a.pin

def IsFor (a : Attempt) (id pin : NameId) : Prop := a.target = id ∧ a.pin = pin

instance (a : Attempt) (id pin : NameId) : Decidable (a.IsFor id pin) :=
  inferInstanceAs (Decidable (_ ∧ _))

theorem IsFor.symm {a b : Attempt} (h : a.IsFor b.target b.pin) : b.IsFor a.target a.pin :=
  ⟨h.1.symm, h.2.symm⟩

end Attempt

/-- The device with the input gets it connected, any other is left as it is. -/
def Device.wire (a : Attempt) (d : Device) : Device :=
  if d.id = a.target then { d with inputs := d.inputs.put a.pin (some a.source) } else d

namespace Registry

def HasInput (r : Registry) (id pin : NameId) : Prop :=
  ∃ d ∈ r.devices, d.id = id ∧ pin ∈ d.inputs.keys

def HasOutput (r : Registry) (s : Source) : Prop :=
  ∃ d ∈ r.devices, d.id = s.device ∧ s.pin ∈ d.outputs.keys

/-- The output and the input that the attempt names exist. -/
def Admits (r : Registry) (a : Attempt) : Prop := r.HasOutput a.source ∧ r.HasInput a.target a.pin

instance (r : Registry) (a : Attempt) : Decidable (r.Admits a) :=
  inferInstanceAs (Decidable ((∃ d ∈ r.devices, _ ∧ _) ∧ ∃ d ∈ r.devices, _ ∧ _))

/-- What becomes of an attempt: the devices must exist, then the pins, and then the input must not
have a source. -/
def verdict (r : Registry) (a : Attempt) : ConnectStatus :=
  if a.source.device ∉ r.ids ∨ a.target ∉ r.ids then .deviceAbsent
  else if ¬ r.Admits a then .pinAbsent
  else if r.source? a.target a.pin ≠ none then .inputConnected
  else .ok

def wire (r : Registry) (a : Attempt) : Registry :=
  { r with devices := r.devices.map (Device.wire a) }

/-- What an attempt leaves. -/
def attempt (r : Registry) (a : Attempt) : Registry := if r.verdict a = .ok then r.wire a else r

variable {r : Registry} {a b : Attempt} {id pin : NameId}

theorem mem_ids_of_hasInput (h : r.HasInput id pin) : id ∈ r.ids := by
  obtain ⟨d, hd, rfl, -⟩ := h
  exact List.mem_map_of_mem hd

theorem mem_ids_of_hasOutput {s : Source} (h : r.HasOutput s) : s.device ∈ r.ids := by
  obtain ⟨d, hd, hid, -⟩ := h
  exact hid ▸ List.mem_map_of_mem hd

theorem verdict_of_admits (h : r.Admits a) :
    r.verdict a = if r.source? a.target a.pin ≠ none then .inputConnected else .ok := by
  have hs := mem_ids_of_hasOutput h.1
  have ht := mem_ids_of_hasInput h.2
  simp [verdict, h, hs, ht]

theorem verdict_of_not_admits (hs : a.source.device ∈ r.ids) (ht : a.target ∈ r.ids)
    (h : ¬ r.Admits a) : r.verdict a = .pinAbsent := by
  simp [verdict, h, hs, ht]

theorem verdict_eq_ok_iff : r.verdict a = .ok ↔ r.Admits a ∧ r.source? a.target a.pin = none := by
  by_cases h : r.Admits a
  · rw [verdict_of_admits h]
    split <;> simp_all
  · rw [verdict]
    split <;> simp [h]

theorem attempt_of_ok (h : r.verdict a = .ok) : r.attempt a = r.wire a := if_pos h

theorem attempt_of_not_ok (h : r.verdict a ≠ .ok) : r.attempt a = r := if_neg h

theorem WellFormed.notMem_ids (h : r.WellFormed) (hd : r.device? id = none) : id ∉ r.ids := by
  intro hid
  obtain ⟨d, hsome⟩ := h.exists_device?_of_has (h.has_iff.2 hid)
  rw [hd] at hsome
  cases hsome

theorem WellFormed.hasInput_iff (h : r.WellFormed) {d : Device} (hd : r.device? id = some d) :
    r.HasInput id pin ↔ pin ∈ d.inputs.keys := by
  obtain ⟨hmem, hid⟩ := h.device?_eq_some_iff.1 hd
  constructor
  · rintro ⟨d', hmem', hid', hpin⟩
    rwa [h.eq_of_id_eq hmem hmem' (hid.trans hid'.symm)]
  · exact fun hpin => ⟨d, hmem, hid, hpin⟩

/-- Connecting does what the verdict says. -/
theorem WellFormed.connect_eq (h : r.WellFormed) (a : Attempt) :
    r.connect a.source.device a.source.pin a.target a.pin = (r.verdict a, r.attempt a) := by
  unfold Registry.connect
  cases hd : r.device? a.target with
  | none =>
    have hv : r.verdict a = .deviceAbsent := if_pos (Or.inr (h.notMem_ids hd))
    simp [attempt, hv]
  | some d =>
    obtain ⟨hmem, hid⟩ := h.device?_eq_some_iff.1 hd
    have ht : a.target ∈ r.ids := hid ▸ List.mem_map_of_mem hmem
    have hsource : r.source? a.target a.pin = (d.inputs.get? a.pin).join := by
      rw [source?, hd]
      rfl
    by_cases hs : a.source.device ∈ r.ids
    · have hhas := h.has_iff.2 hs
      by_cases hout : r.HasOutput a.source
      · have hisOut : r.isOutput a.source.device a.source.pin = true := h.isOutput_iff.2 hout
        cases hget : d.inputs.get? a.pin with
        | none =>
          have hpin : a.pin ∉ d.inputs.keys := PinMap.get?_eq_none_iff.1 hget
          have hv := verdict_of_not_admits hs ht fun ha => hpin ((h.hasInput_iff hd).1 ha.2)
          simp [attempt, hv, hhas, hisOut, hget]
        | some source =>
          have hpin : a.pin ∈ d.inputs.keys := List.mem_map_of_mem (PinMap.mem_of_get? hget)
          have hv := verdict_of_admits ⟨hout, (h.hasInput_iff hd).2 hpin⟩
          cases source with
          | none => simp [hv, hsource, hget, hhas, hisOut, attempt, h.update_eq, wire, Device.wire]
          | some source => simp [hv, hsource, hget, hhas, hisOut, attempt]
      · have hisOut : r.isOutput a.source.device a.source.pin = false :=
          Bool.eq_false_iff.2 (mt h.isOutput_iff.1 hout)
        have hv := verdict_of_not_admits hs ht fun ha => hout ha.1
        simp [attempt, hv, hhas, hisOut]
    · have hv : r.verdict a = .deviceAbsent := if_pos (Or.inl hs)
      have hhas : r.has a.source.device = false := Bool.eq_false_iff.2 (mt h.has_iff.1 hs)
      simp [attempt, hv, hhas]

end Registry

/-! ### What an attempt changes -/

namespace Device
variable {a b : Attempt} {d : Device}

theorem wire_of_ne (h : d.id ≠ a.target) : d.wire a = d := if_neg h

theorem wire_of_eq (h : d.id = a.target) :
    d.wire a = { d with inputs := d.inputs.put a.pin (some a.source) } :=
  if_pos h

@[simp] theorem id_wire (a : Attempt) (d : Device) : (d.wire a).id = d.id := by
  unfold wire; split <;> rfl

@[simp] theorem outputs_wire (a : Attempt) (d : Device) : (d.wire a).outputs = d.outputs := by
  unfold wire; split <;> rfl

theorem wire_comm (h : d.inputs.Ascending) (hne : ¬ a.IsFor b.target b.pin) :
    (d.wire a).wire b = (d.wire b).wire a := by
  by_cases ha : d.id = a.target
  · by_cases hb : d.id = b.target
    · have hpin : a.pin ≠ b.pin := fun hpin => hne ⟨ha.symm.trans hb, hpin⟩
      have hb' : (d.wire a).id = b.target := (d.id_wire a).trans hb
      have ha' : (d.wire b).id = a.target := (d.id_wire b).trans ha
      rw [wire_of_eq hb', wire_of_eq ha', wire_of_eq ha, wire_of_eq hb]
      exact congrArg (fun inputs => { d with inputs }) (h.put_comm hpin _ _)
    · rw [wire_of_ne (d := d) hb, wire_of_ne (a := b) (by rwa [id_wire])]
  · rw [wire_of_ne (d := d) ha, wire_of_ne (a := a) (by rwa [id_wire])]

theorem floats_put {d : Device} {pin pin' : NameId} {s : Source} :
    Floats { d with inputs := d.inputs.put pin (some s) } pin' ↔ pin' ≠ pin ∧ d.Floats pin' := by
  show (d.inputs.put pin (some s)).get? pin' = some none ↔ _
  rw [PinMap.get?_put]
  by_cases hpin : pin' = pin
  · simp [hpin]
  · simp [hpin, Floats]

/-- Of the inputs that float, the one does not any more. -/
theorem floating_put (h : d.inputs.Ascending) (pin : NameId) (s : Source) :
    floating { d with inputs := d.inputs.put pin (some s) } = d.floating.filter (· != pin) := by
  have hput := h.put pin (some s)
  have hsorted := pairwise_floating (d := { d with inputs := d.inputs.put pin (some s) }) hput
  have hsorted' := (pairwise_floating h).filter (· != pin)
  refine hsorted.eq_of_mem_iff hsorted' fun pin' => ?_
  rw [mem_floating_iff hput, floats_put, List.mem_filter, mem_floating_iff h, bne_iff_ne, and_comm]

end Device

namespace Registry
variable {r : Registry} {a b : Attempt} {id pin : NameId}

theorem ids_wire (r : Registry) (a : Attempt) : (r.wire a).ids = r.ids :=
  ids_map fun d _ => d.id_wire a

theorem device?_wire (r : Registry) (a : Attempt) (id : NameId) :
    (r.wire a).device? id = (r.device? id).map (Device.wire a) := by
  simp only [device?, wire, List.getElem?_map]
  cases r.places.lookup id <;> rfl

/-- The one input gets its source. -/
theorem WellFormed.source?_wire (h : r.WellFormed) (ht : a.target ∈ r.ids) (id pin : NameId) :
    (r.wire a).source? id pin =
      if a.IsFor id pin then some a.source else r.source? id pin := by
  rw [source?, device?_wire]
  cases hd : r.device? id with
  | none =>
    have hne : ¬ a.IsFor id pin := fun hfor => h.notMem_ids hd (hfor.1 ▸ ht)
    rw [if_neg hne, source?, hd]
    rfl
  | some d =>
    obtain ⟨-, rfl⟩ := h.device?_eq_some_iff.1 hd
    rw [source?, hd]
    show ((d.wire a).inputs.get? pin).join = if _ then _ else (d.inputs.get? pin).join
    by_cases hid : d.id = a.target
    · rw [Device.wire_of_eq hid, PinMap.get?_put]
      by_cases hpin : pin = a.pin
      · rw [if_pos (beq_iff_eq.2 hpin), if_pos (show a.IsFor d.id pin from ⟨hid.symm, hpin.symm⟩)]
        rfl
      · rw [if_neg (mt eq_of_beq hpin), if_neg fun hfor : a.IsFor d.id pin => hpin hfor.2.symm]
    · rw [Device.wire_of_ne hid, if_neg fun hfor : a.IsFor d.id pin => hid hfor.1.symm]

theorem WellFormed.mem_floating_iff (h : r.WellFormed) :
    (id, pin) ∈ r.floating ↔ r.HasInput id pin ∧ r.source? id pin = none := by
  have hfloats {d : Device} (hd : d ∈ r.devices) : pin ∈ d.floating ↔
      pin ∈ d.inputs.keys ∧ r.source? d.id pin = none := by
    rw [Device.mem_floating_iff (h.devices d hd).inputs, source?, h.device?_of_mem hd,
      Device.Floats, ← PinMap.contains_iff, PinMap.contains]
    show _ ↔ _ ∧ (d.inputs.get? pin).join = none
    rcases d.inputs.get? pin with - | - | source <;> simp
  rw [floating, List.mem_flatMap]
  constructor
  · rintro ⟨d, hd, hmem⟩
    obtain ⟨_, hpin, heq⟩ := List.mem_map.1 hmem
    cases heq
    obtain ⟨hkey, hsource⟩ := (hfloats hd).1 hpin
    exact ⟨⟨d, hd, rfl, hkey⟩, hsource⟩
  · rintro ⟨⟨d, hd, rfl, hkey⟩, hsource⟩
    exact ⟨d, hd, List.mem_map_of_mem ((hfloats hd).2 ⟨hkey, hsource⟩)⟩

theorem WellFormed.nodup_floating (h : r.WellFormed) : r.floating.Nodup := by
  refine List.nodup_flatMap.2 ⟨fun d hd => ?_, ?_⟩
  · have hsorted := Device.pairwise_floating (h.devices d hd).inputs
    exact List.Nodup.map (fun _ _ heq => (Prod.mk.inj heq).2) (hsorted.imp Nat.ne_of_lt)
  · refine (List.pairwise_map.1 h.nodup_ids).imp fun hne e he he' => hne ?_
    obtain ⟨_, -, rfl⟩ := List.mem_map.1 he
    obtain ⟨_, -, heq⟩ := List.mem_map.1 he'
    exact (Prod.mk.inj heq).1.symm

theorem WellFormed.floating_wire (h : r.WellFormed) (a : Attempt) :
    (r.wire a).floating = r.floating.filter (· != (a.target, a.pin)) := by
  simp only [floating, wire, List.flatMap_map, List.filter_flatMap]
  refine List.flatMap_congr fun d hd => ?_
  rw [List.filter_map, Device.id_wire]
  congr 1
  by_cases hid : d.id = a.target
  · rw [Device.wire_of_eq hid, Device.floating_put (h.devices d hd).inputs]
    exact List.filter_congr fun pin _ => Bool.eq_iff_iff.2 (by simp [hid])
  · rw [Device.wire_of_ne hid]
    exact (List.filter_eq_self.2 fun pin _ => by simp [hid]).symm

theorem WellFormed.wire_comm (h : r.WellFormed) (hne : ¬ a.IsFor b.target b.pin) :
    (r.wire a).wire b = (r.wire b).wire a := by
  simp only [wire, List.map_map]
  congr 1
  exact List.map_congr_left fun d hd => Device.wire_comm (h.devices d hd).inputs hne

theorem WellFormed.keys_inputs_wire (h : r.WellFormed) (ha : r.Admits a) {d : Device}
    (hd : d ∈ r.devices) : (d.wire a).inputs.keys = d.inputs.keys := by
  by_cases hid : d.id = a.target
  · have hpin := (h.hasInput_iff (hid ▸ h.device?_of_mem hd)).1 ha.2
    rw [Device.wire_of_eq hid]
    exact (h.devices d hd).inputs.keys_put hpin
  · rw [Device.wire_of_ne hid]

/-- No pin comes or goes. -/
theorem WellFormed.admits_wire (h : r.WellFormed) (ha : r.Admits a) (b : Attempt) :
    (r.wire a).Admits b ↔ r.Admits b := by
  simp only [Admits, HasInput, HasOutput, wire, List.mem_map, exists_exists_and_eq_and,
    Device.id_wire, Device.outputs_wire]
  refine and_congr_right fun _ => exists_congr fun d => and_congr_right fun hd => ?_
  rw [h.keys_inputs_wire ha hd]

theorem WellFormed.admits_attempt (h : r.WellFormed) (a b : Attempt) :
    (r.attempt a).Admits b ↔ r.Admits b := by
  by_cases hv : r.verdict a = .ok
  · rw [attempt_of_ok hv]
    exact h.admits_wire (verdict_eq_ok_iff.1 hv).1 b
  · rw [attempt_of_not_ok hv]

theorem ids_attempt (r : Registry) (a : Attempt) : (r.attempt a).ids = r.ids := by
  unfold attempt
  split
  · exact r.ids_wire a
  · rfl

theorem WellFormed.source?_attempt (h : r.WellFormed) (a : Attempt) (id pin : NameId) :
    (r.attempt a).source? id pin = (r.source? id pin).or
      (if a.IsFor id pin ∧ r.Admits a then some a.source else none) := by
  by_cases hv : r.verdict a = .ok
  · obtain ⟨ha, hfree⟩ := verdict_eq_ok_iff.1 hv
    rw [attempt_of_ok hv, h.source?_wire (mem_ids_of_hasInput ha.2)]
    by_cases hfor : a.IsFor id pin
    · obtain ⟨rfl, rfl⟩ := hfor
      rw [if_pos ⟨rfl, rfl⟩, if_pos ⟨⟨rfl, rfl⟩, ha⟩, hfree]
      rfl
    · rw [if_neg hfor, if_neg fun hand => hfor hand.1, Option.or_none]
  · rw [attempt_of_not_ok hv]
    split
    · next hand =>
      -- the input has a source, or else the attempt would have succeeded
      obtain ⟨⟨rfl, rfl⟩, ha⟩ := hand
      obtain ⟨source, hsource⟩ := Option.ne_none_iff_exists'.1 fun hfree =>
        hv (verdict_eq_ok_iff.2 ⟨ha, hfree⟩)
      rw [hsource, Option.some_or]
    · rw [Option.or_none]

theorem WellFormed.verdict_attempt (h : r.WellFormed) (hne : ¬ a.IsFor b.target b.pin) :
    (r.attempt a).verdict b = r.verdict b := by
  have hsource : (r.attempt a).source? b.target b.pin = r.source? b.target b.pin := by
    rw [h.source?_attempt, if_neg fun hand => hne hand.1, Option.or_none]
  simp only [verdict, ids_attempt, h.admits_attempt, hsource]

theorem WellFormed.attempt_comm (h : r.WellFormed) (hne : ¬ a.IsFor b.target b.pin) :
    (r.attempt a).attempt b = (r.attempt b).attempt a := by
  have hb := h.verdict_attempt hne
  have ha := h.verdict_attempt (mt Attempt.IsFor.symm hne)
  by_cases hva : r.verdict a = .ok
  · by_cases hvb : r.verdict b = .ok
    · rw [attempt_of_ok (hb.trans hvb), attempt_of_ok (ha.trans hva), attempt_of_ok hva,
        attempt_of_ok hvb, h.wire_comm hne]
    · rw [attempt_of_not_ok (hb ▸ hvb), attempt_of_not_ok hvb]
  · rw [attempt_of_not_ok (r := r.attempt b) (ha ▸ hva), attempt_of_not_ok hva]

theorem WellFormed.length_floating_attempt (h : r.WellFormed) (a : Attempt) :
    (r.attempt a).floating.length + (if r.verdict a = .ok then 1 else 0) = r.floating.length := by
  by_cases hv : r.verdict a = .ok
  · obtain ⟨ha, hfree⟩ := verdict_eq_ok_iff.1 hv
    have hmem := h.mem_floating_iff.2 ⟨ha.2, hfree⟩
    rw [attempt_of_ok hv, if_pos hv, h.floating_wire, ← h.nodup_floating.erase_eq_filter,
      List.length_erase_add_one hmem]
  · rw [attempt_of_not_ok hv, if_neg hv, Nat.add_zero]

end Registry

/-! ### Sessions -/

namespace Session
variable {s : Session}

theorem perform_attempt (h : s.circuit.Sound) (a : Attempt) : s.perform a.operation =
    (.connected (s.circuit.devices.verdict a),
      { s with circuit := { s.circuit with devices := s.circuit.devices.attempt a } }) := by
  simp only [perform, Attempt.operation, Circuit.connect, h.wellFormed.connect_eq a]

theorem isDamage_operation (a : Attempt) : a.operation.isDamage = false := rfl

/-- The first attempt that names an input, and pins that exist, gives it its source. -/
theorem source?_run (hs : s.circuit.Sound) (as : List Attempt) (id pin : NameId) :
    (s.run (as.map Attempt.operation)).2.circuit.devices.source? id pin =
      (s.circuit.devices.source? id pin).or
        ((as.find? fun a => a.IsFor id pin ∧ s.circuit.devices.Admits a).map (·.source)) := by
  induction as generalizing s with
  | nil => simp [run]
  | cons a as ih =>
    have hwell := hs.wellFormed
    have ih := ih (sound_perform hs (isDamage_operation a))
    simp only [perform_attempt hs, hwell.admits_attempt, hwell.source?_attempt] at ih
    simp only [List.map_cons, run, perform_attempt hs, ih, List.find?_cons]
    by_cases ha : a.IsFor id pin ∧ s.circuit.devices.Admits a <;> simp [ha]

theorem length_floating_run (hs : s.circuit.Sound) (as : List Attempt) :
    (s.run (as.map Attempt.operation)).2.circuit.devices.floating.length +
      (s.run (as.map Attempt.operation)).1.count (.connected .ok) =
        s.circuit.devices.floating.length := by
  induction as generalizing s with
  | nil => simp [run]
  | cons a as ih =>
    have hstep := hs.wellFormed.length_floating_attempt a
    have ih := ih (sound_perform hs (isDamage_operation a))
    simp only [perform_attempt hs] at ih
    simp only [List.map_cons, run, perform_attempt hs, List.count_cons, beq_iff_eq,
      Reply.connected.injEq]
    omega

theorem run_pair (hs : s.circuit.Sound) (a b : Attempt) :
    s.run [a.operation, b.operation] =
      ([.connected (s.circuit.devices.verdict a),
          .connected ((s.circuit.devices.attempt a).verdict b)],
        { s with circuit :=
          { s.circuit with devices := (s.circuit.devices.attempt a).attempt b } }) := by
  have hs' := sound_perform hs (isDamage_operation a)
  have hstep := perform_attempt hs' b
  simp only [perform_attempt hs] at hstep
  simp only [run, perform_attempt hs, hstep]

/-- To connect an input fails if a device does not exist, or else if a pin does not, or else if the
input has a source. A failure changes nothing, and a success gives the one input, which floated, its
source. So after any number of attempts an input has the source that it had, or that of the first
attempt for it whose pins exist, and each success has left one input less without a source. Attempts
for different inputs can be made in either order. -/
theorem connections (hs : s.Reachable) :
    let r := s.circuit.devices
    let after (as : List Attempt) := s.run (as.map Attempt.operation)
    (∀ a, (s.perform a.operation).1 = .connected (r.verdict a) ∧
      (r.verdict a ≠ .ok → (s.perform a.operation).2 = s) ∧
      (r.verdict a = .ok → (a.target, a.pin) ∈ r.floating ∧
        (s.perform a.operation).2 =
          { s with circuit := { s.circuit with devices := r.wire a } } ∧
        ∀ id pin, (r.wire a).source? id pin =
          if a.IsFor id pin then some a.source else r.source? id pin)) ∧
    (∀ as id pin, (after as).2.circuit.devices.source? id pin = (r.source? id pin).or
      ((as.find? fun a => a.IsFor id pin ∧ r.Admits a).map (·.source))) ∧
    (∀ as, (after as).2.circuit.devices.floating.length + (after as).1.count (.connected .ok) =
      r.floating.length) ∧
    ∀ a b, ¬ a.IsFor b.target b.pin →
      after [b, a] = ((after [a, b]).1.reverse, (after [a, b]).2) := by
  intro r after
  have hsound := hs.sound
  have hwell := hsound.wellFormed
  refine ⟨fun a => ?_, source?_run hsound, length_floating_run hsound, fun a b hne => ?_⟩
  · rw [perform_attempt hsound a]
    refine ⟨rfl, fun hv => ?_, fun hv => ?_⟩
    · rw [Registry.attempt_of_not_ok hv]
    · obtain ⟨ha, hfree⟩ := Registry.verdict_eq_ok_iff.1 hv
      refine ⟨hwell.mem_floating_iff.2 ⟨ha.2, hfree⟩, ?_,
        hwell.source?_wire (Registry.mem_ids_of_hasInput ha.2)⟩
      rw [Registry.attempt_of_ok hv]
  · have hne' := mt Attempt.IsFor.symm hne
    simp only [after, List.map_cons, List.map_nil, run_pair hsound, hwell.verdict_attempt hne,
      hwell.verdict_attempt hne', hwell.attempt_comm hne]
    rfl

/-- A gate that gets a switch and its own output, after attempts with an output that the switch does
not have and with a device that does not exist, and before one for an input that is taken. -/
theorem connections_gate :
    let switch : NameId := 22
    let gate : NameId := 23
    let missing : NameId := 24
    let s := ((start {}).run [.intern (.ofString "S"), .intern (.ofString "G"),
      .create .switch switch (.ofString "0"), .create .nor gate (.ofString "2")]).2
    let as : List Attempt := [⟨⟨switch, some Pin.q⟩, gate, Pin.i1⟩,
      ⟨⟨switch, none⟩, missing, Pin.i1⟩, ⟨⟨switch, none⟩, gate, Pin.i1⟩,
      ⟨⟨gate, none⟩, gate, Pin.i2⟩, ⟨⟨gate, none⟩, gate, Pin.i1⟩]
    let s' := s.run (as.map Attempt.operation)
    s'.1 = [.connected .pinAbsent, .connected .deviceAbsent, .connected .ok, .connected .ok,
        .connected .inputConnected] ∧
      s'.2.circuit.devices.source? gate Pin.i1 = some ⟨switch, none⟩ ∧
      s'.2.circuit.devices.floating.length + 2 = s.circuit.devices.floating.length := by
  intro switch gate missing s as s'
  have hs : s.Reachable := ⟨_, _, by decide, rfl⟩
  have hreplies : s'.1 = [.connected .pinAbsent, .connected .deviceAbsent, .connected .ok,
      .connected .ok, .connected .inputConnected] := by decide +kernel
  have hfirst : (s.circuit.devices.source? gate Pin.i1).or
      ((as.find? fun a => a.IsFor gate Pin.i1 ∧ s.circuit.devices.Admits a).map (·.source)) =
        some ⟨switch, none⟩ := by decide +kernel
  have hcount : s'.1.count (.connected .ok) = 2 := by rw [hreplies]; decide
  obtain ⟨-, hsource, hfloating, -⟩ := connections hs
  refine ⟨hreplies, (hsource as gate Pin.i1).trans hfirst, ?_⟩
  rw [← hcount]
  exact hfloating as

end Session

end GateSim
