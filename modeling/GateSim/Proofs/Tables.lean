import GateSim.Proofs.Invariant
import GateSim.Proofs.Renaming

/-!
# Circuits over two name tables

The ids of texts depend on what a name table has seen before. `NameTable.carry` takes the ids of one
table to those of another. Two sessions are twins (`Session.Twin`) if one has the circuit of the other
one under the ids of its own table; then outputs, devices and faults go by the same names in both. The
ids of pin words are the same in all tables that start out as those of engines do
(`NameTable.Standard`).
-/

namespace GateSim

namespace NameTable
variable {names names' : NameTable} {t : Text} {a : NameId}

/-! ### Standard tables -/

/-- The table that knows the keywords and the pin words. -/
def standard : NameTable := insertPins (insertKeywords {})

/-- The pin words have the ids that they have in the standard table. -/
def Standard (names : NameTable) : Prop :=
  ∀ t ∈ PinWord.inputs ++ PinWord.outputs, t ∈ names.texts ∧ names.idOf t = standard.idOf t

theorem standard_standard : standard.Standard := fun _ ht => ⟨knowsPins_insertPins _ ht, rfl⟩

theorem Standard.insertAll (h : names.Standard) (ts : List Text) : (names.insertAll ts).Standard :=
  fun t ht => ⟨mem_insertAll.2 (Or.inl (h t ht).1), (idOf_insertAll ts (h t ht).1).trans (h t ht).2⟩

/-- What a table becomes in a load is standard. -/
theorem standard_names (d : Definition) (h : names = {} ∨ names.Standard) :
    (d.names names).Standard := by
  rcases h with rfl | h
  · exact standard_standard.insertAll _
  · exact ((h.insertAll _).insertAll _).insertAll _

/-! ### From table to table -/

/-- The id of the same text in another table. An id that has none there is moved past all of that
table, so that different ids stay different. -/
def carry (names names' : NameTable) (a : NameId) : NameId :=
  ((names.text? a).bind names'.find?).getD (names'.size + a)

theorem carry_idOf (h : t ∈ names.texts) (h' : t ∈ names'.texts) :
    names.carry names' (names.idOf t) = names'.idOf t := by
  rw [carry, text?_idOf h, Option.bind_some, find?_of_mem h', Option.getD_some]

theorem carry_cases (names names' : NameTable) (a : NameId) :
    (∃ t ∈ names'.texts, names.text? a = some t ∧ names.carry names' a = names'.idOf t) ∨
      names.carry names' a = names'.size + a := by
  unfold carry
  cases ht : names.text? a with
  | none => exact Or.inr rfl
  | some t =>
    by_cases hmem : t ∈ names'.texts
    · exact Or.inl ⟨t, hmem, rfl, by rw [Option.bind_some, find?_of_mem hmem, Option.getD_some]⟩
    · exact Or.inr (by rw [Option.bind_some, find?_of_not_mem hmem, Option.getD_none])

theorem carry_injective (names names' : NameTable) : Function.Injective (names.carry names') := by
  intro a b hab
  rcases carry_cases names names' a with ⟨t, ht, hta, ha⟩ | ha <;>
    rcases carry_cases names names' b with ⟨u, hu, hub, hb⟩ | hb <;> rw [ha, hb] at hab
  · obtain rfl := (idOf_inj ht hu).1 hab
    exact text?_inj hta hub
  · exact absurd (idOf_lt.2 ht) (Nat.not_lt.2 (hab ▸ Nat.le_add_right ..))
  · exact absurd (idOf_lt.2 hu) (Nat.not_lt.2 (hab ▸ Nat.le_add_right ..))
  · exact Nat.add_left_cancel hab

/-- Both tables know the name, which cannot be mistaken for that of a pin. -/
structure Shares (names names' : NameTable) (t : Text) : Prop where
  known : t ∈ names.texts
  known' : t ∈ names'.texts
  dotless : '.'.toUInt8 ∉ t

end NameTable

namespace Session

/-- The other session has the same circuit, over another table that knows the names of its devices,
and has the same ids for pins. -/
structure Twin (s s' : Session) : Prop where
  pins : ∀ t ∈ PinWord.inputs ++ PinWord.outputs, s'.names.idOf t = s.names.idOf t
  known : ∀ a ∈ s.circuit.devices.ids, ∃ t, s.names.Shares s'.names t ∧ s.names.idOf t = a
  copies : s.circuit.Copies (s.names.carry s'.names) s'.circuit

namespace Twin
variable {s s' : Session} (h : s.Twin s') {a : NameId} {t : Text}

/-- Both circuits after a change of the devices that leaves the ids alone, or of the monitors. -/
theorem of_ids {c c' : Circuit} (h : s.Twin s') (hids : c.devices.ids = s.circuit.devices.ids)
    (hcopies : c.Copies (s.names.carry s'.names) c') :
    Twin { s with circuit := c } { s' with circuit := c' } where
  pins := h.pins
  known := hids ▸ h.known
  copies := hcopies

section
include h

theorem nameOf_carry (ha : a ∈ s.circuit.devices.ids) :
    s'.names.nameOf (s.names.carry s'.names a) = s.names.nameOf a := by
  obtain ⟨t, ⟨ht, ht', -⟩, rfl⟩ := h.known a ha
  rw [NameTable.carry_idOf ht ht', NameTable.nameOf_idOf ht, NameTable.nameOf_idOf ht']

theorem text_carry (ha : a ∈ s.circuit.devices.ids) :
    s'.names.text (s.names.carry s'.names a) = s.names.text a := by
  obtain ⟨t, ⟨ht, ht', -⟩, rfl⟩ := h.known a ha
  rw [NameTable.carry_idOf ht ht', NameTable.text_idOf ht, NameTable.text_idOf ht']

/-- A text that only one of the tables knows is not the name of a device. -/
theorem mem_ids (ha : s.names.idOf t ∈ s.circuit.devices.ids) (ht : t ∈ s.names.texts) :
    t ∈ s'.names.texts := by
  obtain ⟨u, ⟨hu, hu', -⟩, heq⟩ := h.known _ ha
  rwa [← (NameTable.idOf_inj hu ht).1 heq]

theorem mem_ids' (ha : s'.names.idOf t ∈ s'.circuit.devices.ids) (ht : t ∈ s'.names.texts) :
    t ∈ s.names.texts := by
  rw [h.copies.devices, Registry.ids_rename] at ha
  obtain ⟨a, ha, heq⟩ := List.mem_map.1 ha
  obtain ⟨u, ⟨hu, hu', -⟩, rfl⟩ := h.known a ha
  rw [NameTable.carry_idOf hu hu'] at heq
  rwa [← (NameTable.idOf_inj hu' ht).1 heq]

end

/-! ### Names of pins -/

variable (hs : s.Intact) (hs' : s'.Intact)
include h hs hs'

theorem nameOf_pin (ht : t ∈ PinWord.inputs ++ PinWord.outputs) :
    s'.names.nameOf (s.names.idOf t) = s.names.nameOf (s.names.idOf t) := by
  rw [NameTable.nameOf_idOf (hs.knowsPins t ht), ← h.pins t ht,
    NameTable.nameOf_idOf (hs'.knowsPins t ht)]

theorem text_pin (ht : t ∈ PinWord.inputs ++ PinWord.outputs) :
    s'.names.text (s.names.idOf t) = s.names.text (s.names.idOf t) := by
  rw [NameTable.text_idOf (hs.knowsPins t ht), ← h.pins t ht,
    NameTable.text_idOf (hs'.knowsPins t ht)]

end Twin

/-- The name of an input pin, or of an output pin that has one, is a pin word. -/
theorem Intact.exists_word {s : Session} (hs : s.Intact) {d : Device}
    (hd : d ∈ s.circuit.devices.devices) :
    (∀ pin ∈ d.inputs.keys, ∃ t ∈ PinWord.inputs, pin = s.names.idOf t) ∧
      ∀ pin, some pin ∈ d.outputs.keys → ∃ t ∈ PinWord.outputs, pin = s.names.idOf t := by
  have hvalid := hs.valid.devices d hd
  refine ⟨fun pin hpin => ?_, fun pin hpin => ?_⟩
  · obtain ⟨t, ht, rfl⟩ := List.mem_map.1 (hvalid.inputs.mem_iff.1 hpin)
    exact ⟨t, State.mem_inputWords ht, rfl⟩
  · obtain ⟨word, hword, heq⟩ := List.mem_map.1 (hvalid.outputs.mem_iff.1 hpin)
    obtain ⟨t, rfl, ht⟩ := Option.map_eq_some_iff.1 heq
    exact ⟨t, State.mem_outputWords hword, ht.symm⟩

namespace Twin
variable {s s' : Session} (h : s.Twin s') (hs : s.Intact) (hs' : s'.Intact)
include h hs hs'

/-- Outputs go by the same names. -/
theorem label_carry {d : Device} {pin : OutputPin} (hd : d ∈ s.circuit.devices.devices)
    (hpin : pin ∈ d.outputs.keys) :
    s'.names.label (s.names.carry s'.names d.id) pin = s.names.label d.id pin := by
  have hname := h.nameOf_carry (List.mem_map_of_mem hd)
  cases pin with
  | none => exact hname
  | some pin =>
    obtain ⟨t, ht, rfl⟩ := (hs.exists_word hd).2 pin hpin
    rw [NameTable.label, NameTable.label, hname,
      h.nameOf_pin hs hs' (List.mem_append_right _ ht)]

theorem monitor_name {m : Monitor} (hm : m ∈ s.circuit.monitors) :
    (m.rename (s.names.carry s'.names)).name s'.names = m.name s.names := by
  obtain ⟨d, hd, hid, hpin⟩ := hs.monitors m hm
  rw [Monitor.name, Monitor.name, ← hid, ← h.label_carry hs hs' hd hpin, hid]
  rfl

end Twin

end Session

end GateSim
