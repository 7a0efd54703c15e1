import GateSim.Pin
import GateSim.Proofs.Interning

/-!
# Ids of pin words

Texts that a table has seen have different ids, so a table that has seen the pin words tells all
pins apart.
-/

namespace GateSim

namespace NameTable
variable {names : NameTable}

def KnowsPins (names : NameTable) : Prop :=
  ∀ t ∈ PinWord.inputs ++ PinWord.outputs, t ∈ names.texts

theorem knowsPins_insertPins : names.insertPins.KnowsPins :=
  fun _ ht => mem_insertAll.2 (Or.inr ht)

theorem KnowsPins.insertAll (h : names.KnowsPins) (ts : List Text) :
    (names.insertAll ts).KnowsPins :=
  fun t ht => mem_insertAll.2 (Or.inl (h t ht))

theorem KnowsPins.insertPins_eq (h : names.KnowsPins) : names.insertPins = names :=
  insertAll_eq_self h

end NameTable

namespace Pins

def flipFlopInputs (pins : Pins) : List NameId := [pins.data, pins.clk, pins.set, pins.clear]

theorem ofNames_congr {names names' : NameTable}
    (h : ∀ t ∈ PinWord.inputs ++ PinWord.outputs, names'.idOf t = names.idOf t) :
    ofNames names' = ofNames names := by
  simp only [PinWord.inputs, PinWord.outputs, List.forall_mem_append, List.forall_mem_cons] at h
  obtain ⟨⟨hgates, hdata, hclk, hset, hclear, -⟩, hq, hqbar, -⟩ := h
  simp only [ofNames, hdata, hclk, hset, hclear, hq, hqbar, List.map_congr_left hgates]

/-- The ids of the pin words are kept when more texts are seen. -/
theorem ofNames_insertAll {names : NameTable} (h : names.KnowsPins) (ts : List Text) :
    ofNames (names.insertAll ts) = ofNames names :=
  ofNames_congr fun t ht => NameTable.idOf_insertAll ts (h t ht)

/-- Different pins have different ids. -/
structure Distinct (pins : Pins) : Prop where
  inputs : (pins.gateInputs ++ pins.flipFlopInputs).Nodup
  outputs : pins.q ≠ pins.qbar

theorem nodup_words : (PinWord.inputs ++ PinWord.outputs).Nodup := by decide +kernel

theorem inputs_ofNames (names : NameTable) :
    (ofNames names).gateInputs ++ (ofNames names).flipFlopInputs =
      PinWord.inputs.map names.idOf := rfl

theorem distinct_ofNames {names : NameTable} (h : names.KnowsPins) :
    (ofNames names).Distinct := by
  obtain ⟨hin, hout, -⟩ := List.nodup_append.1 nodup_words
  refine ⟨?_, fun heq => ?_⟩
  · rw [inputs_ofNames]
    exact (NameTable.nodup_map_idOf fun t ht => h t (List.mem_append_left _ ht)).2 hin
  · have hq : PinWord.q ∈ names.texts := h _ (List.mem_append_right _ (by simp [PinWord.outputs]))
    have hqbar : PinWord.qbar ∈ names.texts :=
      h _ (List.mem_append_right _ (by simp [PinWord.outputs]))
    exact absurd ((NameTable.idOf_inj hq hqbar).1 heq) (by decide)

theorem Distinct.gateInputs {pins : Pins} (h : pins.Distinct) : pins.gateInputs.Nodup :=
  (List.nodup_append.1 h.inputs).1

theorem Distinct.flipFlopInputs {pins : Pins} (h : pins.Distinct) : pins.flipFlopInputs.Nodup :=
  (List.nodup_append.1 h.inputs).2.1

end Pins

end GateSim
