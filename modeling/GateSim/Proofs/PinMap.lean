import Mathlib.Logic.Function.Defs
import GateSim.PinMap

/-!
# Ascending pin maps

A pin map that lists its pins in the order of their ranks is fixed by what is known of each pin
(`PinMap.Ascending.ext`). `put` keeps the order and adds a key only if there is none.
-/

namespace GateSim

class LawfulPinRank (κ : Type) [PinRank κ] : Prop where
  rank_inj : ∀ {k k' : κ}, PinRank.rank k = PinRank.rank k' → k = k'

instance : LawfulPinRank NameId := ⟨fun h => h⟩

instance : LawfulPinRank OutputPin where
  rank_inj {k k'} h := by cases k <;> cases k' <;> simp_all [PinRank.rank]

namespace PinMap

variable {κ α : Type}

def keys (m : PinMap κ α) : List κ := m.map (·.1)

def Ascending [PinRank κ] (m : PinMap κ α) : Prop :=
  m.keys.Pairwise fun k k' => PinRank.rank k < PinRank.rank k'

@[simp] theorem keys_nil : keys ([] : PinMap κ α) = [] := rfl

@[simp] theorem keys_cons (e : κ × α) (m : PinMap κ α) : keys (e :: m) = e.1 :: keys m := rfl

section
variable [BEq κ] [LawfulBEq κ]

theorem get?_cons (e : κ × α) (m : PinMap κ α) (pin : κ) :
    get? (e :: m) pin = if pin == e.1 then some e.2 else get? m pin := by
  unfold get?; rw [List.lookup_cons]; split <;> simp_all

theorem contains_iff {m : PinMap κ α} {pin : κ} : m.contains pin = true ↔ pin ∈ m.keys := by
  induction m with
  | nil => simp [contains]
  | cons e m ih =>
    obtain ⟨k, a⟩ := e
    simp only [contains, get?_cons, keys_cons, List.mem_cons]
    by_cases h : pin == k
    · simp_all
    · simp only [h, Bool.false_eq_true, ↓reduceIte]
      rw [beq_iff_eq] at h
      exact ih.trans (by simp [h])

theorem get?_eq_none_iff {m : PinMap κ α} {pin : κ} : m.get? pin = none ↔ pin ∉ m.keys := by
  rw [← contains_iff, contains]; cases m.get? pin <;> simp

theorem get?_map {β : Type} (g : α → β) (m : PinMap κ α) (pin : κ) :
    get? (m.map fun e => (e.1, g e.2)) pin = (m.get? pin).map g := by
  induction m with
  | nil => rfl
  | cons e m ih =>
    rw [List.map_cons, get?_cons, get?_cons, ih]
    split <;> rfl

theorem mem_of_get? {m : PinMap κ α} {pin : κ} {a : α} (h : m.get? pin = some a) :
    (pin, a) ∈ m := by
  induction m with
  | nil => simp at h
  | cons e m ih =>
    obtain ⟨k, b⟩ := e
    rw [get?_cons] at h
    split at h
    · simp_all
    · exact List.mem_cons_of_mem _ (ih h)

end

namespace Ascending
variable [PinRank κ] {m : PinMap κ α}

theorem nil : Ascending ([] : PinMap κ α) := List.Pairwise.nil

theorem tail {e : κ × α} (h : Ascending (e :: m)) : m.Ascending := (List.pairwise_cons.1 h).2

theorem rank_lt {e : κ × α} (h : Ascending (e :: m)) {k : κ} (hk : k ∈ m.keys) :
    PinRank.rank e.1 < PinRank.rank k :=
  (List.pairwise_cons.1 h).1 k hk

theorem notMem_tail {e : κ × α} (h : Ascending (e :: m)) : e.1 ∉ m.keys :=
  fun hk => Nat.lt_irrefl _ (h.rank_lt hk)

theorem nodup_keys (h : m.Ascending) : m.keys.Nodup := by
  induction m with
  | nil => exact List.nodup_nil
  | cons e m ih => exact List.nodup_cons.2 ⟨h.notMem_tail, ih h.tail⟩

variable [BEq κ] [LawfulBEq κ]

theorem get?_of_mem (h : m.Ascending) {pin : κ} {a : α} (hm : (pin, a) ∈ m) :
    m.get? pin = some a := by
  induction m with
  | nil => simp at hm
  | cons e m ih =>
    obtain ⟨k, b⟩ := e
    rw [get?_cons]
    rcases List.mem_cons.1 hm with heq | htl
    · cases heq; simp
    · have hne : pin ≠ k := by
        rintro rfl
        exact h.notMem_tail (List.mem_map.2 ⟨_, htl, rfl⟩)
      simp [hne, ih h.tail htl]

theorem ext [LawfulPinRank κ] {m' : PinMap κ α} (h : m.Ascending) (h' : m'.Ascending)
    (heq : ∀ pin, m.get? pin = m'.get? pin) : m = m' := by
  induction m generalizing m' with
  | nil =>
    cases m' with
    | nil => rfl
    | cons e m' => have := heq e.1; rw [get?_nil, get?_cons] at this; simp at this
  | cons e m ih =>
    cases m' with
    | nil => have := heq e.1; rw [get?_nil, get?_cons] at this; simp at this
    | cons e' m' =>
      obtain ⟨k, a⟩ := e
      obtain ⟨k', a'⟩ := e'
      have hk : k = k' := by
        have h1 : k ∈ keys ((k', a') :: m') := by
          rw [← contains_iff, contains, ← heq k]; simp [get?_cons]
        have h2 : k' ∈ keys ((k, a) :: m) := by
          rw [← contains_iff, contains, heq k']; simp [get?_cons]
        -- the least key of each map is a key of the other
        rcases List.mem_cons.1 h1 with h1 | h1
        · exact h1
        rcases List.mem_cons.1 h2 with h2 | h2
        · exact h2.symm
        exact absurd (h.rank_lt h2) (Nat.lt_asymm (h'.rank_lt h1))
      subst hk
      have ha : a = a' := by simpa [get?_cons] using heq k
      subst ha
      congr 1
      refine ih h.tail h'.tail fun pin => ?_
      by_cases hp : pin = k
      · subst hp
        rw [get?_eq_none_iff.2 h.notMem_tail, get?_eq_none_iff.2 h'.notMem_tail]
      · have := heq pin
        rwa [get?_cons, get?_cons, if_neg (by simpa using hp), if_neg (by simpa using hp)] at this

end Ascending

/-! ### Setting entries -/

section
variable [BEq κ] [LawfulBEq κ] [PinRank κ] {m : PinMap κ α} {pin : κ} {a : α}

theorem mem_keys_put {k : κ} : k ∈ (m.put pin a).keys ↔ k = pin ∨ k ∈ m.keys := by
  rw [← contains_iff, ← contains_iff, contains, contains, get?_put]
  by_cases h : k == pin <;> simp_all

variable [LawfulPinRank κ]

theorem Ascending.put (h : m.Ascending) (pin : κ) (a : α) : (m.put pin a).Ascending := by
  induction m with
  | nil => exact List.pairwise_singleton _ _
  | cons e m ih =>
    obtain ⟨k, b⟩ := e
    rw [PinMap.put]
    split
    · next heq => rw [beq_iff_eq] at heq; subst heq; exact h
    split
    · next hlt =>
      refine List.pairwise_cons.2 ⟨fun k' hk' => ?_, h⟩
      rcases List.mem_cons.1 hk' with rfl | hk'
      · exact hlt
      · exact Nat.lt_trans hlt (h.rank_lt hk')
    · next hne hlt =>
      refine List.pairwise_cons.2 ⟨fun k' hk' => ?_, ih h.tail⟩
      rcases mem_keys_put.1 hk' with rfl | hk'
      · have hr : PinRank.rank k ≠ PinRank.rank k' := fun hr =>
          hne (by simp [LawfulPinRank.rank_inj hr])
        show PinRank.rank k < PinRank.rank k'
        omega
      · exact h.rank_lt hk'

omit [LawfulPinRank κ] in
theorem Ascending.keys_put (h : m.Ascending) (hp : pin ∈ m.keys) :
    (m.put pin a).keys = m.keys := by
  induction m with
  | nil => simp at hp
  | cons e m ih =>
    obtain ⟨k, b⟩ := e
    rw [PinMap.put]
    split
    · next heq => rw [beq_iff_eq] at heq; rw [keys_cons, keys_cons, heq]
    · next hne =>
      have hm : pin ∈ keys m := by
        rcases List.mem_cons.1 hp with rfl | hm
        · simp at hne
        · exact hm
      have hlt : ¬ PinRank.rank pin < PinRank.rank k := Nat.lt_asymm (h.rank_lt hm)
      rw [if_neg hlt, keys_cons, keys_cons, ih h.tail hm]

theorem Ascending.put_eq_self (h : m.Ascending) (hp : m.get? pin = some a) : m.put pin a = m := by
  refine (h.put pin a).ext h fun k => ?_
  rw [get?_put]
  split
  · next heq => rw [beq_iff_eq] at heq; rw [heq, hp]
  · rfl

theorem Ascending.putAll (h : m.Ascending) (entries : List (κ × α)) :
    (m.putAll entries).Ascending := by
  unfold PinMap.putAll
  induction entries generalizing m with
  | nil => exact h
  | cons e es ih => exact ih (h.put e.1 e.2)

end

section
variable [BEq κ] [LawfulBEq κ] [PinRank κ] {m : PinMap κ α}

/-- What was not set is as before; of entries for the same pin the last one counts. -/
theorem get?_putAll (entries : List (κ × α)) (pin : κ) :
    (m.putAll entries).get? pin = (entries.reverse.lookup pin).or (m.get? pin) := by
  unfold PinMap.putAll
  induction entries generalizing m with
  | nil => simp
  | cons e es ih =>
    rw [List.foldl_cons, ih, get?_put, List.reverse_cons, List.lookup_append, List.lookup_cons]
    cases es.reverse.lookup pin <;> by_cases h : pin == e.1 <;> simp [h]

theorem mem_keys_putAll {entries : List (κ × α)} {k : κ} :
    k ∈ (m.putAll entries).keys ↔ k ∈ entries.map (·.1) ∨ k ∈ m.keys := by
  unfold PinMap.putAll
  induction entries generalizing m with
  | nil => simp
  | cons e es ih =>
    rw [List.foldl_cons, ih, mem_keys_put, List.map_cons, List.mem_cons]
    grind

theorem map_putAll {β : Type} (g : α → β) (entries : List (κ × α)) (m : PinMap κ α) :
    (m.putAll entries).map (fun e => (e.1, g e.2)) =
      putAll (entries.map fun e => (e.1, g e.2)) (m.map fun e => (e.1, g e.2)) := by
  have hput : ∀ (m : PinMap κ α) (k : κ) (a : α), (m.put k a).map (fun e => (e.1, g e.2)) =
      put k (g a) (m.map fun e => (e.1, g e.2)) := by
    intro m k a
    fun_induction put k a m <;> simp_all [put]
  unfold PinMap.putAll
  induction entries generalizing m with
  | nil => rfl
  | cons e es ih => rw [List.foldl_cons, ih, hput, List.map_cons, List.foldl_cons]

/-! ### Tables of pins -/

variable {ι : Type} {l : List ι} {k : ι → κ} {v w : ι → α} {i : ι}

theorem get?_putAll_map (hk : ∀ j ∈ l, k j = k i → j = i) (hi : i ∈ l) :
    (putAll (l.map fun j => (k j, v j)) []).get? (k i) = some (v i) := by
  have hmem : k i ∈ (putAll (l.map fun j => (k j, v j)) ([] : PinMap κ α)).keys := by
    rw [mem_keys_putAll, List.map_map]
    exact Or.inl (List.mem_map_of_mem hi)
  obtain ⟨a, ha⟩ := Option.isSome_iff_exists.1 (contains_iff.2 hmem)
  rw [ha]
  rw [get?_putAll, get?_nil, Option.or_none] at ha
  obtain ⟨j, hj, heq⟩ := List.mem_map.1 (List.mem_reverse.1 (mem_of_get? ha))
  obtain ⟨hkj, rfl⟩ := Prod.mk.inj heq
  rw [hk j hj hkj]

theorem put_putAll_map [LawfulPinRank κ] {a : α} (hk : ∀ j ∈ l, ∀ j' ∈ l, k j = k j' → j = j')
    (hi : i ∈ l) (ha : w i = a) (h : ∀ j ∈ l, j ≠ i → w j = v j) :
    (putAll (l.map fun j => (k j, v j)) []).put (k i) a = putAll (l.map fun j => (k j, w j)) [] := by
  refine ((Ascending.nil.putAll _).put _ _).ext (Ascending.nil.putAll _) fun pin => ?_
  by_cases hpin : ∃ j ∈ l, k j = pin
  · obtain ⟨j, hj, rfl⟩ := hpin
    rw [get?_put, get?_putAll_map (fun j' hj' => hk j' hj' j hj) hj,
      get?_putAll_map (fun j' hj' => hk j' hj' j hj) hj]
    by_cases hij : j = i
    · rw [hij, ha, beq_self_eq_true, if_pos rfl]
    · rw [h j hj hij, if_neg fun heq => hij (hk j hj i hi (eq_of_beq heq))]
  · have hkeys : ∀ u : ι → α, pin ∉ (putAll (l.map fun j => (k j, u j)) ([] : PinMap κ α)).keys := by
      intro u hm
      rw [mem_keys_putAll, List.map_map] at hm
      obtain ⟨j, hj, hkj⟩ := List.mem_map.1 (hm.resolve_right List.not_mem_nil)
      exact hpin ⟨j, hj, hkj⟩
    have hne : ¬ (pin == k i) = true := fun heq => hpin ⟨i, hi, (eq_of_beq heq).symm⟩
    rw [get?_put, if_neg hne, get?_eq_none_iff.2 (hkeys v), get?_eq_none_iff.2 (hkeys w)]

end

/-! ### Other keys -/

/-- The entries under other keys, in the order of these. -/
def relabel [BEq κ] [PinRank κ] (f : κ → κ) (g : α → α) (m : PinMap κ α) : PinMap κ α :=
  m.foldr (fun e m => m.put (f e.1) (g e.2)) []

section
variable [BEq κ] [LawfulBEq κ] [PinRank κ] {f : κ → κ} (g : α → α) (m : PinMap κ α)

theorem get?_relabel (hf : Function.Injective f) (pin : κ) :
    (m.relabel f g).get? (f pin) = (m.get? pin).map g := by
  induction m with
  | nil => rfl
  | cons e m ih =>
    have hbeq : (f pin == f e.1) = (pin == e.1) := by
      rw [Bool.eq_iff_iff, beq_iff_eq, beq_iff_eq, hf.eq_iff]
    rw [relabel, List.foldr_cons, get?_put, get?_cons, hbeq]
    split
    · rfl
    · exact ih

theorem exists_of_mem_keys_relabel {pin : κ} (h : pin ∈ (m.relabel f g).keys) : ∃ k, f k = pin := by
  induction m with
  | nil => cases h
  | cons e m ih => exact (mem_keys_put.1 h).elim (fun heq => ⟨e.1, heq.symm⟩) ih

/-- A new entry is put somewhere among the others. -/
theorem perm_put {pin : κ} {a : α} (h : pin ∉ m.keys) : (m.put pin a).Perm ((pin, a) :: m) := by
  induction m with
  | nil => exact .refl _
  | cons e m ih =>
    rw [keys_cons, List.mem_cons, not_or] at h
    obtain ⟨hne, hmem⟩ := h
    rw [put, if_neg fun heq => hne (eq_of_beq heq).symm]
    split
    · exact .refl _
    · exact ((ih hmem).cons e).trans (List.Perm.swap ..)

theorem relabel_perm {m : PinMap κ α} (hf : Function.Injective f) (h : m.Ascending) :
    (m.relabel f g).Perm (m.map fun e => (f e.1, g e.2)) := by
  induction m with
  | nil => exact .refl _
  | cons e m ih =>
    refine (perm_put _ fun hmem => ?_).trans ((ih h.tail).cons _)
    obtain ⟨_, he, heq⟩ := List.mem_map.1 hmem
    obtain ⟨e', he', rfl⟩ := List.mem_map.1 ((ih h.tail).subset he)
    exact h.notMem_tail (hf heq ▸ List.mem_map_of_mem he')

variable [LawfulPinRank κ]

theorem ascending_relabel : (m.relabel f g).Ascending := by
  induction m with
  | nil => exact .nil
  | cons e m ih => exact ih.put _ _

theorem relabel_put (hf : Function.Injective f) (pin : κ) (a : α) :
    (m.put pin a).relabel f g = (m.relabel f g).put (f pin) (g a) := by
  refine (ascending_relabel g _).ext ((ascending_relabel g m).put _ _) fun k => ?_
  by_cases hk : ∃ j, f j = k
  · obtain ⟨j, rfl⟩ := hk
    have hbeq : (f j == f pin) = (j == pin) := by
      rw [Bool.eq_iff_iff, beq_iff_eq, beq_iff_eq, hf.eq_iff]
    rw [get?_relabel g _ hf, get?_put, get?_put, get?_relabel g _ hf, hbeq]
    split <;> rfl
  · have hnone : ∀ m : PinMap κ α, (m.relabel f g).get? k = none := fun m =>
      get?_eq_none_iff.2 fun hmem => hk (exists_of_mem_keys_relabel g m hmem)
    have hne : ¬ (k == f pin) = true := fun heq => hk ⟨pin, (eq_of_beq heq).symm⟩
    rw [hnone, get?_put, if_neg hne, hnone]

end

end PinMap

end GateSim
