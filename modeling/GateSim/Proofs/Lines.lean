import Mathlib.Data.List.Basic
import GateSim.Text

/-!
# Lines

The lines of a text that is put together are the lines of its parts, if each part but the last ends
in a newline (`Text.inputLines_append`). A last line counts with or without a newline of its own,
unless it is empty.
-/

namespace GateSim

namespace Text
variable {p : Byte → Bool}

/-! ### Pieces -/

theorem splitWhere_ne_nil (p : Byte → Bool) (t : Text) : splitWhere p t ≠ [] := by
  cases t with
  | nil => exact List.cons_ne_nil _ _
  | cons b t =>
    rw [splitWhere]
    split
    · exact List.cons_ne_nil _ _
    · split <;> exact List.cons_ne_nil _ _

theorem splitWhere_append {b : Byte} (hb : p b = true) (t u : Text) :
    splitWhere p (t ++ b :: u) = splitWhere p t ++ splitWhere p u := by
  induction t with
  | nil =>
    obtain ⟨piece, pieces, heq⟩ := List.exists_cons_of_ne_nil (splitWhere_ne_nil p u)
    simp only [List.nil_append, splitWhere, heq, if_pos hb, List.singleton_append]
  | cons c t ih =>
    obtain ⟨piece, pieces, heq⟩ := List.exists_cons_of_ne_nil (splitWhere_ne_nil p t)
    rw [List.cons_append, splitWhere, ih, splitWhere, heq]
    simp only [List.cons_append]
    split <;> rfl

theorem splitWhere_eq_singleton {t : Text} (ht : ∀ b ∈ t, p b = false) : splitWhere p t = [t] := by
  induction t with
  | nil => rfl
  | cons b t ih =>
    obtain ⟨hb, ht⟩ := List.forall_mem_cons.1 ht
    simp only [splitWhere, ih ht, hb, Bool.false_eq_true, if_false]

/-- No byte of a piece ends a piece. -/
theorem eq_false_of_mem_splitWhere {t piece : Text} (h : piece ∈ splitWhere p t) :
    ∀ b ∈ piece, p b = false := by
  induction t generalizing piece with
  | nil =>
    rw [List.mem_singleton.1 h]
    exact fun b hb => absurd hb List.not_mem_nil
  | cons c t ih =>
    obtain ⟨first, pieces, heq⟩ := List.exists_cons_of_ne_nil (splitWhere_ne_nil p t)
    rw [heq] at ih
    simp only [splitWhere, heq] at h
    split at h
    · rcases List.mem_cons.1 h with rfl | h
      · exact fun b hb => absurd hb List.not_mem_nil
      · exact ih h
    · next hc =>
      rcases List.mem_cons.1 h with rfl | h
      · exact List.forall_mem_cons.2 ⟨Bool.eq_false_iff.2 hc, ih (List.mem_cons_self ..)⟩
      · exact ih (List.mem_cons_of_mem _ h)

/-- The last piece ends in the last byte, if that does not end a piece. -/
theorem getLast?_splitWhere_concat {b : Byte} (hb : p b = false) (t : Text) :
    (splitWhere p (t ++ [b])).getLast? ≠ some [] := by
  induction t with
  | nil => simp [splitWhere, hb]
  | cons c t ih =>
    obtain ⟨piece, pieces, heq⟩ := List.exists_cons_of_ne_nil (splitWhere_ne_nil p (t ++ [b]))
    rw [List.cons_append, splitWhere, heq]
    rw [heq] at ih
    dsimp only
    cases pieces with
    | nil =>
      -- a single piece only grows
      have hpiece : piece ≠ [] := by simpa using ih
      split <;> simp [hpiece]
    | cons next pieces => split <;> simpa using ih

theorem newline_notMem_of_mem_words {t word : Text} (h : word ∈ words t) : Byte.newline ∉ word :=
  fun hnewline =>
    absurd (eq_false_of_mem_splitWhere (List.mem_filter.1 h).1 _ hnewline) (by decide)

/-! ### Lines -/

theorem lines_append (t u : Text) : lines (t ++ Byte.newline :: u) = lines t ++ lines u :=
  splitWhere_append rfl t u

/-- Rows that are each ended by a newline are the lines of a text. -/
theorem lines_flatMap {α : Type} {l : List α} {row : α → Text}
    (h : ∀ a ∈ l, Byte.newline ∉ row a) :
    lines (l.flatMap fun a => row a ++ [Byte.newline]) = l.map row ++ [[]] := by
  induction l with
  | nil => rfl
  | cons a l ih =>
    obtain ⟨ha, hl⟩ := List.forall_mem_cons.1 h
    have hrow : lines (row a) = [row a] := splitWhere_eq_singleton fun b hb =>
      beq_eq_false_iff_ne.2 fun heq => ha (heq ▸ hb)
    rw [List.flatMap_cons, List.append_assoc, List.singleton_append, lines_append, ih hl, hrow]
    rfl

theorem inputLines_append_newline (t u : Text) :
    inputLines (t ++ Byte.newline :: u) = lines t ++ inputLines u := by
  have hne : lines u ≠ [] := splitWhere_ne_nil _ u
  have hlast : (lines t ++ lines u).getLast? = (lines u).getLast? :=
    List.getLast?_append_of_ne_nil _ hne
  simp only [inputLines, lines_append, hlast]
  split
  · exact List.dropLast_append_of_ne_nil hne
  · rfl

/-- The text is empty or its last line is complete. -/
def EndsLine (t : Text) : Prop := t = [] ∨ t.getLast? = some Byte.newline

/-- What follows a complete line does not change it. -/
theorem inputLines_append {t : Text} (h : t.EndsLine) (u : Text) :
    inputLines (t ++ u) = inputLines t ++ inputLines u := by
  rcases h with rfl | h
  · rfl
  · obtain ⟨t, rfl⟩ := List.getLast?_eq_some_iff.1 h
    have hnone : inputLines [] = [] := rfl
    rw [List.append_assoc, List.singleton_append, inputLines_append_newline,
      inputLines_append_newline, hnone, List.append_nil]

/-- A last line that is not complete counts as if it were. -/
theorem inputLines_concat_newline {t : Text} (h : ¬ t.EndsLine) :
    inputLines (t ++ [Byte.newline]) = inputLines t := by
  obtain ⟨hne, hlast⟩ := not_or.1 h
  obtain ⟨t, b, rfl⟩ := (List.eq_nil_or_concat' t).resolve_left hne
  have hb : (b == Byte.newline) = false :=
    beq_eq_false_iff_ne.2 fun heq => hlast (by rw [heq, List.getLast?_concat])
  have hsplit : (lines (t ++ [b])).getLast? ≠ some [] :=
    getLast?_splitWhere_concat (p := (· == Byte.newline)) hb t
  have hnone : inputLines [] = [] := rfl
  rw [inputLines_append_newline, hnone, List.append_nil, inputLines, if_neg hsplit]

end Text

end GateSim
