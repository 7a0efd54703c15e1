import Mathlib.Data.List.TakeWhile
import GateSim.Outline
import GateSim.Proofs.Grammar

/-!
# Outlines of sentences

The outline of a list of symbols has no fault among its notes exactly if the symbols are a sentence
of the grammar, and then its other notes are the statements of the sentence, in order
(`exists_isSentence`, `reads_outline`).
-/

namespace GateSim

open Grammar

namespace Note

/-- Something is out of place. -/
def isFault : Note → Bool
  | .reject .. | .endsEarly => true
  | _ => false

theorem isFault_blame (f : SyntaxFault) (xs : List Symbol) : (blame f xs).isFault = true := by
  cases xs <;> rfl

end Note

/-- Nothing is out of place. -/
def Clean (notes : List Note) : Prop := ∀ n ∈ notes, n.isFault = false

namespace Clean
variable {a b : List Note} {n : Note}

theorem append_iff : Clean (a ++ b) ↔ Clean a ∧ Clean b := by
  simp only [Clean, List.mem_append, or_imp, forall_and]

theorem cons_iff : Clean (n :: a) ↔ n.isFault = false ∧ Clean a := by
  simp only [Clean, List.mem_cons, forall_eq_or_imp]

theorem not_of_mem (hn : n ∈ a) (hf : n.isFault = true) : ¬ Clean a := fun h => by
  simp [h n hn] at hf

end Clean

/-- The notes pass so many symbols, and complete these statements. -/
structure Reads (notes : List Note) (passed : Nat) (statements : List Statement) : Prop where
  passes : notes.countP (· == .pass) = passed
  statements : notes.filter (· != .pass) = statements.map .complete

namespace Reads
variable {a b : List Note} {n m : Nat} {s t : List Statement}

theorem append (h : Reads a n s) (h' : Reads b m t) : Reads (a ++ b) (n + m) (s ++ t) where
  passes := by rw [List.countP_append, h.passes, h'.passes]
  statements := by rw [List.filter_append, h.statements, h'.statements, List.map_append]

theorem nil : Reads [] 0 [] := ⟨rfl, rfl⟩

theorem pass : Reads [.pass] 1 [] := ⟨rfl, rfl⟩

theorem complete (st : Statement) : Reads [.complete st] 0 [st] := ⟨rfl, rfl⟩

theorem passOver (xs : List Symbol) : Reads (Note.passes xs) xs.length [] := by
  induction xs with
  | nil => exact nil
  | cons x xs ih =>
    rw [List.length_cons, Nat.add_comm]
    exact pass.append ih

theorem clean (h : Reads a n s) : Clean a := by
  intro x hx
  by_cases hp : x = .pass
  · rw [hp]; rfl
  · have hmem : x ∈ a.filter (· != .pass) := List.mem_filter.2 ⟨hx, by simpa using hp⟩
    rw [h.statements, List.mem_map] at hmem
    obtain ⟨st, -, rfl⟩ := hmem
    rfl

end Reads

/-! ### Items -/

namespace Item
variable {s : Section} {xs after : List Symbol} {st : Statement}

theorem exists_isStatement (h : Clean (notes s xs after)) : ∃ st, IsStatement s xs st := by
  rw [notes, Clean.append_iff, Clean.append_iff] at h
  obtain ⟨⟨-, h⟩, -⟩ := h
  split at h
  · next st hst =>
    rw [Clean.cons_iff] at h
    split at h
    · next hrest =>
      refine ⟨st, read_eq_complete_iff.1 ?_⟩
      rw [← hst, ← hrest]
    · exact absurd h.2 (Clean.not_of_mem (List.mem_singleton.2 rfl) (Note.isFault_blame ..))
  · exact absurd h (Clean.not_of_mem (List.mem_cons_self ..) (Note.isFault_blame ..))

theorem reads_notes (after : List Symbol) (h : IsStatement s xs st) :
    Reads (notes s xs after) xs.length [st] := by
  have hnotes : notes s xs after = Note.passes xs ++ [.complete st] := by
    simp [notes, read_eq_complete_iff.2 h, Note.passes]
  rw [hnotes]
  exact (Reads.passOver xs).append (.complete st)

end Item

namespace Outline
variable {s : Section} {symbols xs left : List Symbol} {x : Symbol} {sts : List Statement}

/-- The item that comes first, and what comes after the symbol that ends it. -/
theorem items_append (hxs : ∀ y ∈ xs, y.isSeparator = false) (hx : x.isSeparator = true) :
    items s (xs ++ x :: left) =
      if x.type = .comma then
        (Item.notes s xs (x :: left) ++ .pass :: (items s left).1, (items s left).2)
      else if x.type = .semicolon then (Item.notes s xs (x :: left) ++ [.pass], left)
      else (Item.notes s xs (x :: left) ++ [.reject (some x) (.unclosedSection s)], x :: left) := by
  have htake : (xs ++ x :: left).takeWhile (!·.isSeparator) = xs := by
    rw [List.takeWhile_append_of_pos (by simpa using hxs), List.takeWhile_cons_of_neg (by simp [hx]),
      List.append_nil]
  have hdrop : (xs ++ x :: left).dropWhile (!·.isSeparator) = x :: left := by
    rw [List.dropWhile_append_of_pos (by simpa using hxs), List.dropWhile_cons_of_neg (by simp [hx])]
  rw [items]
  split
  · next h => rw [hdrop] at h; simp at h
  · next y rest h =>
    rw [hdrop] at h
    obtain ⟨rfl, rfl⟩ := List.cons.inj h
    rw [htake]

/-- An item that nothing ends. -/
theorem items_of_isSeparator (hxs : ∀ y ∈ xs, y.isSeparator = false) :
    items s xs = (Item.notes s xs [] ++ [.endsEarly], []) := by
  have htake : xs.takeWhile (!·.isSeparator) = xs :=
    List.takeWhile_eq_self_iff.2 (by simpa using hxs)
  have hdrop : xs.dropWhile (!·.isSeparator) = [] :=
    List.dropWhile_eq_nil_iff.2 (by simpa using hxs)
  rw [items]
  split
  · rw [htake]
  · next h =>
    rw [hdrop] at h
    cases h

theorem exists_isItems (h : Clean (items s symbols).1) :
    ∃ xs semicolon sts, symbols = xs ++ semicolon :: (items s symbols).2 ∧
      semicolon.type = .semicolon ∧ IsItems s xs sts := by
  fun_induction items s symbols with
  | case1 symbols item hdrop =>
    exact absurd h (Clean.not_of_mem (List.mem_append_right _ (List.mem_singleton.2 rfl)) rfl)
  | case2 symbols item x rest hdrop notes hx more left hmore ih =>
    rw [Clean.append_iff, Clean.cons_iff] at h
    obtain ⟨st, hst⟩ := Item.exists_isStatement h.1
    obtain ⟨xs, semicolon, sts, hrest, hsemi, hitems⟩ := ih (by rw [hmore]; exact h.2.2)
    refine ⟨item ++ x :: xs, semicolon, st :: sts, ?_, hsemi, .cons hst hx hitems⟩
    rw [hmore] at hrest
    calc symbols = item ++ x :: rest := by rw [← hdrop, List.takeWhile_append_dropWhile]
      _ = item ++ x :: xs ++ semicolon :: left := by rw [hrest]; simp
  | case3 symbols item x rest hdrop notes hcomma hsemi =>
    obtain ⟨st, hst⟩ := Item.exists_isStatement (Clean.append_iff.1 h).1
    refine ⟨item, x, [st], ?_, hsemi, .single hst⟩
    rw [← hdrop, List.takeWhile_append_dropWhile]
  | case4 symbols item x rest hdrop notes hcomma hsemi =>
    exact absurd h (Clean.not_of_mem (List.mem_append_right _ (List.mem_singleton.2 rfl)) rfl)

theorem reads_items (left : List Symbol) (h : IsItems s xs sts) (hx : x.type = .semicolon) :
    Reads (items s (xs ++ x :: left)).1 (xs.length + 1) sts ∧
      (items s (xs ++ x :: left)).2 = left := by
  induction h with
  | single hst =>
    rw [items_append hst.isSeparator (Symbol.isSeparator_of_type (.inr hx)),
      if_neg (by simp [hx]), if_pos hx]
    exact ⟨(Item.reads_notes _ hst).append .pass, rfl⟩
  | @cons xs ys comma st sts hst hcomma _ ih =>
    rw [List.append_assoc, List.cons_append,
      items_append hst.isSeparator (Symbol.isSeparator_of_type (.inl hcomma)), if_pos hcomma]
    refine ⟨?_, ih.2⟩
    have := (Item.reads_notes (comma :: (ys ++ x :: left)) hst).append (.append .pass ih.1)
    simpa [Nat.add_assoc, Nat.add_comm, Nat.add_left_comm] using this

/-! ### Sections -/

theorem part_of_isWord (h : IsWord s x) :
    part s (x :: left) = (.pass :: (afterWord s left).1, (afterWord s left).2) := by
  have hs : s ∈ s.onward := by cases s <;> simp [Section.onward, Section.all]
  have hx : x.section? = some s := Symbol.section?_eq_some_iff.2 h
  have hfound : (x :: left).dropWhile (fun x => !s.onward.any fun t => x.section? == some t) =
      x :: left := by
    rw [List.dropWhile_cons_of_neg]
    simpa [hx] using hs
  simp only [part, hfound]
  simp [hx]

theorem exists_isWord (h : Clean (part s symbols).1) : ∃ x left, symbols = x :: left ∧ IsWord s x := by
  cases symbols with
  | nil => exact absurd h (Clean.not_of_mem (n := .endsEarly) (by simp [part, Note.blame]) rfl)
  | cons x left =>
    refine ⟨x, left, rfl, Symbol.section?_eq_some_iff.1 (Decidable.byContradiction fun hx => ?_)⟩
    refine absurd h (Clean.not_of_mem (n := .reject (some x) (.expectedSection s)) ?_ rfl)
    have hstart : ((x :: left).head?.any fun x => x.section? == some s) = false := by simpa using hx
    unfold part
    simp only [hstart]
    split
    · simp [Note.blame]
    · split <;> simp [Note.blame]

theorem exists_colon (h : Clean (colon s symbols).1) :
    ∃ x left, symbols = x :: left ∧ x.type = .colon := by
  cases symbols with
  | nil => exact absurd h (Clean.not_of_mem (List.mem_singleton.2 rfl) rfl)
  | cons x left =>
    refine ⟨x, left, rfl, Decidable.byContradiction fun hx => ?_⟩
    rw [colon, if_neg hx] at h
    exact absurd h (Clean.not_of_mem (List.mem_singleton.2 rfl) rfl)

theorem exists_content (h : Clean (content s symbols).1) :
    (∃ semicolon, symbols = semicolon :: (content s symbols).2 ∧ semicolon.type = .semicolon ∧
      s ≠ .devices) ∨
    ∃ xs semicolon sts, symbols = xs ++ semicolon :: (content s symbols).2 ∧
      semicolon.type = .semicolon ∧ IsItems s xs sts := by
  cases symbols with
  | nil => exact Or.inr (exists_isItems h)
  | cons x rest =>
    unfold content at h ⊢
    by_cases hx : x.type = .semicolon
    · simp only [if_pos hx] at h ⊢
      refine Or.inl ⟨x, rfl, hx, fun hs => ?_⟩
      rw [if_pos hs] at h
      exact absurd h (Clean.not_of_mem (List.mem_append_left _ (List.mem_singleton.2 rfl)) rfl)
    · simp only [if_neg hx] at h ⊢
      exact Or.inr (exists_isItems h)

theorem exists_isPart (h : Clean (part s symbols).1) :
    ∃ xs sts, symbols = xs ++ (part s symbols).2 ∧ IsPart s xs sts := by
  obtain ⟨word, symbols, rfl, hword⟩ := exists_isWord h
  rw [part_of_isWord hword, Clean.cons_iff, afterWord, Clean.append_iff] at h
  rw [part_of_isWord hword]
  obtain ⟨-, hcolon, hcontent⟩ := h
  obtain ⟨colon, symbols, rfl, hc⟩ := exists_colon hcolon
  simp only [afterWord, Outline.colon, if_pos hc] at hcontent ⊢
  obtain ⟨semicolon, hrest, hsemi, hs⟩ | ⟨xs, semicolon, sts, hrest, hsemi, hitems⟩ :=
    exists_content hcontent
  · refine ⟨[word, colon, semicolon], [], ?_, .empty hs hword hc hsemi⟩
    simpa using hrest
  · refine ⟨word :: colon :: xs ++ [semicolon], sts, ?_, .items hword hc hitems hsemi⟩
    simpa using hrest

/-- Items start with a symbol that ends no section. -/
theorem exists_cons_of_isItems (h : IsItems s xs sts) :
    ∃ y ys, xs = y :: ys ∧ y.isSeparator = false := by
  have hstatement : ∀ {xs st}, IsStatement s xs st → ∃ y ys, xs = y :: ys := by
    intro xs st h
    cases h with
    | device => exact ⟨_, _, rfl⟩
    | connection ho => cases ho <;> exact ⟨_, _, rfl⟩
    | monitor ho => cases ho <;> exact ⟨_, _, rfl⟩
  cases h with
  | single hst =>
    obtain ⟨y, ys, rfl⟩ := hstatement hst
    exact ⟨y, ys, rfl, hst.isSeparator y (List.mem_cons_self ..)⟩
  | cons hst _ _ =>
    obtain ⟨y, ys, rfl⟩ := hstatement hst
    exact ⟨y, _, rfl, hst.isSeparator y (List.mem_cons_self ..)⟩

theorem reads_part (left : List Symbol) (h : IsPart s xs sts) :
    Reads (part s (xs ++ left)).1 xs.length sts ∧ (part s (xs ++ left)).2 = left := by
  cases h with
  | @items word colon semicolon xs _ hword hc hitems hsemi =>
    obtain ⟨y, ys, rfl, hy⟩ := exists_cons_of_isItems hitems
    have hne : y.type ≠ .semicolon := fun h => by
      simp [Symbol.isSeparator_of_type (.inr h)] at hy
    have hread := reads_items left hitems hsemi
    have hpart : part s (word :: colon :: (y :: ys) ++ [semicolon] ++ left) =
        (.pass :: .pass :: (Outline.items s (y :: ys ++ semicolon :: left)).1,
          (Outline.items s (y :: ys ++ semicolon :: left)).2) := by
      simp [part_of_isWord hword, afterWord, Outline.colon, hc, content, hne]
    rw [hpart]
    refine ⟨?_, hread.2⟩
    have := (Reads.pass.append .pass).append hread.1
    simpa [Nat.add_assoc, Nat.add_comm, Nat.add_left_comm] using this
  | @empty word colon semicolon hs hword hc hsemi =>
    have hpart : part s ([word, colon, semicolon] ++ left) = ([.pass, .pass, .pass], left) := by
      simp [part_of_isWord hword, afterWord, Outline.colon, hc, content, hsemi, hs]
    rw [hpart]
    exact ⟨⟨rfl, rfl⟩, rfl⟩

theorem exists_of_clean_close (h : Clean (close symbols)) :
    ∃ word semicolon, symbols = [word, semicolon] ∧ IsWord .close word ∧
      semicolon.type = .semicolon := by
  match symbols with
  | [] => exact absurd h (Clean.not_of_mem (List.mem_singleton.2 rfl) rfl)
  | word :: rest =>
    by_cases hword : word.section? = some .close
    case neg =>
      simp only [close, if_neg hword] at h
      exact absurd h (Clean.not_of_mem (List.mem_singleton.2 rfl) rfl)
    simp only [close, if_pos hword, Clean.cons_iff] at h
    match rest with
    | [] => exact absurd h.2 (Clean.not_of_mem (List.mem_singleton.2 rfl) rfl)
    | semicolon :: rest =>
      by_cases hsemi : semicolon.type = .semicolon
      case neg =>
        simp only [if_neg hsemi] at h
        exact absurd h.2 (Clean.not_of_mem (List.mem_singleton.2 rfl) rfl)
      simp only [if_pos hsemi, Clean.cons_iff] at h
      match rest with
      | [] => exact ⟨word, semicolon, rfl, Symbol.section?_eq_some_iff.1 hword, hsemi⟩
      | x :: rest =>
        exact absurd h.2.2 (Clean.not_of_mem (List.mem_singleton.2 rfl) (Note.isFault_blame ..))

theorem reads_close {word semicolon : Symbol} (hword : IsWord .close word)
    (hsemi : semicolon.type = .semicolon) : Reads (close [word, semicolon]) 2 [] := by
  simp only [close, Symbol.section?_eq_some_iff.2 hword, if_true, if_pos hsemi]
  exact ⟨rfl, rfl⟩

/-! ### Sentences -/

theorem exists_isSentence (h : Clean (outline symbols)) : ∃ sts, IsSentence symbols sts := by
  simp only [outline, Clean.append_iff] at h
  obtain ⟨⟨⟨hdevices, hconnect⟩, hmonitor⟩, hclose⟩ := h
  obtain ⟨xs, ds, hxs, hds⟩ := exists_isPart hdevices
  obtain ⟨ys, cs, hys, hcs⟩ := exists_isPart hconnect
  obtain ⟨zs, ms, hzs, hms⟩ := exists_isPart hmonitor
  obtain ⟨word, semicolon, hend, hword, hsemi⟩ := exists_of_clean_close hclose
  have hsymbols : symbols = xs ++ ys ++ zs ++ [word, semicolon] := by
    rw [hxs, hys, hzs, hend]
    simp
  exact ⟨ds ++ cs ++ ms, hsymbols ▸ .mk hds hcs hms hword hsemi⟩

theorem reads_outline (h : IsSentence symbols sts) : Reads (outline symbols) symbols.length sts := by
  obtain @⟨xs, ys, zs, ds, cs, ms, word, semicolon, hds, hcs, hms, hword, hsemi⟩ := h
  obtain ⟨hdevices, hleft⟩ := reads_part (ys ++ (zs ++ [word, semicolon])) hds
  obtain ⟨hconnect, hleft'⟩ := reads_part (zs ++ [word, semicolon]) hcs
  obtain ⟨hmonitor, hleft''⟩ := reads_part [word, semicolon] hms
  simp only [outline, List.append_assoc, hleft, hleft', hleft'']
  have := ((hdevices.append hconnect).append hmonitor).append (reads_close hword hsemi)
  simpa [Nat.add_assoc] using this

end Outline

end GateSim
