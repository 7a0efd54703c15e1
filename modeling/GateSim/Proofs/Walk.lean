import GateSim.Proofs.FirstFault

/-!
# Walks along symbols

The notes of an outline go along its symbols (`Walks`, `Outline.walks_outline`): a fault is noted at the
symbol at hand, and a statement after its symbols have been passed. So the first fault of an outline
is at the first symbol that has not been passed before it, and no fault comes after one at the end of the
file but at the end of the file.
-/

namespace GateSim

open Grammar

/-- Notes on symbols, some of which have been passed. The others are ahead, up to those that are
left in the end. -/
inductive Walks : List Symbol → List Symbol → List Note → List Symbol → Prop
  | nil {passed ahead : List Symbol} : Walks passed ahead [] ahead
  | pass {passed ahead left : List Symbol} {x : Symbol} {notes : List Note} :
      Walks (passed ++ [x]) ahead notes left → Walks passed (x :: ahead) (.pass :: notes) left
  | reject {passed ahead left : List Symbol} {fault : SyntaxFault} {notes : List Note} :
      Walks passed ahead notes left →
      Walks passed ahead (.reject ahead.head? fault :: notes) left
  | endsEarly {passed left : List Symbol} {notes : List Note} :
      Walks passed [] notes left → Walks passed [] (.endsEarly :: notes) left
  | abandon {passed ahead left : List Symbol} {name : Symbol} {notes : List Note} :
      name ∈ passed → IsName name → Walks passed ahead notes left →
      Walks passed ahead (.abandon name :: notes) left
  | complete {passed ahead left xs : List Symbol} {s : Section} {st : Statement}
      {notes : List Note} : IsStatement s xs st → xs ⊆ passed → Walks passed ahead notes left →
      Walks passed ahead (.complete st :: notes) left

namespace Walks
variable {passed ahead left left' xs : List Symbol} {notes a b : List Note} {x : Symbol}

theorem append (h : Walks passed ahead a left) (h' : ∀ passed, Walks passed left b left') :
    Walks passed ahead (a ++ b) left' := by
  induction h with
  | nil => exact h' _
  | pass _ ih => exact .pass (ih h')
  | reject _ ih => exact .reject (ih h')
  | endsEarly _ ih => exact .endsEarly (ih h')
  | abandon hname hpassed _ ih => exact .abandon hname hpassed (ih h')
  | complete hst hpassed _ ih => exact .complete hst hpassed (ih h')

theorem passOver (h : Walks (passed ++ xs) ahead notes left) :
    Walks passed (xs ++ ahead) (Note.passes xs ++ notes) left := by
  induction xs generalizing passed with
  | nil => simpa [Note.passes] using h
  | cons x xs ih =>
    refine .pass (ih ?_)
    rwa [List.append_assoc, List.singleton_append]

theorem passes (passed xs ahead : List Symbol) :
    Walks passed (xs ++ ahead) (Note.passes xs) ahead := by
  rw [← List.append_nil (Note.passes xs)]
  exact Walks.nil.passOver

theorem blame (fault : SyntaxFault) (h : Walks passed ahead notes left) :
    Walks passed ahead (Note.blame fault ahead :: notes) left := by
  cases ahead with
  | nil => exact .endsEarly h
  | cons x ahead => exact .reject h

end Walks

/-! ### Outlines -/

namespace Item
variable {s : Section} {item : List Symbol}

theorem walks_notes (hs : s ≠ .close) (passed item after : List Symbol) :
    Walks passed (item ++ after) (notes s item after) after := by
  obtain ⟨ys, h⟩ := takes_read hs item
  have hrest := fun passed => Walks.passes passed (read s item).rest after
  rw [h.notes_eq, List.append_assoc]
  have hitem : item ++ after = ys ++ ((read s item).rest ++ after) := by
    rw [← List.append_assoc, ← h.append]
  rw [hitem]
  refine Walks.passOver ?_
  have hys : ys ⊆ passed ++ ys := List.subset_append_right ..
  split
  · next st hst =>
    refine .complete (h.isStatement_iff.2 hst) hys ?_
    split
    · exact hrest _
    · next hne =>
      obtain ⟨x, rest, heq⟩ := List.exists_cons_of_ne_nil hne
      have hblame := (hrest (passed ++ ys)).blame .expectedSeparator
      rw [heq] at hblame ⊢
      exact hblame
  · next fault name hbroken =>
    refine .blame _ ?_
    cases name with
    | none => exact hrest _
    | some name =>
      obtain ⟨-, k, kind, rfl, -, hname, -⟩ := h.isHalfDevice_iff.2 ⟨fault, hbroken⟩
      exact .abandon (by simp) hname (hrest _)

end Item

namespace Outline
variable {s : Section}

theorem walks_items (hs : s ≠ .close) (symbols passed : List Symbol) :
    Walks passed symbols (items s symbols).1 (items s symbols).2 := by
  fun_induction items s symbols generalizing passed with
  | case1 symbols item hdrop =>
    have hitem := Item.walks_notes hs passed item []
    have hsymbols : item ++ [] = symbols := by
      rw [← hdrop, List.takeWhile_append_dropWhile]
    rw [hsymbols] at hitem
    exact hitem.append fun _ => .endsEarly .nil
  | case2 symbols item x rest hdrop notes hx more left hmore ih =>
    rw [hmore] at ih
    have hitem := Item.walks_notes hs passed item (x :: rest)
    rw [← (cut hdrop).1] at hitem
    exact hitem.append fun _ => .pass (ih _)
  | case3 symbols item x rest hdrop notes hcomma hsemi =>
    have hitem := Item.walks_notes hs passed item (x :: rest)
    rw [← (cut hdrop).1] at hitem
    exact hitem.append fun _ => .pass .nil
  | case4 symbols item x rest hdrop notes hcomma hsemi =>
    have hitem := Item.walks_notes hs passed item (x :: rest)
    rw [← (cut hdrop).1] at hitem
    exact hitem.append fun _ => .reject .nil

theorem walks_colon (s : Section) (symbols passed : List Symbol) :
    Walks passed symbols (colon s symbols).1 (colon s symbols).2 := by
  cases symbols with
  | nil => exact .reject .nil
  | cons x rest =>
    rw [colon]
    split
    · exact .pass .nil
    · exact .reject .nil

theorem walks_content (hs : s ≠ .close) (symbols passed : List Symbol) :
    Walks passed symbols (content s symbols).1 (content s symbols).2 := by
  cases symbols with
  | nil => exact walks_items hs [] passed
  | cons x rest =>
    rw [content]
    split
    · split
      · exact .reject (.pass .nil)
      · exact .pass .nil
    · exact walks_items hs _ passed

theorem walks_afterWord (hs : s ≠ .close) (symbols passed : List Symbol) :
    Walks passed symbols (afterWord s symbols).1 (afterWord s symbols).2 :=
  (walks_colon s symbols passed).append (walks_content hs _)

theorem walks_part (hs : s ≠ .close) (symbols passed : List Symbol) :
    Walks passed symbols (part s symbols).1 (part s symbols).2 := by
  by_cases hstarts : symbols.head?.any (·.section? == some s) = true
  · obtain ⟨x, rest, rfl, hx⟩ : ∃ x rest, symbols = x :: rest ∧ x.section? = some s := by
      cases symbols with
      | nil => simp at hstarts
      | cons x rest => exact ⟨x, rest, rfl, by simpa using hstarts⟩
    rw [part_of_isWord (Symbol.section?_eq_some_iff.1 hx)]
    exact .pass (walks_afterWord hs rest _)
  · have hskip : ∀ p : Symbol → Bool, Walks passed symbols
        (Note.blame (.expectedSection s) symbols :: Note.passes (symbols.takeWhile p))
        (symbols.dropWhile p) := fun p => by
      have hpasses := Walks.passes passed (symbols.takeWhile p) (symbols.dropWhile p)
      rw [List.takeWhile_append_dropWhile] at hpasses
      exact .blame _ hpasses
    simp only [part, if_neg hstarts]
    split
    · next hfound =>
      rw [← hfound]
      exact hskip _
    · next x rest hfound =>
      split
      · refine (hskip _).append fun _ => ?_
        rw [hfound]
        exact .pass (walks_afterWord hs rest _)
      · rw [← hfound]
        exact hskip _

theorem walks_close (symbols : List Symbol) :
    ∃ left, ∀ passed, Walks passed symbols (close symbols) left := by
  cases symbols with
  | nil => exact ⟨[], fun _ => .endsEarly .nil⟩
  | cons x rest =>
    by_cases hx : x.section? = some .close
    case neg =>
      simp only [close, if_neg hx]
      exact ⟨x :: rest, fun _ => .reject .nil⟩
    simp only [close, if_pos hx]
    cases rest with
    | nil => exact ⟨[], fun _ => .pass (.endsEarly .nil)⟩
    | cons y rest =>
      by_cases hy : y.type = .semicolon
      case neg =>
        simp only [if_neg hy]
        exact ⟨y :: rest, fun _ => .pass (.reject .nil)⟩
      simp only [if_pos hy]
      refine ⟨rest, fun _ => .pass (.pass ?_)⟩
      split
      · exact .nil
      · exact .blame _ .nil

theorem walks_outline (symbols : List Symbol) : ∃ left, Walks [] symbols (outline symbols) left := by
  obtain ⟨left, hclose⟩ := walks_close
    (part .monitor (part .connect (part .devices symbols).2).2).2
  have hdevices := walks_part (s := .devices) (by decide) symbols []
  have hconnect := walks_part (s := .connect) (by decide) (part .devices symbols).2
  have hmonitor := walks_part (s := .monitor) (by decide)
    (part .connect (part .devices symbols).2).2
  exact ⟨left, ((hdevices.append hconnect).append hmonitor).append hclose⟩

end Outline

namespace Walks
variable {passed ahead left : List Symbol} {notes a b : List Note}

/-- What follows some notes goes on where these have come to. -/
theorem drop (h : Walks passed ahead (a ++ b) left) :
    Walks (passed ++ ahead.take (a.countP (· == .pass))) (ahead.drop (a.countP (· == .pass))) b
      left := by
  induction a generalizing passed ahead with
  | nil => simpa using h
  | cons n a ih =>
    cases h with
    | pass h => simpa using ih h
    | reject h => simpa using ih h
    | endsEarly h => simpa using ih h
    | abandon _ _ h => simpa using ih h
    | complete _ _ h => simpa using ih h

end Walks

/-- Where the fault of a note is; the end of the file is at the given place. -/
def Note.place? (last : Position) : Note → Option Position
  | .reject x _ => some ((x.map (·.position)).getD last)
  | .endsEarly => some last
  | _ => none

namespace Note
variable {last : Position} {n : Note}

theorem place?_eq_none_iff : n.place? last = none ↔ n.isFault = false := by
  cases n <;> simp [place?, isFault]

end Note

namespace Walks
variable {last : Position} {passed ahead left : List Symbol} {notes a b : List Note}

/-- The first symbol ahead, or the end of the file. -/
theorem place?_head {n : Note} (h : Walks passed ahead (n :: notes) left)
    (hn : n.isFault = true) :
    n.place? last = some ((ahead.head?.map (·.position)).getD last) := by
  cases h with
  | reject h => rfl
  | endsEarly h => rfl
  | pass | abandon | complete => cases hn

theorem places_nil (h : Walks passed [] notes left) :
    ∀ p ∈ notes.filterMap (·.place? last), p = last := by
  induction notes generalizing passed with
  | nil => simp
  | cons n notes ih =>
    cases h with
    | reject h => simpa [Note.place?] using ih h
    | endsEarly h => simpa [Note.place?] using ih h
    | abandon _ _ h => simpa [Note.place?] using ih h
    | complete _ _ h => simpa [Note.place?] using ih h

/-- No fault but at the end of the file is noted after one there. -/
theorem pairwise_places (h : Walks passed ahead notes left)
    (hlast : ∀ x ∈ ahead, x.position ≠ last) :
    (notes.filterMap (·.place? last)).Pairwise fun p q => p = last → q = last := by
  induction h with
  | nil => exact .nil
  | pass _ ih => exact ih fun x hx => hlast x (List.mem_cons_of_mem _ hx)
  | @reject passed ahead left fault notes h ih =>
    simp only [List.filterMap_cons, Note.place?]
    refine List.pairwise_cons.2 ⟨fun q hq hp => ?_, ih hlast⟩
    cases ahead with
    | nil => exact h.places_nil q hq
    | cons x ahead => exact absurd hp (hlast x (List.mem_cons_self ..))
  | endsEarly h ih =>
    simp only [List.filterMap_cons, Note.place?]
    exact List.pairwise_cons.2 ⟨fun q hq _ => h.places_nil q hq, ih hlast⟩
  | abandon _ _ _ ih => exact ih hlast
  | complete _ _ _ ih => exact ih hlast

end Walks

end GateSim
