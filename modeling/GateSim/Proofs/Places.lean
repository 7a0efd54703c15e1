import GateSim.Proofs.FirstFault

/-!
# Symbols at other places

How symbols are read does not depend on where they stand: symbols that are moved have the outline of
the symbols, moved along (`outline_move`).
-/

namespace GateSim

variable {f : Position → Position}

/-! ### Moving -/

/-- The symbol at another place. -/
def Symbol.move (f : Position → Position) (x : Symbol) : Symbol :=
  { x with position := f x.position }

def Statement.move (f : Position → Position) : Statement → Statement
  | .device kind name parameter => .device kind (name.move f) (parameter.map (Symbol.move f))
  | .connection source sourcePin target targetPin =>
    .connection (source.move f) (sourcePin.map (Symbol.move f)) (target.move f) (targetPin.move f)
  | .monitor name pin => .monitor (name.move f) (pin.map (Symbol.move f))

def Outcome.move (f : Position → Position) : Outcome → Outcome
  | .complete st => .complete (st.move f)
  | .broken fault name => .broken fault (name.map (Symbol.move f))

def Reading.move (f : Position → Position) (r : Reading) : Reading where
  outcome := r.outcome.move f
  rest := r.rest.map (Symbol.move f)

def Note.move (f : Position → Position) : Note → Note
  | .pass => .pass
  | .reject x fault => .reject (x.map (Symbol.move f)) fault
  | .endsEarly => .endsEarly
  | .abandon name => .abandon (name.move f)
  | .complete st => .complete (st.move f)

namespace Symbol
variable (f : Position → Position) (x : Symbol)

theorem type_move : (x.move f).type = x.type := by cases x; rfl

theorem section?_move : (x.move f).section? = x.section? := by cases x; rfl

end Symbol

namespace Note

theorem move_passes (f : Position → Position) (xs : List Symbol) :
    (passes xs).map (move f) = passes (xs.map (Symbol.move f)) := by
  simp only [passes, List.map_map]
  rfl

theorem move_blame (f : Position → Position) (fault : SyntaxFault) (xs : List Symbol) :
    (blame fault xs).move f = blame fault (xs.map (Symbol.move f)) := by
  cases xs <;> rfl

end Note

/-! ### Items -/

namespace Item

section
variable {α : Type} {accept : Symbol → Option α} {t : α → α}

/-- What follows the symbol may depend on what is known of it. -/
theorem expect_move {fault : SyntaxFault} {go go' : α → List Symbol → Reading}
    (haccept : ∀ x, accept (x.move f) = (accept x).map t)
    (hgo : ∀ a xs, go' (t a) (xs.map (Symbol.move f)) = (go a xs).move f) (xs : List Symbol) :
    expect accept fault go' (xs.map (Symbol.move f)) = (expect accept fault go xs).move f := by
  cases xs with
  | nil => rfl
  | cons x xs =>
    simp only [List.map_cons, expect, haccept]
    cases accept x with
    | none => rfl
    | some a => exact hgo a xs

end

section
variable {go go' : Symbol → List Symbol → Reading}
  (hgo : ∀ x xs, go' (x.move f) (xs.map (Symbol.move f)) = (go x xs).move f)
include hgo

theorem expect_guard_move {p : Symbol → Bool} {fault : SyntaxFault}
    (hp : ∀ x, p (x.move f) = p x) (xs : List Symbol) :
    expect (Option.guard p) fault go' (xs.map (Symbol.move f)) =
      (expect (Option.guard p) fault go xs).move f := by
  refine expect_move (t := Symbol.move f) (fun x => ?_) hgo xs
  simp only [Option.guard, hp]
  split <;> rfl

theorem expectName_move (xs : List Symbol) :
    expectName go' (xs.map (Symbol.move f)) = (expectName go xs).move f :=
  expect_guard_move hgo (fun _ => rfl) xs

end

theorem optionalPin_move {go go' : Option Symbol → List Symbol → Reading}
    (hgo : ∀ pin xs, go' (pin.map (Symbol.move f)) (xs.map (Symbol.move f)) = (go pin xs).move f)
    (xs : List Symbol) : optionalPin go' (xs.map (Symbol.move f)) = (optionalPin go xs).move f := by
  cases xs with
  | nil => exact hgo none []
  | cons x xs =>
    simp only [List.map_cons, optionalPin, Symbol.type_move]
    split
    · exact expect_guard_move (fun pin => hgo (some pin)) (fun _ => rfl) xs
    · exact hgo none (x :: xs)

theorem parameter_move (kind : Kind) (name : Symbol) (xs : List Symbol) :
    parameter kind (name.move f) (xs.map (Symbol.move f)) = (parameter kind name xs).move f := by
  unfold parameter
  split
  · cases xs with
    | nil => rfl
    | cons x xs =>
      have hzero : (x.move f).hasLeadingZero = x.hasLeadingZero := rfl
      simp only [List.map_cons, Symbol.type_move, hzero]
      split
      · rfl
      split <;> rfl
  · rfl

theorem device_move (xs : List Symbol) :
    device (xs.map (Symbol.move f)) = (device xs).move f := by
  refine expect_move (t := id) (fun x => ?_) (fun kind => ?_) xs
  · show x.kind? = _
    rw [Option.map_id_fun, id]
  · exact expectName_move fun name => parameter_move kind name

theorem connection_move (xs : List Symbol) :
    connection (xs.map (Symbol.move f)) = (connection xs).move f := by
  refine expectName_move (fun source => optionalPin_move fun sourcePin => ?_) xs
  refine expect_guard_move (fun _ => expectName_move fun target => ?_) (fun _ => rfl)
  refine expect_guard_move (fun _ => ?_) (fun _ => rfl)
  exact expect_guard_move (fun pin rest => rfl) (fun _ => rfl)

theorem monitor_move (xs : List Symbol) : monitor (xs.map (Symbol.move f)) = (monitor xs).move f :=
  expectName_move (fun _ => optionalPin_move fun _ _ => rfl) xs

theorem read_move (s : Section) (xs : List Symbol) :
    read s (xs.map (Symbol.move f)) = (read s xs).move f := by
  cases s with
  | devices => exact device_move xs
  | connect => exact connection_move xs
  | monitor => exact monitor_move xs
  | close => rfl

theorem notes_move (s : Section) (item after : List Symbol) :
    notes s (item.map (Symbol.move f)) (after.map (Symbol.move f)) =
      (notes s item after).map (Note.move f) := by
  simp only [notes, read_move, Reading.move, List.length_map, ← List.map_take, List.map_append,
    Note.move_passes]
  congr 2
  cases (read s item).outcome with
  | complete st =>
    cases (read s item).rest <;> rfl
  | broken fault name =>
    simp only [Outcome.move, List.map_cons, Note.move_blame, List.map_append]
    cases name <;> rfl

end Item

/-! ### Outlines -/

namespace Outline

/-- The notes and what is left, moved. -/
def moveResult (f : Position → Position) (r : List Note × List Symbol) : List Note × List Symbol :=
  (r.1.map (Note.move f), r.2.map (Symbol.move f))

variable (s : Section) (xs : List Symbol)

theorem items_move : items s (xs.map (Symbol.move f)) = moveResult f (items s xs) := by
  have hitem : ∀ {item : List Symbol}, (∀ x ∈ item, x.isSeparator = false) →
      ∀ x ∈ item.map (Symbol.move f), x.isSeparator = false := fun h => List.forall_mem_map.2 h
  induction hn : xs.length using Nat.strong_induction_on generalizing xs with
  | _ n ih =>
    cases hdrop : xs.dropWhile (!·.isSeparator) with
    | nil =>
      have hxs : ∀ x ∈ xs, x.isSeparator = false := by simpa using List.dropWhile_eq_nil_iff.1 hdrop
      rw [items_of_isSeparator hxs, items_of_isSeparator (hitem hxs), moveResult, List.map_append,
        ← Item.notes_move]
      rfl
    | cons x rest =>
      obtain ⟨hsymbols, hx⟩ := cut hdrop
      have hbefore : ∀ y ∈ xs.takeWhile (!·.isSeparator), y.isSeparator = false :=
        fun _ => isSeparator_of_mem_takeWhile
      generalize xs.takeWhile (!·.isSeparator) = item at hsymbols hbefore
      subst hsymbols
      have hx' : (x.move f).isSeparator = true := hx
      rw [List.map_append, List.map_cons, items_append hbefore hx, items_append (hitem hbefore) hx',
        ← List.map_cons, Item.notes_move, Symbol.type_move]
      split
      · have hlt : rest.length < n := by
          simp only [← hn, List.length_append, List.length_cons]
          omega
        rw [ih rest.length hlt rest rfl]
        simp [moveResult, Note.move]
      split
      · simp [moveResult, Note.move]
      · simp [moveResult, Note.move]

theorem colon_move : colon s (xs.map (Symbol.move f)) = moveResult f (colon s xs) := by
  cases xs with
  | nil => rfl
  | cons x xs =>
    simp only [List.map_cons, colon, Symbol.type_move]
    split <;> rfl

theorem content_move : content s (xs.map (Symbol.move f)) = moveResult f (content s xs) := by
  cases xs with
  | nil => exact items_move s []
  | cons x xs =>
    simp only [List.map_cons, content, Symbol.type_move]
    split
    · cases s <;> rfl
    · exact items_move s (x :: xs)

theorem afterWord_move : afterWord s (xs.map (Symbol.move f)) = moveResult f (afterWord s xs) := by
  simp only [afterWord, colon_move, moveResult, content_move, List.map_append]

theorem part_move : part s (xs.map (Symbol.move f)) = moveResult f (part s xs) := by
  have hstarts : (xs.map (Symbol.move f)).head?.any (fun x => x.section? == some s) =
      xs.head?.any fun x => x.section? == some s := by
    rw [List.head?_map, Option.any_map]
    rfl
  -- the section word is looked for among the same symbols
  have hcomes : (fun x : Symbol => !s.onward.any fun t => x.section? == some t) ∘ Symbol.move f =
      fun x => !s.onward.any fun t => x.section? == some t := rfl
  have hnotes : ∀ b : Bool, (if b then [] else
      Note.blame (.expectedSection s) (xs.map (Symbol.move f)) :: Note.passes ((xs.takeWhile
        fun x => !s.onward.any fun t => x.section? == some t).map (Symbol.move f))) =
      (if b then [] else Note.blame (.expectedSection s) xs :: Note.passes (xs.takeWhile
        fun x => !s.onward.any fun t => x.section? == some t)).map (Note.move f) := by
    rintro (_ | _)
    · simp [Note.move_blame, Note.move_passes]
    · rfl
  simp only [part, hstarts, List.takeWhile_map, List.dropWhile_map, hcomes, hnotes]
  cases xs.dropWhile fun x => !s.onward.any fun t => x.section? == some t with
  | nil => rfl
  | cons x rest =>
    simp only [List.map_cons, Symbol.section?_move]
    split
    · rw [afterWord_move]
      simp [moveResult, Note.move]
    · rfl

theorem close_move : close (xs.map (Symbol.move f)) = (close xs).map (Note.move f) := by
  cases xs with
  | nil => rfl
  | cons x xs =>
    simp only [List.map_cons, close, Symbol.section?_move]
    by_cases hword : x.section? = some .close
    · simp only [if_pos hword]
      cases xs with
      | nil => rfl
      | cons y xs =>
        simp only [List.map_cons, Symbol.type_move]
        by_cases hsemi : y.type = .semicolon
        · simp only [if_pos hsemi]
          cases xs <;> rfl
        · simp only [if_neg hsemi]
          rfl
    · simp only [if_neg hword]
      rfl

end Outline

theorem outline_move (xs : List Symbol) :
    outline (xs.map (Symbol.move f)) = (outline xs).map (Note.move f) := by
  simp only [outline, Outline.part_move, Outline.moveResult, Outline.close_move, List.map_append]

end GateSim
