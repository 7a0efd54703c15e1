import Mathlib.Data.List.Forall2
import GateSim.Proofs.SyntaxError

/-!
# Recovery from syntax errors

Symbols with the frame of a definition (`Grammar.IsFrame`) may have anything as their items. Each
item that is no statement has one syntax error, where it breaks off, and each that starts with a
statement has it performed (`Definition.recovers`). The others have no part in what is built but
that the name of a device whose declaration breaks off after it counts as declared, so that no more
errors follow from the first.
-/

namespace GateSim

namespace Grammar

/-- What may stand between the marks of a section. -/
def IsInner (x : Symbol) : Prop := x.type ≠ .comma ∧ x.type ≠ .semicolon ∧ ∀ s, ¬ IsWord s x

/-- An item of a section and the mark that ends it. -/
structure Entry where
  part : Section
  item : List Symbol
  mark : Symbol

/-- Items of a section, each ended by a comma and the last one by a semicolon. -/
inductive IsListed (s : Section) : List Symbol → List Entry → Prop
  | last {xs : List Symbol} {semicolon : Symbol} :
      (∀ x ∈ xs, IsInner x) → semicolon.type = .semicolon →
      IsListed s (xs ++ [semicolon]) [⟨s, xs, semicolon⟩]
  | cons {xs ys : List Symbol} {comma : Symbol} {entries : List Entry} :
      (∀ x ∈ xs, IsInner x) → comma.type = .comma → IsListed s ys entries →
      IsListed s (xs ++ comma :: ys) (⟨s, xs, comma⟩ :: entries)

/-- A section, from its word to its semicolon, with any items. No items are none at all and not an empty one,
and there must be devices. -/
inductive IsSectionFrame (s : Section) : List Symbol → List Entry → Prop
  | items {word colon : Symbol} {xs : List Symbol} {entries : List Entry} :
      IsWord s word → colon.type = .colon → IsListed s xs entries →
      (∀ x ∈ xs.head?, x.type ≠ .semicolon) → IsSectionFrame s (word :: colon :: xs) entries
  | empty {word colon semicolon : Symbol} :
      s ≠ .devices → IsWord s word → colon.type = .colon → semicolon.type = .semicolon →
      IsSectionFrame s [word, colon, semicolon] []

inductive IsFrame : List Symbol → List Entry → Prop
  | mk {devices connect monitor : List Symbol} {ds cs ms : List Entry} {word semicolon : Symbol} :
      IsSectionFrame .devices devices ds → IsSectionFrame .connect connect cs →
      IsSectionFrame .monitor monitor ms → IsWord .close word → semicolon.type = .semicolon →
      IsFrame (devices ++ connect ++ monitor ++ [word, semicolon]) (ds ++ cs ++ ms)

namespace Entry

def symbols (e : Entry) : List Symbol := e.item ++ [e.mark]

/-- The symbols at which the entry has syntax errors: the one that follows the longest beginning of
a statement, unless the item is a statement. -/
inductive Faults (e : Entry) : List Symbol → Prop
  | none {st : Statement} : IsStatement e.part e.item st → Faults e []
  | one {ys rest : List Symbol} {x : Symbol} : (∀ st, ¬ IsStatement e.part e.item st) →
      IsLongestBeginning e.part e.item ys → e.symbols = ys ++ x :: rest → Faults e [x]

/-- The statement is performed that the entry starts with, if its longest beginning is one. -/
inductive Performs (e : Entry) : List Note → Prop
  | none {ys : List Symbol} : IsLongestBeginning e.part e.item ys →
      (∀ st, ¬ IsStatement e.part ys st) → Performs e []
  | one {ys : List Symbol} {st : Statement} : IsLongestBeginning e.part e.item ys →
      IsStatement e.part ys st → Performs e [.complete st]

/-- What is known from the entry later on. -/
inductive Leaves (e : Entry) : List Note → Prop
  | statement {notes : List Note} : Performs e notes →
      (∀ ys name, IsLongestBeginning e.part e.item ys → ¬ IsHalfDevice e.part ys name) →
      Leaves e notes
  | name {ys : List Symbol} {name : Symbol} : IsLongestBeginning e.part e.item ys →
      IsHalfDevice e.part ys name → Leaves e [.abandon name]

end Entry
end Grammar

open Grammar Diagnostics

/-! ### Items -/

namespace Note

/-- What has to do with devices. -/
def isDeed : Note → Bool
  | .abandon _ | .complete _ => true
  | _ => false

def isComplete : Note → Bool
  | .complete _ => true
  | _ => false

@[simp] theorem isDeed_complete (st : Statement) : (complete st).isDeed = true := rfl

@[simp] theorem isDeed_abandon (name : Symbol) : (abandon name).isDeed = true := rfl

@[simp] theorem isDeed_blame (f : SyntaxFault) (xs : List Symbol) : (blame f xs).isDeed = false := by
  cases xs <;> rfl

end Note

def Outcome.deeds : Outcome → List Note
  | .complete st => [.complete st]
  | .broken _ name => name.toList.map .abandon

namespace Item
variable {s : Section} {xs ys : List Symbol}

theorem filter_isDeed_passes (xs : List Symbol) : (Note.passes xs).filter Note.isDeed = [] := by
  simp [Note.passes, Note.isDeed]

theorem Takes.filter_isDeed (h : Takes (read s) xs ys) (after : List Symbol) :
    (notes s xs after).filter Note.isDeed = (read s xs).outcome.deeds := by
  rw [h.notes_eq, List.filter_append, List.filter_append, filter_isDeed_passes,
    filter_isDeed_passes, List.nil_append, List.append_nil]
  cases (read s xs).outcome with
  | complete st =>
    dsimp only
    split <;> simp [List.filter_cons, Outcome.deeds]
  | broken fault name => cases name <;> simp [Outcome.deeds]

theorem notes_cons (s : Section) (xs : List Symbol) (x : Symbol) (left : List Symbol) :
    notes s xs (x :: left) = notes s xs [x] := by
  have hblame : ∀ fault, Note.blame fault ((read s xs).rest ++ x :: left) =
      Note.blame fault ((read s xs).rest ++ [x]) := fun fault => by
    cases (read s xs).rest <;> rfl
  simp only [notes, hblame]

end Item

namespace Grammar.Entry
variable {e : Entry} {ys : List Symbol} {ns : List Note}

def notes (e : Entry) : List Note := Item.notes e.part e.item [e.mark]

theorem performs_iff (hs : e.part ≠ .close) :
    e.Performs ns ↔ ns = (Item.read e.part e.item).outcome.deeds.filter Note.isComplete := by
  obtain ⟨ys, h⟩ := Item.takes_read hs e.item
  cases houtcome : (Item.read e.part e.item).outcome with
  | complete st =>
    have hst := h.isStatement_iff.2 houtcome
    constructor
    · rintro (⟨hys, hno⟩ | ⟨hys, hst'⟩)
      · exact absurd (h.isLongestBeginning.unique hys ▸ hst) (hno st)
      · have hread := h.isStatement_iff.1 (h.isLongestBeginning.unique hys ▸ hst')
        rw [houtcome, Outcome.complete.injEq] at hread
        rw [hread]
        rfl
    · rintro rfl
      exact .one h.isLongestBeginning hst
  | broken fault name =>
    have hno : ∀ st, ¬ IsStatement e.part ys st := fun st hst => by
      simp [h.isStatement_iff.1 hst] at houtcome
    have hdeeds : (Outcome.broken fault name).deeds.filter Note.isComplete = [] := by
      cases name <;> rfl
    rw [hdeeds]
    constructor
    · rintro (⟨-, -⟩ | ⟨hys, hst⟩)
      · rfl
      · exact absurd (h.isLongestBeginning.unique hys ▸ hst) (hno _)
    · rintro rfl
      exact .none h.isLongestBeginning hno

theorem leaves_notes (hs : e.part ≠ .close) : e.Leaves (e.notes.filter Note.isDeed) := by
  obtain ⟨ys, h⟩ := Item.takes_read hs e.item
  rw [notes, h.filter_isDeed]
  have hother : (∀ fault name, (Item.read e.part e.item).outcome ≠ .broken fault (some name)) →
      ∀ ys name, IsLongestBeginning e.part e.item ys → ¬ IsHalfDevice e.part ys name := by
    intro hno ys' name hys hhalf
    obtain ⟨fault, heq⟩ := h.isHalfDevice_iff.1 (h.isLongestBeginning.unique hys ▸ hhalf)
    exact hno fault name heq
  cases houtcome : (Item.read e.part e.item).outcome with
  | complete st =>
    refine .statement ((performs_iff hs).2 ?_) (hother fun _ _ heq => ?_)
    · rw [houtcome]
      rfl
    · simp [houtcome] at heq
  | broken fault name =>
    cases name with
    | none =>
      refine .statement ((performs_iff hs).2 ?_) (hother fun _ _ heq => ?_)
      · rw [houtcome]
        rfl
      · simp [houtcome] at heq
    | some name => exact .name h.isLongestBeginning (h.isHalfDevice_iff.2 ⟨fault, houtcome⟩)

/-- The syntax errors of an entry are where its notes have faults. -/
theorem exists_faults (hs : e.part ≠ .close) (last : Position) :
    ∃ xs, e.Faults xs ∧ e.notes.filterMap (·.place? last) = xs.map (·.position) := by
  obtain ⟨ys, h⟩ := Item.takes_read hs e.item
  have hpasses : ∀ xs, (Note.passes xs).filterMap (·.place? last) = [] := fun xs => by
    simp [Note.passes, Note.place?]
  rw [notes, h.notes_eq, List.filterMap_append, List.filterMap_append, hpasses, hpasses,
    List.nil_append, List.append_nil]
  have hsymbols : e.symbols = ys ++ ((Item.read e.part e.item).rest ++ [e.mark]) := by
    rw [symbols, ← List.append_assoc, ← h.append]
  have hread : ∀ st, IsStatement e.part e.item st → Item.read e.part e.item = ⟨.complete st, []⟩ :=
    fun st => Item.read_eq_complete_iff.2
  cases houtcome : (Item.read e.part e.item).outcome with
  | complete st =>
    dsimp only
    cases hrest : (Item.read e.part e.item).rest with
    | nil =>
      have hst : IsStatement e.part e.item st := by
        rw [← Item.read_eq_complete_iff, ← houtcome, ← hrest]
      exact ⟨[], .none hst, rfl⟩
    | cons x rest =>
      rw [hrest] at hsymbols
      refine ⟨[x], .one (fun st hst => ?_) h.isLongestBeginning hsymbols, rfl⟩
      simp [hread st hst] at hrest
  | broken fault name =>
    obtain ⟨x, rest, hrest⟩ : ∃ x rest, (Item.read e.part e.item).rest ++ [e.mark] = x :: rest :=
      List.exists_cons_of_ne_nil (by simp)
    rw [hrest] at hsymbols ⊢
    refine ⟨[x], .one (fun st hst => ?_) h.isLongestBeginning hsymbols, ?_⟩
    · simp [hread st hst] at houtcome
    · cases name <;> rfl

theorem Faults.sublist {xs : List Symbol} (h : e.Faults xs) : xs.Sublist e.symbols := by
  cases h with
  | none => exact List.nil_sublist _
  | one _ _ hsymbols =>
    rw [hsymbols]
    exact List.singleton_sublist.2 (by simp)

end Grammar.Entry

/-! ### Frames -/

namespace Grammar
variable {s : Section} {xs : List Symbol} {entries : List Entry}

theorem isInner_iff {x : Symbol} : IsInner x ↔ x.isSeparator = false := by
  have hs : x.section? = none ↔ ∀ s, ¬ IsWord s x := by
    simp only [Option.eq_none_iff_forall_ne_some, ne_eq, Symbol.section?_eq_some_iff]
  simp [IsInner, Symbol.isSeparator, ← hs, and_assoc]

theorem IsListed.part_eq (h : IsListed s xs entries) : ∀ e ∈ entries, e.part = s := by
  induction h with
  | last => simp
  | cons _ _ _ ih => exact List.forall_mem_cons.2 ⟨rfl, ih⟩

theorem IsListed.ne_nil (h : IsListed s xs entries) : xs ≠ [] := by
  cases h <;> simp

theorem IsListed.flatMap_symbols (h : IsListed s xs entries) : entries.flatMap Entry.symbols = xs := by
  induction h with
  | last => simp [Entry.symbols]
  | cons _ _ _ ih => simp [Entry.symbols, ih]

theorem IsSectionFrame.part_eq (h : IsSectionFrame s xs entries) : ∀ e ∈ entries, e.part = s := by
  cases h with
  | items _ _ h _ => exact h.part_eq
  | empty => simp

theorem IsSectionFrame.sublist (h : IsSectionFrame s xs entries) :
    (entries.flatMap Entry.symbols).Sublist xs := by
  cases h with
  | items _ _ h _ =>
    rw [h.flatMap_symbols]
    exact ((List.Sublist.refl _).cons _).cons _
  | empty => exact List.nil_sublist _

theorem IsFrame.part_ne_close (h : IsFrame xs entries) : ∀ e ∈ entries, e.part ≠ .close := by
  obtain ⟨hds, hcs, hms, -, -⟩ := h
  simp only [List.mem_append, or_imp, forall_and]
  exact ⟨⟨fun e he => by rw [hds.part_eq e he]; decide, fun e he => by rw [hcs.part_eq e he]; decide⟩,
    fun e he => by rw [hms.part_eq e he]; decide⟩

theorem IsFrame.sublist (h : IsFrame xs entries) : (entries.flatMap Entry.symbols).Sublist xs := by
  obtain ⟨hds, hcs, hms, -, -⟩ := h
  rw [List.flatMap_append, List.flatMap_append]
  exact ((hds.sublist.append hcs.sublist).append hms.sublist).trans (List.sublist_append_left ..)

end Grammar

namespace Outline
variable {s : Section} {xs : List Symbol} {entries : List Entry}

/-- The notes but for the passes. -/
theorem items_of_isListed (h : IsListed s xs entries) (left : List Symbol) :
    (items s (xs ++ left)).1.filter (· != .pass) =
        entries.flatMap (fun e => e.notes.filter (· != .pass)) ∧
      (items s (xs ++ left)).2 = left := by
  induction h with
  | @last xs semicolon hxs hsemi =>
    rw [List.append_assoc, List.singleton_append,
      items_append (fun x hx => isInner_iff.1 (hxs x hx))
        (Symbol.isSeparator_of_type (.inr hsemi)), if_neg (by simp [hsemi]), if_pos hsemi,
      Item.notes_cons]
    simp [Entry.notes]
  | @cons xs ys comma entries hxs hcomma _ ih =>
    rw [List.append_assoc, List.cons_append,
      items_append (fun x hx => isInner_iff.1 (hxs x hx))
        (Symbol.isSeparator_of_type (.inl hcomma)), if_pos hcomma, Item.notes_cons]
    simpa [Entry.notes] using ih

theorem part_of_isSectionFrame (h : IsSectionFrame s xs entries) (left : List Symbol) :
    (part s (xs ++ left)).1.filter (· != .pass) =
        entries.flatMap (fun e => e.notes.filter (· != .pass)) ∧
      (part s (xs ++ left)).2 = left := by
  cases h with
  | @items word colon xs _ hword hc hlisted hhead =>
    have hcontent : content s (xs ++ left) = Outline.items s (xs ++ left) := by
      cases xs with
      | nil => exact absurd rfl hlisted.ne_nil
      | cons x xs => exact if_neg (hhead x rfl)
    rw [List.cons_append, List.cons_append, part_of_isWord hword]
    simpa [afterWord, Outline.colon, hc, hcontent] using items_of_isListed hlisted left
  | @empty word colon semicolon hs hword hc hsemi =>
    obtain ⟨hread, hleft⟩ := reads_part left (.empty hs hword hc hsemi)
    exact ⟨hread.statements, hleft⟩

theorem outline_of_isFrame (h : IsFrame xs entries) :
    (outline xs).filter (· != .pass) =
      entries.flatMap (fun e => e.notes.filter (· != .pass)) := by
  obtain @⟨ds, cs, ms, es, es', es'', word, semicolon, hds, hcs, hms, hw, hsemi⟩ := h
  obtain ⟨hdevices, hleft⟩ := part_of_isSectionFrame hds (cs ++ (ms ++ [word, semicolon]))
  obtain ⟨hconnect, hleft'⟩ := part_of_isSectionFrame hcs (ms ++ [word, semicolon])
  obtain ⟨hmonitor, hleft''⟩ := part_of_isSectionFrame hms [word, semicolon]
  simp only [outline, List.append_assoc, hleft, hleft', hleft'', List.filter_append, hdevices,
    hconnect, hmonitor, (reads_close hw hsemi).statements, List.flatMap_append, List.map_nil,
    List.append_nil]

end Outline

/-! ### What is done -/

namespace Event

def isDeed : Event → Bool
  | .stray _ => false
  | .note n => n.isDeed

end Event

namespace Diagnostics

def semantic (ds : Diagnostics) : Diagnostics := ds.filter (·.category == .semantic)

theorem semantic_append (ds ds' : Diagnostics) :
    semantic (ds ++ ds') = ds.semantic ++ ds'.semantic := List.filter_append ..

end Diagnostics

namespace Draft
variable {d d' : Draft} {text : Definition} {names : NameTable}

/-- The draft, with other syntax errors behind it. -/
def after (d : Draft) (lastReject : Option Position) (ended : Bool) : Draft :=
  { d with lastReject, ended }

/-- What is done about a statement does not depend on the syntax errors. -/
theorem perform_after (d : Draft) (names : NameTable) (st : Statement) (r : Option Position)
    (b : Bool) :
    (d.after r b).perform names st = (d.perform names st).map fun p => (p.1.after r b, p.2) := by
  have hu : ∀ x, (d.after r b).undefined names x = d.undefined names x := fun _ => rfl
  have ho : ∀ x pin, (d.after r b).noOutput names x pin = d.noOutput names x pin := fun _ _ => rfl
  have hi : ∀ x pin, (d.after r b).noInput names x pin = d.noInput names x pin := fun _ _ => rfl
  have hc : (d.after r b).circuit = d.circuit := rfl
  cases st with
  | device kind name parameter =>
    have hdeclared : (d.after r b).declared = d.declared := rfl
    simp only [perform, device, hdeclared, hc]
    by_cases hd : d.declared.contains (name.id names) = true
    · simp only [if_pos hd]
      rfl
    · simp only [if_neg hd]
      generalize d.circuit.create kind (name.id names) ((parameter.map (·.text)).getD []) = result
      obtain ⟨(_ | _) | _, circuit⟩ := result <;> rfl
  | connection source sourcePin target targetPin =>
    simp only [perform, connection, hu, ho, hi, hc]
    cases (d.undefined names source).or (d.undefined names target) with
    | some fault => rfl
    | none =>
      cases (d.noOutput names source sourcePin).or (d.noInput names target targetPin) with
      | some fault => rfl
      | none =>
        generalize d.circuit.connect (source.id names) (sourcePin.map (·.id names))
          (target.id names) (targetPin.id names) = result
        obtain ⟨status, circuit⟩ := result
        cases status <;> rfl
  | monitor device pin =>
    simp only [perform, monitor, hu, ho, hc]
    cases d.undefined names device with
    | some fault => rfl
    | none =>
      cases d.noOutput names device pin with
      | some fault => rfl
      | none =>
        generalize d.circuit.monitor (device.id names) (pin.map (·.id names)) = result
        obtain ⟨status, circuit⟩ := result
        cases status <;> rfl

variable {e : Event} {x : Option Diagnostic}

theorem step_of_isDeed (h : d.Sound) (he : e.isDeed = true) (hs : d.step text names e = .ok (d', x))
    (r : Option Position) (b : Bool) :
    (d.after r b).step text names e = .ok (d'.after r b, x) ∧ semantic x.toList = x.toList := by
  cases e with
  | stray symbol => cases he
  | note n =>
  cases n with
  | pass | reject | endsEarly => cases he
  | abandon name =>
    cases hs
    exact ⟨rfl, rfl⟩
  | complete st =>
    obtain ⟨d₁, f, hp, -⟩ := perform_ok names h st
    have hp' := perform_after d names st r b
    rw [hp] at hp'
    rw [step_complete hp] at hs
    cases hs
    exact ⟨step_complete hp', by cases f <;> rfl⟩

theorem step_of_not_isDeed (he : e.isDeed = false) (hs : d.step text names e = .ok (d', x))
    (r : Option Position) (b : Bool) : d'.after r b = d.after r b ∧ semantic x.toList = [] := by
  have hreject : ∀ (d : Draft) symbol code message,
      (d.reject text symbol code message).1.after r b = d.after r b ∧
        semantic (d.reject text symbol code message).2.toList = [] := by
    intro d symbol code message
    unfold reject
    split <;> exact ⟨rfl, rfl⟩
  cases e with
  | stray symbol =>
    cases hs
    refine ⟨rfl, ?_⟩
    unfold Definition.stray
    split <;> rfl
  | note n =>
  cases n with
  | pass =>
    cases hs
    exact ⟨rfl, rfl⟩
  | abandon | complete => cases he
  | reject symbol fault =>
    have hr := hreject d (symbol.getD text.last) fault.code (fault.message (symbol.getD text.last))
    rwa [show d.reject .. = (d', x) from Except.ok.inj hs] at hr
  | endsEarly =>
    rw [step] at hs
    split at hs
    · cases hs
      exact ⟨rfl, rfl⟩
    · have hr := hreject { d with ended := true } text.last .unexpectedEndOfFile
        (.ofString "File ends too early. Check for missing sections or 'END;'")
      rwa [show Draft.reject .. = (d', x) from Except.ok.inj hs] at hr

/-- The circuit and the semantic diagnostics of a run come from its deeds. -/
theorem run_deeds {events : List Event} {ds : Diagnostics} (h : d.Sound)
    (hr : d.run text names events = .ok (d', ds)) (r : Option Position) (b : Bool) :
    (d.after r b).run text names (events.filter Event.isDeed) = .ok (d'.after r b, ds.semantic) := by
  induction events generalizing d ds with
  | nil =>
    cases hr
    rfl
  | cons e events ih =>
    obtain ⟨d₁, x, ds', hstep, hd₁, hrun, rfl⟩ := run_cons_cases h hr
    rw [semantic_append]
    cases he : e.isDeed with
    | true =>
      obtain ⟨hstep', hx⟩ := step_of_isDeed h he hstep r b
      rw [List.filter_cons_of_pos he, run_cons hstep' (ih hd₁ hrun), hx]
    | false =>
      obtain ⟨hd, hx⟩ := step_of_not_isDeed he hstep r b
      rw [List.filter_cons_of_neg (by simp [he]), ← hd, ih hd₁ hrun, hx, List.nil_append]

end Draft

/-! ### Definitions with a frame -/

namespace Grammar
variable {xs : List Symbol} {entries : List Entry}

theorem IsFrame.filterMap_place? (h : IsFrame xs entries) (last : Position) :
    (outline xs).filterMap (·.place? last) =
      entries.flatMap fun e => e.notes.filterMap (·.place? last) := by
  have hpass : ∀ notes : List Note,
      (notes.filter (· != .pass)).filterMap (·.place? last) = notes.filterMap (·.place? last) := by
    intro notes
    rw [List.filterMap_filter]
    refine List.filterMap_congr fun n _ => ?_
    cases n <;> rfl
  rw [← hpass, Outline.outline_of_isFrame h, List.filterMap_flatMap]
  simp only [hpass]

theorem IsFrame.filter_isDeed (h : IsFrame xs entries) :
    (outline xs).filter Note.isDeed = entries.flatMap fun e => e.notes.filter Note.isDeed := by
  have hpass : ∀ notes : List Note,
      (notes.filter (· != .pass)).filter Note.isDeed = notes.filter Note.isDeed := by
    intro notes
    rw [List.filter_filter]
    refine List.filter_congr fun n _ => ?_
    cases n <;> rfl
  rw [← hpass, Outline.outline_of_isFrame h, List.filter_flatMap]
  simp only [hpass]

/-- The symbols with errors stand in the order of their entries. -/
theorem sublist_of_faults {faults : List (List Symbol)} (h : List.Forall₂ Entry.Faults entries faults) :
    faults.flatten.Sublist (entries.flatMap Entry.symbols) := by
  induction h with
  | nil => exact List.nil_sublist _
  | cons he _ ih => exact he.sublist.append ih

theorem exists_all_faults (last : Position) (h : ∀ e ∈ entries, e.part ≠ .close) :
    ∃ faults, List.Forall₂ Entry.Faults entries faults ∧
      entries.flatMap (fun e => e.notes.filterMap (·.place? last)) =
        faults.flatten.map (·.position) := by
  induction entries with
  | nil => exact ⟨[], .nil, rfl⟩
  | cons e entries ih =>
    obtain ⟨he, hentries⟩ := List.forall_mem_cons.1 h
    obtain ⟨xs, hxs, heq⟩ := e.exists_faults he last
    obtain ⟨faults, hfaults, heqs⟩ := ih hentries
    refine ⟨xs :: faults, .cons hxs hfaults, ?_⟩
    rw [List.flatMap_cons, List.flatten_cons, List.map_append, heq, heqs]

end Grammar

namespace Definition
variable {d : Definition}

/-- The entries of a definition have the syntax errors that they should have, and what is left of
them is all that has to do with what is built and with its other diagnostics. -/
def Recovers (d : Definition) (names : NameTable) (leaves : Entry → List Note → Prop)
    (entries : List Entry) : Prop :=
  ∃ built faults deeds draft, d.build names = .ok built ∧
    List.Forall₂ Entry.Faults entries faults ∧ List.Forall₂ leaves entries deeds ∧
    built.diagnostics.syntaxErrors.map (·.position) = faults.flatten.map (·.position) ∧
    Draft.run d (d.names names) { circuit := .empty (d.names names) } (deeds.flatten.map .note) =
      .ok (draft, built.diagnostics.semantic) ∧
    built.circuit = draft.circuit

theorem filter_isDeed_events (d : Definition) :
    d.events.filter Event.isDeed = (d.notes.filter Note.isDeed).map .note := by
  rw [filter_events fun _ => rfl, List.filter_filter]
  refine congrArg (fun p => (d.notes.filter p).map Event.note) (funext fun n => ?_)
  cases n <;> rfl

/-- Whatever the items are, each has its own syntax error, and the statements that they start with
are performed. The name of a device whose declaration breaks off after it is taken. -/
theorem recovers {entries : List Entry} (h : IsFrame d.valid entries) (names : NameTable) :
    d.Recovers names Entry.Leaves entries := by
  have hs := Draft.sound_empty (d.knowsPins_names names)
  obtain ⟨draft, ds, hrun, hbuild⟩ := d.build_eq names
  have hdeeds := Draft.run_deeds hs hrun none false
  obtain ⟨left, hwalk⟩ := Outline.walks_outline d.valid
  have hpositions := Draft.positions_of_run hs (fun hended => by cases hended)
    (by rw [filterMap_place?_events]; exact hwalk.pairwise_places d.position_ne_last) hrun
  obtain ⟨faults, hfaults, hplaces⟩ := exists_all_faults d.last.position h.part_ne_close
  rw [filterMap_place?_events, notes, h.filterMap_place?, hplaces] at hpositions
  rw [filter_isDeed_events, notes, h.filter_isDeed, List.flatMap_def] at hdeeds
  have hleaves : List.Forall₂ Entry.Leaves entries
      (entries.map fun e => e.notes.filter Note.isDeed) := by
    rw [List.forall₂_map_right_iff, List.forall₂_same]
    exact fun e he => e.leaves_notes (h.part_ne_close e he)
  refine ⟨_, faults, _, _, hbuild, hfaults, hleaves, ?_, hdeeds, rfl⟩
  have hsub : faults.flatten.Sublist (d.valid ++ [d.last]) :=
    ((sublist_of_faults hfaults).trans h.sublist).trans (List.sublist_append_left ..)
  have hnodup : (faults.flatten.map (·.position)).Nodup :=
    List.pairwise_map.2 ((d.pairwise_position.sublist hsub).imp fun h => h.ne)
  exact hpositions.trans (Position.reported_eq_self hnodup fun _ h => by cases h)

/-- Two declarations of one name, the first of which breaks off after it. -/
def redeclared : Definition where
  text := .ofString "DEVICES: CLOCK C X, SWITCH C 0; CONNECT: ; MONITOR: ; END;"

def brokenClock : Entry where
  part := .devices
  item := [⟨.keyword, .ofString "CLOCK", ⟨1, 10⟩⟩, ⟨.name, .ofString "C", ⟨1, 16⟩⟩,
    ⟨.name, .ofString "X", ⟨1, 18⟩⟩]
  mark := ⟨.comma, .ofString ",", ⟨1, 19⟩⟩

def secondSwitch : Entry where
  part := .devices
  item := [⟨.keyword, .ofString "SWITCH", ⟨1, 21⟩⟩, ⟨.name, .ofString "C", ⟨1, 28⟩⟩,
    ⟨.number, .ofString "0", ⟨1, 30⟩⟩]
  mark := ⟨.semicolon, .ofString ";", ⟨1, 31⟩⟩

theorem isFrame_redeclared : IsFrame redeclared.valid [brokenClock, secondSwitch] := by
  have hvalid : redeclared.valid =
      (⟨.keyword, Section.devices.text, ⟨1, 1⟩⟩ :: ⟨.colon, .ofString ":", ⟨1, 8⟩⟩ ::
        (brokenClock.item ++ brokenClock.mark :: (secondSwitch.item ++ [secondSwitch.mark]))) ++
      [⟨.keyword, Section.connect.text, ⟨1, 33⟩⟩, ⟨.colon, .ofString ":", ⟨1, 40⟩⟩,
        ⟨.semicolon, .ofString ";", ⟨1, 42⟩⟩] ++
      [⟨.keyword, Section.monitor.text, ⟨1, 44⟩⟩, ⟨.colon, .ofString ":", ⟨1, 51⟩⟩,
        ⟨.semicolon, .ofString ";", ⟨1, 53⟩⟩] ++
      [⟨.keyword, Section.close.text, ⟨1, 55⟩⟩, ⟨.semicolon, .ofString ";", ⟨1, 58⟩⟩] := by
    decide +kernel
  have hclock : ∀ x ∈ brokenClock.item, IsInner x := by
    simp only [isInner_iff]
    decide
  have hswitch : ∀ x ∈ secondSwitch.item, IsInner x := by
    simp only [isInner_iff]
    decide
  rw [hvalid]
  exact .mk (.items ⟨rfl, rfl⟩ rfl (.cons hclock rfl (.last hswitch rfl)) (by decide))
    (.empty (by decide) ⟨rfl, rfl⟩ rfl rfl) (.empty (by decide) ⟨rfl, rfl⟩ rfl rfl) ⟨rfl, rfl⟩ rfl

theorem recovers_redeclared : IsFrame redeclared.valid [brokenClock, secondSwitch] ∧
    redeclared.Recovers {} Entry.Leaves [brokenClock, secondSwitch] :=
  ⟨isFrame_redeclared, recovers isFrame_redeclared {}⟩

/-- The second declaration would make a device if nothing was left of the first one. -/
theorem not_recovers_redeclared : IsFrame redeclared.valid [brokenClock, secondSwitch] ∧
    ¬ redeclared.Recovers {} Entry.Performs [brokenClock, secondSwitch] := by
  refine ⟨isFrame_redeclared, ?_⟩
  rintro ⟨built, faults, deeds, draft, hbuild, -, hdeeds, -, hrun, -⟩
  cases hdeeds with
  | cons hclock hdeeds =>
  cases hdeeds with
  | cons hswitch hdeeds =>
  cases hdeeds
  rw [(Entry.performs_iff (by decide)).1 hclock, (Entry.performs_iff (by decide)).1 hswitch] at hrun
  have heval : ((redeclared.build {}).toOption.map fun b => b.diagnostics.semantic.length) = some 1 ∧
      ((Draft.run redeclared (redeclared.names {}) { circuit := .empty (redeclared.names {}) }
        ([(Item.read brokenClock.part brokenClock.item).outcome.deeds.filter Note.isComplete,
          (Item.read secondSwitch.part secondSwitch.item).outcome.deeds.filter
            Note.isComplete].flatten.map .note)).toOption.map fun r => r.2.length) = some 0 := by
    decide +kernel
  rw [hbuild, hrun] at heval
  obtain ⟨hone, hzero⟩ := heval
  exact absurd ((Option.some.inj hone).symm.trans (Option.some.inj hzero)) (by decide)

end Definition

end GateSim
