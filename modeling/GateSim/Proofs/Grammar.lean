import GateSim.Item

/-!
# The grammar of circuit definitions

`Grammar.IsSentence symbols statements`: the symbols before the end of the file are a circuit
definition, and the statements are what its items say. The reader of an item finds a complete
statement and nothing after it exactly if the item is one of the grammar
(`Item.read_eq_complete_iff`).
-/

namespace GateSim

namespace Statement

def isDevice : Statement → Bool
  | .device .. => true
  | _ => false

def symbols : Statement → List Symbol
  | .device _ name parameter => name :: parameter.toList
  | .connection source sourcePin target targetPin => source :: target :: targetPin :: sourcePin.toList
  | .monitor name pin => name :: pin.toList

end Statement

namespace Grammar

def IsWord (s : Section) (x : Symbol) : Prop := x.type = .keyword ∧ x.text = s.text

def IsKind (kind : Kind) (x : Symbol) : Prop := x.type = .keyword ∧ x.text = kind.text

def IsName (x : Symbol) : Prop := x.type = .name

/-- `Q` or `QBAR`. -/
def IsOutputPin (x : Symbol) : Prop := IsName x ∧ x.text ∈ PinWord.outputs

/-- `I1` to `I16`, `DATA`, `CLK`, `SET` or `CLEAR`. -/
def IsInputPin (x : Symbol) : Prop := IsName x ∧ x.text ∈ PinWord.inputs

/-- The parameter of a declaration, without a leading zero if it is a decimal number. -/
inductive IsParameter (kind : Kind) : List Symbol → Option Symbol → Prop
  | number {x : Symbol} : kind.takesParameter = true → x.type = .number →
      (kind.takesNumber = true → x.hasLeadingZero = false) → IsParameter kind [x] (some x)
  | none : kind.takesParameter = false → IsParameter kind [] none

/-- `name` or `name.PIN`. -/
inductive IsOutput : List Symbol → Symbol → Option Symbol → Prop
  | unnamed {name : Symbol} : IsName name → IsOutput [name] name none
  | named {name dot pin : Symbol} : IsName name → dot.type = .dot → IsOutputPin pin →
      IsOutput [name, dot, pin] name (some pin)

inductive IsStatement : Section → List Symbol → Statement → Prop
  | device {kind : Kind} {k name : Symbol} {xs : List Symbol} {parameter : Option Symbol} :
      IsKind kind k → IsName name → IsParameter kind xs parameter →
      IsStatement .devices (k :: name :: xs) (.device kind name parameter)
  | connection {xs : List Symbol} {source arrow target dot pin : Symbol}
      {sourcePin : Option Symbol} :
      IsOutput xs source sourcePin → arrow.type = .arrow → IsName target → dot.type = .dot →
      IsInputPin pin →
      IsStatement .connect (xs ++ [arrow, target, dot, pin])
        (.connection source sourcePin target pin)
  | monitor {xs : List Symbol} {name : Symbol} {pin : Option Symbol} :
      IsOutput xs name pin → IsStatement .monitor xs (.monitor name pin)

inductive IsItems (s : Section) : List Symbol → List Statement → Prop
  | single {xs : List Symbol} {st : Statement} : IsStatement s xs st → IsItems s xs [st]
  | cons {xs ys : List Symbol} {comma : Symbol} {st : Statement} {sts : List Statement} :
      IsStatement s xs st → comma.type = .comma → IsItems s ys sts →
      IsItems s (xs ++ comma :: ys) (st :: sts)

/-- A section, from its word to its semicolon. Only devices have to be there. -/
inductive IsPart (s : Section) : List Symbol → List Statement → Prop
  | items {word colon semicolon : Symbol} {xs : List Symbol} {sts : List Statement} :
      IsWord s word → colon.type = .colon → IsItems s xs sts → semicolon.type = .semicolon →
      IsPart s (word :: colon :: xs ++ [semicolon]) sts
  | empty {word colon semicolon : Symbol} :
      s ≠ .devices → IsWord s word → colon.type = .colon → semicolon.type = .semicolon →
      IsPart s [word, colon, semicolon] []

inductive IsSentence : List Symbol → List Statement → Prop
  | mk {devices connect monitor : List Symbol} {ds cs ms : List Statement} {word semicolon : Symbol} :
      IsPart .devices devices ds → IsPart .connect connect cs → IsPart .monitor monitor ms →
      IsWord .close word → semicolon.type = .semicolon →
      IsSentence (devices ++ connect ++ monitor ++ [word, semicolon]) (ds ++ cs ++ ms)

end Grammar

open Grammar

/-! ### Words -/

namespace Section

theorem ofText?_eq_some_iff {t : Text} {s : Section} : ofText? t = some s ↔ t = s.text := by
  refine ⟨fun h => ?_, fun h => h ▸ ofText?_text s⟩
  unfold ofText? at h
  have h' := List.find?_some h
  exact (beq_iff_eq.1 h').symm

end Section

namespace Kind

theorem ofText?_eq_some_iff {t : Text} {k : Kind} : ofText? t = some k ↔ t = k.text := by
  refine ⟨fun h => ?_, fun h => h ▸ ofText?_text k⟩
  unfold ofText? at h
  have h' := List.find?_some h
  exact (beq_iff_eq.1 h').symm

theorem text_ne_section (k : Kind) (s : Section) : k.text ≠ s.text := by
  cases k <;> cases s <;> decide

end Kind

namespace Symbol

theorem section?_eq_some_iff {x : Symbol} {s : Section} : x.section? = some s ↔ IsWord s x := by
  unfold section? IsWord
  split
  · next h => rw [Section.ofText?_eq_some_iff]; simp [h]
  · next h => simp [h]

theorem kind?_eq_some_iff {x : Symbol} {k : Kind} : x.kind? = some k ↔ IsKind k x := by
  unfold kind? IsKind
  split
  · next h => rw [Kind.ofText?_eq_some_iff]; simp [h]
  · next h => simp [h]

theorem isSeparator_of_type {x : Symbol} (h : x.type = .comma ∨ x.type = .semicolon) :
    x.isSeparator = true := by
  rcases h with h | h <;> simp [isSeparator, h]

theorem isSeparator_eq_false {x : Symbol} (h : x.type ≠ .keyword) (h1 : x.type ≠ .comma)
    (h2 : x.type ≠ .semicolon) : x.isSeparator = false := by
  simp [isSeparator, section?, h, h1, h2]

theorem isSeparator_of_isKind {x : Symbol} {k : Kind} (h : IsKind k x) :
    x.isSeparator = false := by
  have hs : x.section? = none := Option.eq_none_iff_forall_ne_some.2 fun s hs =>
    k.text_ne_section s (h.2.symm.trans (section?_eq_some_iff.1 hs).2)
  simp [isSeparator, hs, h.1]

end Symbol

/-! ### Items have no separators -/

namespace Grammar

theorem IsParameter.isSeparator {kind : Kind} {xs : List Symbol} {p : Option Symbol}
    (h : IsParameter kind xs p) : ∀ x ∈ xs, x.isSeparator = false := by
  cases h with
  | number _ hx _ => simp [Symbol.isSeparator_eq_false, hx]
  | none => simp

theorem IsOutput.isSeparator {xs : List Symbol} {name : Symbol} {pin : Option Symbol}
    (h : IsOutput xs name pin) : ∀ x ∈ xs, x.isSeparator = false := by
  cases h with
  | unnamed h => simp [Symbol.isSeparator_eq_false, show _ = _ from h]
  | named h hd hp =>
    simp [Symbol.isSeparator_eq_false, show _ = _ from h, hd, show _ = _ from hp.1]

theorem IsStatement.isSeparator {s : Section} {xs : List Symbol} {st : Statement}
    (h : IsStatement s xs st) : ∀ x ∈ xs, x.isSeparator = false := by
  cases h with
  | device hk hn hp =>
    simp only [List.mem_cons, forall_eq_or_imp]
    exact ⟨Symbol.isSeparator_of_isKind hk,
      by simp [Symbol.isSeparator_eq_false, show _ = _ from hn], hp.isSeparator⟩
  | connection ho ha ht hd hp =>
    simp only [List.mem_append, or_imp, forall_and]
    refine ⟨ho.isSeparator, ?_⟩
    simp [Symbol.isSeparator_eq_false, ha, show _ = _ from ht, hd, show _ = _ from hp.1]
  | monitor ho => exact ho.isSeparator

/-! ### The statements of a sentence -/

theorem IsOutput.mem {xs : List Symbol} {name : Symbol} {pin : Option Symbol}
    (h : IsOutput xs name pin) : ∀ x ∈ name :: pin.toList, x ∈ xs ∧ IsName x := by
  cases h with
  | unnamed h => simpa using h
  | named h _ hp => simpa using ⟨h, hp.1⟩

theorem IsParameter.mem {kind : Kind} {xs : List Symbol} {p : Option Symbol}
    (h : IsParameter kind xs p) : ∀ x ∈ p, x ∈ xs ∧ x.type = .number := by
  cases h with
  | number _ hx _ => simpa using hx
  | none => simp

/-- The symbols of a statement are named, and they stand in its item. -/
theorem IsStatement.mem {s : Section} {xs : List Symbol} {st : Statement}
    (h : IsStatement s xs st) : ∀ x ∈ st.symbols, x ∈ xs ∧ x.type.isNamed = true := by
  have hname : ∀ {x}, IsName x → x.type.isNamed = true := fun h => by rw [h]; rfl
  cases h with
  | device hk hn hp =>
    intro x hx
    rcases List.mem_cons.1 hx with rfl | hx
    · exact ⟨by simp, hname hn⟩
    · obtain ⟨hmem, hnum⟩ := hp.mem x (Option.mem_toList.1 hx)
      exact ⟨by simp [hmem], by rw [hnum]; rfl⟩
  | @connection ys source arrow target dot pin sourcePin ho ha ht hd hp =>
    have hsource : ∀ x ∈ source :: sourcePin.toList, x ∈ ys ++ [arrow, target, dot, pin] ∧
        x.type.isNamed = true :=
      fun x hx => ⟨List.mem_append_left _ (ho.mem x hx).1, hname (ho.mem x hx).2⟩
    simp only [Statement.symbols, List.forall_mem_cons] at hsource ⊢
    exact ⟨hsource.1, ⟨by simp, hname ht⟩, ⟨by simp, hname hp.1⟩, hsource.2⟩
  | monitor ho => exact fun x hx => ⟨(ho.mem x hx).1, hname (ho.mem x hx).2⟩

theorem IsStatement.isDevice {s : Section} {xs : List Symbol} {st : Statement}
    (h : IsStatement s xs st) : st.isDevice = true ↔ s = .devices := by
  cases h <;> simp [Statement.isDevice]

variable {s : Section} {xs : List Symbol} {sts : List Statement} {st : Statement}

theorem IsItems.exists_isStatement (h : IsItems s xs sts) (hst : st ∈ sts) :
    ∃ ys ⊆ xs, IsStatement s ys st := by
  induction h with
  | single h =>
    rw [List.mem_singleton.1 hst]
    exact ⟨_, List.Subset.refl _, h⟩
  | cons h _ _ ih =>
    rcases List.mem_cons.1 hst with rfl | hst
    · exact ⟨_, List.subset_append_left .., h⟩
    · obtain ⟨ys, hys, hs⟩ := ih hst
      exact ⟨ys, fun x hx => List.mem_append_right _ (List.mem_cons_of_mem _ (hys hx)), hs⟩

theorem IsPart.exists_isStatement (h : IsPart s xs sts) (hst : st ∈ sts) :
    ∃ ys ⊆ xs, IsStatement s ys st := by
  cases h with
  | items _ _ h _ =>
    obtain ⟨ys, hys, hs⟩ := h.exists_isStatement hst
    exact ⟨ys, fun x hx => List.mem_append_left _
      (List.mem_cons_of_mem _ (List.mem_cons_of_mem _ (hys hx))), hs⟩
  | empty => cases hst

theorem IsPart.isDevice (h : IsPart s xs sts) :
    ∀ st ∈ sts, st.isDevice = true ↔ s = .devices := by
  intro st hst
  obtain ⟨_, _, hs⟩ := h.exists_isStatement hst
  exact hs.isDevice

theorem IsSentence.exists_isStatement (h : IsSentence xs sts) (hst : st ∈ sts) :
    ∃ s, ∃ ys ⊆ xs, IsStatement s ys st := by
  obtain ⟨hds, hcs, hms, _, _⟩ := h
  rcases List.mem_append.1 hst with hst | hst
  · rcases List.mem_append.1 hst with hst | hst
    · obtain ⟨ys, hys, hs⟩ := hds.exists_isStatement hst
      exact ⟨_, ys, fun x hx => by simp [hys hx], hs⟩
    · obtain ⟨ys, hys, hs⟩ := hcs.exists_isStatement hst
      exact ⟨_, ys, fun x hx => by simp [hys hx], hs⟩
  · obtain ⟨ys, hys, hs⟩ := hms.exists_isStatement hst
    exact ⟨_, ys, fun x hx => by simp [hys hx], hs⟩

/-- The devices of a sentence are declared before all else. -/
theorem IsSentence.pairwise_isDevice (h : IsSentence xs sts) :
    sts.Pairwise fun a b => b.isDevice = true → a.isDevice = true := by
  obtain @⟨_, _, _, ds, cs, ms, _, _, hds, hcs, hms, _, _⟩ := h
  have hds' : ∀ a ∈ ds, a.isDevice = true := fun a ha => (hds.isDevice a ha).2 rfl
  have hrest : ∀ b ∈ cs ++ ms, b.isDevice = true → False := by
    intro b hb hdev
    rcases List.mem_append.1 hb with hb | hb
    · cases (hcs.isDevice b hb).1 hdev
    · cases (hms.isDevice b hb).1 hdev
  rw [List.append_assoc, List.pairwise_append]
  refine ⟨?_, ?_, fun a ha _ _ _ => hds' a ha⟩
  · exact List.pairwise_of_forall_mem_list fun a ha _ _ _ => hds' a ha
  · exact List.pairwise_of_forall_mem_list fun _ _ b hb hdev => (hrest b hb hdev).elim

end Grammar

/-! ### The readers of items -/

namespace Item

variable {st : Statement} {xs ys rest : List Symbol}

theorem expect_eq_complete_iff {α : Type} {accept : Symbol → Option α} {fault : SyntaxFault}
    {go : α → List Symbol → Reading} :
    expect accept fault go xs = ⟨.complete st, rest⟩ ↔
      ∃ x ys a, xs = x :: ys ∧ accept x = some a ∧ go a ys = ⟨.complete st, rest⟩ := by
  cases xs with
  | nil => simp [expect]
  | cons x ys => cases h : accept x <;> simp [expect, h, and_assoc]

theorem expect_guard_eq_complete_iff {p : Symbol → Bool} {fault : SyntaxFault}
    {go : Symbol → List Symbol → Reading} :
    expect (Option.guard p) fault go xs = ⟨.complete st, rest⟩ ↔
      ∃ x ys, xs = x :: ys ∧ p x = true ∧ go x ys = ⟨.complete st, rest⟩ := by
  simp only [expect_eq_complete_iff, Option.guard_eq_some_iff]
  grind

theorem isName_iff {x : Symbol} : x.isName = true ↔ IsName x := by simp [Symbol.isName, IsName]

theorem isOutputPin_iff {x : Symbol} : x.isOutputPin = true ↔ IsOutputPin x := by
  simp [Symbol.isOutputPin, IsOutputPin, isName_iff]

theorem isInputPin_iff {x : Symbol} : x.isInputPin = true ↔ IsInputPin x := by
  simp [Symbol.isInputPin, IsInputPin, isName_iff]

theorem parameter_eq_complete_iff {kind : Kind} {name : Symbol} :
    parameter kind name xs = ⟨.complete st, []⟩ ↔
      ∃ p, IsParameter kind xs p ∧ st = .device kind name p := by
  constructor
  · intro h
    unfold parameter at h
    split at h
    · next ht =>
      split at h
      · simp at h
      · next x rest =>
        split at h
        · simp at h
        · next hx =>
          split at h
          · simp at h
          · next hz =>
            simp only [Reading.mk.injEq, Outcome.complete.injEq] at h
            obtain ⟨rfl, rfl⟩ := h
            exact ⟨some x, .number ht (Decidable.not_not.1 hx) (by simpa using hz), rfl⟩
    · next ht =>
      simp only [Reading.mk.injEq, Outcome.complete.injEq] at h
      obtain ⟨rfl, rfl⟩ := h
      exact ⟨none, .none (Bool.eq_false_iff.2 ht), rfl⟩
  · rintro ⟨p, hp, rfl⟩
    cases hp with
    | number ht hx hz => simpa [parameter, ht, hx] using hz
    | none ht => simp [parameter, ht]

/-- A name with its pin is read before the rest of the item. -/
theorem output_eq_complete {go : Symbol → Option Symbol → List Symbol → Reading}
    (h : (expectName fun name => optionalPin (go name)) xs = ⟨.complete st, rest⟩) :
    ∃ ys zs name pin, xs = ys ++ zs ∧ IsOutput ys name pin ∧ go name pin zs = ⟨.complete st, rest⟩ := by
  obtain ⟨name, ys, rfl, hname, h⟩ := expect_guard_eq_complete_iff.1 h
  rw [isName_iff] at hname
  cases ys with
  | nil => exact ⟨[name], [], name, none, rfl, .unnamed hname, h⟩
  | cons dot ys =>
    simp only [optionalPin] at h
    split at h
    · next hdot =>
      obtain ⟨pin, zs, rfl, hpin, h⟩ := expect_guard_eq_complete_iff.1 h
      exact ⟨[name, dot, pin], zs, name, some pin, rfl,
        .named hname hdot (isOutputPin_iff.1 hpin), h⟩
    · exact ⟨[name], dot :: ys, name, none, rfl, .unnamed hname, h⟩

theorem output_append {go : Symbol → Option Symbol → List Symbol → Reading} {name : Symbol}
    {pin : Option Symbol} (h : IsOutput ys name pin) (hdot : ∀ x ∈ rest.head?, x.type ≠ .dot) :
    (expectName fun name => optionalPin (go name)) (ys ++ rest) = go name pin rest := by
  cases h with
  | unnamed hn =>
    cases rest with
    | nil => simp [expectName, expect, isName_iff.2 hn, optionalPin]
    | cons x rest => simp_all [expectName, expect, isName_iff.2 hn, optionalPin]
  | named hn hd hp =>
    simp [expectName, expect, isName_iff.2 hn, optionalPin, hd, isOutputPin_iff.2 hp]

/-- An item is read as a statement with nothing left exactly if it is an item of the grammar. -/
theorem read_eq_complete_iff {s : Section} :
    read s xs = ⟨.complete st, []⟩ ↔ IsStatement s xs st := by
  constructor
  · intro h
    cases s with
    | devices =>
      obtain ⟨k, ys, kind, rfl, hk, h⟩ := expect_eq_complete_iff.1 h
      obtain ⟨name, ys, rfl, hn, h⟩ := expect_guard_eq_complete_iff.1 h
      obtain ⟨p, hp, rfl⟩ := parameter_eq_complete_iff.1 h
      exact .device (Symbol.kind?_eq_some_iff.1 hk) (isName_iff.1 hn) hp
    | connect =>
      obtain ⟨ys, zs, source, pin, rfl, ho, h⟩ := output_eq_complete h
      obtain ⟨arrow, zs, rfl, ha, h⟩ := expect_guard_eq_complete_iff.1 h
      obtain ⟨target, zs, rfl, ht, h⟩ := expect_guard_eq_complete_iff.1 h
      obtain ⟨dot, zs, rfl, hd, h⟩ := expect_guard_eq_complete_iff.1 h
      obtain ⟨p, zs, rfl, hp, h⟩ := expect_guard_eq_complete_iff.1 h
      simp only [Reading.mk.injEq, Outcome.complete.injEq] at h
      obtain ⟨rfl, rfl⟩ := h
      exact .connection ho (beq_iff_eq.1 ha) (isName_iff.1 ht) (beq_iff_eq.1 hd)
        (isInputPin_iff.1 hp)
    | monitor =>
      obtain ⟨ys, zs, name, pin, rfl, ho, h⟩ := output_eq_complete h
      simp only [Reading.mk.injEq, Outcome.complete.injEq] at h
      obtain ⟨rfl, rfl⟩ := h
      rw [List.append_nil]
      exact .monitor ho
    | close => simp [read] at h
  · intro h
    cases h with
    | device hk hn hp =>
      refine expect_eq_complete_iff.2 ⟨_, _, _, rfl, Symbol.kind?_eq_some_iff.2 hk, ?_⟩
      refine expect_guard_eq_complete_iff.2 ⟨_, _, rfl, isName_iff.2 hn, ?_⟩
      exact parameter_eq_complete_iff.2 ⟨_, hp, rfl⟩
    | connection ho ha ht hd hp =>
      refine (output_append ho (by simp [ha])).trans ?_
      simp [expectName, expect, ha, isName_iff.2 ht, hd, isInputPin_iff.2 hp]
    | @monitor xs name pin ho =>
      rw [← List.append_nil xs]
      exact output_append ho (by simp)

end Item

end GateSim
