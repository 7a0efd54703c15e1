import Mathlib.Data.List.Perm.Basic
import GateSim.Definition
import GateSim.Proofs.Grammar
import GateSim.Proofs.Parameter

/-!
# Definitions with their items in another order

`Definition.Reorders s d d'`: the definitions differ in the order of the items of one section, and
perhaps in blanks and comments. A comma, a semicolon or a section word always ends an item, so each
section of a sentence is one list of items (`Definition.exists_hasItems`), and if these are put in
another order then the symbols are again a sentence, with the same statements in that order
(`Definition.Reorders.exists_isSections`).
-/

namespace GateSim

/-- The symbol wherever it stands. -/
def Symbol.placeless (x : Symbol) : Symbol := { x with position := .start }

@[simp] theorem Symbol.type_placeless (x : Symbol) : x.placeless.type = x.type := rfl

@[simp] theorem Symbol.text_placeless (x : Symbol) : x.placeless.text = x.text := rfl

/-- The statement wherever it stands. -/
def Statement.placeless : Statement → Statement
  | .device kind name parameter => .device kind name.placeless (parameter.map Symbol.placeless)
  | .connection source sourcePin target targetPin =>
    .connection source.placeless (sourcePin.map Symbol.placeless) target.placeless
      targetPin.placeless
  | .monitor name pin => .monitor name.placeless (pin.map Symbol.placeless)

namespace Section

def symbol (s : Section) : Symbol := ⟨.keyword, s.text, .start⟩

def comma : Symbol := ⟨.comma, .ofString ",", .start⟩

def colon : Symbol := ⟨.colon, .ofString ":", .start⟩

def semicolon : Symbol := ⟨.semicolon, .ofString ";", .start⟩

/-- A section as the list of its items. -/
def list (s : Section) (items : List (List Symbol)) : List Symbol :=
  s.symbol :: colon :: ([comma].intercalate items ++ [semicolon])

/-- What there is for each section. -/
def table {α : Type} (devices connect monitor close : α) : Section → α
  | .devices => devices
  | .connect => connect
  | .monitor => monitor
  | .close => close

theorem text_injective {s t : Section} (h : s.text = t.text) : s = t := by
  have hs := ofText?_text s
  rw [h, ofText?_text t] at hs
  exact (Option.some.inj hs).symm

theorem exists_append (s : Section) : ∃ before after, all = before ++ s :: after ∧
    s ∉ before ∧ s ∉ after := by
  obtain ⟨before, after, hall⟩ := List.append_of_mem (show s ∈ all by cases s <;> decide)
  have hnodup : (before ++ s :: after).Nodup := hall ▸ (by decide : all.Nodup)
  obtain ⟨-, hafter, hdisjoint⟩ := List.nodup_append.1 hnodup
  exact ⟨before, after, hall, fun hs => hdisjoint s hs s (List.mem_cons_self ..) rfl,
    (List.nodup_cons.1 hafter).1⟩

end Section

namespace Definition

/-- The symbols of a definition, wherever they stand. -/
def content (d : Definition) : List Symbol := d.text.symbols.1.map Symbol.placeless

/-- The items of a section, none of which holds a mark that would end it. -/
structure HasItems (d : Definition) (s : Section) (front : List Symbol)
    (items : List (List Symbol)) (back : List Symbol) : Prop where
  content : d.content = front ++ s.list items ++ back
  marks : ∀ item ∈ items, ∀ x ∈ item, x.type ≠ .comma ∧ x.type ≠ .semicolon

/-- The other definition has the items of a section in another order. -/
def Reorders (s : Section) (d d' : Definition) : Prop :=
  ∃ front items items' back, d.HasItems s front items back ∧ items.Perm items' ∧
    d'.content = front ++ s.list items' ++ back

end Definition

/-- The first element of a kind tells two halves of a list apart. -/
theorem eq_of_append_cons {α : Type} {P : α → Prop} {l₁ l₂ r₁ r₂ : List α} {a b : α}
    (h : l₁ ++ a :: r₁ = l₂ ++ b :: r₂) (h₁ : ∀ x ∈ l₁, ¬ P x) (h₂ : ∀ x ∈ l₂, ¬ P x) (ha : P a)
    (hb : P b) : l₁ = l₂ ∧ a = b ∧ r₁ = r₂ := by
  induction l₁ generalizing l₂ with
  | nil =>
    cases l₂ with
    | nil => exact ⟨rfl, List.cons.inj h⟩
    | cons y l₂ =>
      obtain ⟨rfl, -⟩ := List.cons.inj h
      exact absurd ha (h₂ a (List.mem_cons_self ..))
  | cons x l₁ ih =>
    cases l₂ with
    | nil =>
      obtain ⟨rfl, -⟩ := List.cons.inj h
      exact absurd hb (h₁ x (List.mem_cons_self ..))
    | cons y l₂ =>
      obtain ⟨rfl, htail⟩ := List.cons.inj h
      obtain ⟨rfl, heq⟩ := ih htail (List.forall_mem_cons.1 h₁).2 (List.forall_mem_cons.1 h₂).2
      exact ⟨rfl, heq⟩

namespace Grammar
variable {s t : Section} {xs ys : List Symbol} {st : Statement} {sts : List Statement}

/-! ### Symbols elsewhere -/

theorem IsParameter.of_map_eq {kind : Kind} {p : Option Symbol} (h : IsParameter kind xs p)
    (heq : ys.map Symbol.placeless = xs.map Symbol.placeless) :
    ∃ p', IsParameter kind ys p' ∧ p'.map Symbol.placeless = p.map Symbol.placeless := by
  cases h with
  | @number x ht hx hz =>
    obtain ⟨y, rfl, hy⟩ := List.map_eq_singleton_iff.1 heq
    refine ⟨some y, .number ht ((congrArg (·.type) hy).trans hx) fun hn => ?_, congrArg some hy⟩
    exact (congrArg (·.hasLeadingZero) hy).trans (hz hn)
  | none ht =>
    obtain rfl := List.map_eq_nil_iff.1 heq
    exact ⟨_, .none ht, rfl⟩

theorem IsOutput.of_map_eq {name : Symbol} {pin : Option Symbol} (h : IsOutput xs name pin)
    (heq : ys.map Symbol.placeless = xs.map Symbol.placeless) :
    ∃ name' pin', IsOutput ys name' pin' ∧ name'.placeless = name.placeless ∧
      pin'.map Symbol.placeless = pin.map Symbol.placeless := by
  cases h with
  | unnamed hn =>
    obtain ⟨y, rfl, hy⟩ := List.map_eq_singleton_iff.1 heq
    exact ⟨y, none, .unnamed ((congrArg IsName hy).mpr hn), hy, rfl⟩
  | named hn hd hp =>
    obtain ⟨name', ys, rfl, hname, heq⟩ := List.map_eq_cons_iff.1 heq
    obtain ⟨dot', ys, rfl, hdot, heq⟩ := List.map_eq_cons_iff.1 heq
    obtain ⟨pin', rfl, hpin⟩ := List.map_eq_singleton_iff.1 heq
    exact ⟨name', some pin', .named ((congrArg IsName hname).mpr hn)
      ((congrArg (·.type) hdot).trans hd) ((congrArg IsOutputPin hpin).mpr hp), hname,
      congrArg some hpin⟩

theorem IsStatement.of_map_eq (h : IsStatement s xs st)
    (heq : ys.map Symbol.placeless = xs.map Symbol.placeless) :
    ∃ st', IsStatement s ys st' ∧ st'.placeless = st.placeless := by
  cases h with
  | @device kind k name xs p hk hn hp =>
    obtain ⟨k', ys, rfl, hkey, heq⟩ := List.map_eq_cons_iff.1 heq
    obtain ⟨name', ys, rfl, hname, heq⟩ := List.map_eq_cons_iff.1 heq
    obtain ⟨p', hp', hparameter⟩ := hp.of_map_eq heq
    refine ⟨_, .device ((congrArg (IsKind kind) hkey).mpr hk) ((congrArg IsName hname).mpr hn) hp', ?_⟩
    simp only [Statement.placeless, hname, hparameter]
  | connection ho ha ht hd hp =>
    rw [List.map_append] at heq
    obtain ⟨ys, zs, rfl, hout, heq⟩ := List.map_eq_append_iff.1 heq
    obtain ⟨arrow', zs, rfl, harrow, heq⟩ := List.map_eq_cons_iff.1 heq
    obtain ⟨target', zs, rfl, htarget, heq⟩ := List.map_eq_cons_iff.1 heq
    obtain ⟨dot', zs, rfl, hdot, heq⟩ := List.map_eq_cons_iff.1 heq
    obtain ⟨pin', rfl, hpin⟩ := List.map_eq_singleton_iff.1 heq
    obtain ⟨source', sourcePin', ho', hsource, hsourcePin⟩ := ho.of_map_eq hout
    refine ⟨_, .connection ho' ((congrArg (·.type) harrow).trans ha)
      ((congrArg IsName htarget).mpr ht) ((congrArg (·.type) hdot).trans hd)
      ((congrArg IsInputPin hpin).mpr hp), ?_⟩
    simp only [Statement.placeless, hsource, hsourcePin, htarget, hpin]
  | monitor ho =>
    obtain ⟨name', pin', ho', hname, hpin⟩ := ho.of_map_eq heq
    refine ⟨_, .monitor ho', ?_⟩
    simp only [Statement.placeless, hname, hpin]

theorem IsItems.of_map_eq (h : IsItems s xs sts)
    (heq : ys.map Symbol.placeless = xs.map Symbol.placeless) :
    ∃ sts', IsItems s ys sts' ∧ sts'.map Statement.placeless = sts.map Statement.placeless := by
  induction h generalizing ys with
  | single hst =>
    obtain ⟨st', hst', hplace⟩ := hst.of_map_eq heq
    exact ⟨[st'], .single hst', congrArg ([·]) hplace⟩
  | cons hst hc _ ih =>
    rw [List.map_append] at heq
    obtain ⟨ys, zs, rfl, hitem, heq⟩ := List.map_eq_append_iff.1 heq
    obtain ⟨comma', zs, rfl, hcomma, heq⟩ := List.map_eq_cons_iff.1 heq
    obtain ⟨st', hst', hplace⟩ := hst.of_map_eq hitem
    obtain ⟨sts', hsts', hplaces⟩ := ih heq
    refine ⟨st' :: sts', .cons hst' ((congrArg (·.type) hcomma).trans hc) hsts', ?_⟩
    rw [List.map_cons, List.map_cons, hplace, hplaces]

theorem IsPart.of_map_eq (h : IsPart s xs sts)
    (heq : ys.map Symbol.placeless = xs.map Symbol.placeless) :
    ∃ sts', IsPart s ys sts' ∧ sts'.map Statement.placeless = sts.map Statement.placeless := by
  cases h with
  | items hw hc hi hsemi =>
    rw [List.cons_append, List.cons_append, List.map_cons, List.map_cons, List.map_append] at heq
    obtain ⟨word', ys, rfl, hword, heq⟩ := List.map_eq_cons_iff.1 heq
    obtain ⟨colon', ys, rfl, hcolon, heq⟩ := List.map_eq_cons_iff.1 heq
    obtain ⟨ys, zs, rfl, hitems, heq⟩ := List.map_eq_append_iff.1 heq
    obtain ⟨semicolon', rfl, hsemicolon⟩ := List.map_eq_singleton_iff.1 heq
    obtain ⟨sts', hsts', hplaces⟩ := hi.of_map_eq hitems
    exact ⟨sts', .items ((congrArg (IsWord s) hword).mpr hw) ((congrArg (·.type) hcolon).trans hc)
      hsts' ((congrArg (·.type) hsemicolon).trans hsemi), hplaces⟩
  | empty hs hw hc hsemi =>
    obtain ⟨word', ys, rfl, hword, heq⟩ := List.map_eq_cons_iff.1 heq
    obtain ⟨colon', ys, rfl, hcolon, heq⟩ := List.map_eq_cons_iff.1 heq
    obtain ⟨semicolon', rfl, hsemicolon⟩ := List.map_eq_singleton_iff.1 heq
    exact ⟨[], .empty hs ((congrArg (IsWord s) hword).mpr hw) ((congrArg (·.type) hcolon).trans hc)
      ((congrArg (·.type) hsemicolon).trans hsemi), rfl⟩

theorem IsSentence.of_map_eq (h : IsSentence xs sts)
    (heq : ys.map Symbol.placeless = xs.map Symbol.placeless) :
    ∃ sts', IsSentence ys sts' ∧ sts'.map Statement.placeless = sts.map Statement.placeless := by
  obtain ⟨hds, hcs, hms, hw, hsemi⟩ := h
  simp only [List.map_append] at heq
  obtain ⟨ys, zs, rfl, heq, hclose⟩ := List.map_eq_append_iff.1 heq
  obtain ⟨ys, monitor', rfl, heq, hmonitor⟩ := List.map_eq_append_iff.1 heq
  obtain ⟨devices', connect', rfl, hdevices, hconnect⟩ := List.map_eq_append_iff.1 heq
  obtain ⟨word', zs, rfl, hword, hclose⟩ := List.map_eq_cons_iff.1 hclose
  obtain ⟨semicolon', rfl, hsemicolon⟩ := List.map_eq_singleton_iff.1 hclose
  obtain ⟨ds, hds', hd⟩ := hds.of_map_eq hdevices
  obtain ⟨cs, hcs', hc⟩ := hcs.of_map_eq hconnect
  obtain ⟨ms, hms', hm⟩ := hms.of_map_eq hmonitor
  refine ⟨_, .mk hds' hcs' hms' ((congrArg (IsWord .close) hword).mpr hw)
    ((congrArg (·.type) hsemicolon).trans hsemi), ?_⟩
  simp only [List.map_append, hd, hc, hm]

/-! ### Items between commas -/

theorem not_isWord_of_isSeparator {x : Symbol} (h : x.isSeparator = false) : ¬ IsWord s x := by
  intro hw
  simp [Symbol.isSeparator, Symbol.section?_eq_some_iff.2 hw] at h

/-- No mark in an item would end it. -/
theorem IsStatement.ne_mark (h : IsStatement s xs st) :
    ∀ x ∈ xs, x.type ≠ .comma ∧ x.type ≠ .semicolon := by
  intro x hx
  have hsep := h.isSeparator x hx
  simp only [Symbol.isSeparator, Bool.or_eq_false_iff, beq_eq_false_iff_ne] at hsep
  exact hsep.1

theorem IsItems.mem (h : IsItems s xs sts) :
    ∀ x ∈ xs, (∀ t, ¬ IsWord t x) ∧ x.type ≠ .semicolon := by
  have hitem : ∀ {xs : List Symbol} {st : Statement}, IsStatement s xs st →
      ∀ x ∈ xs, (∀ t, ¬ IsWord t x) ∧ x.type ≠ .semicolon := fun hst x hx =>
    ⟨fun t => not_isWord_of_isSeparator (hst.isSeparator x hx), (hst.ne_mark x hx).2⟩
  induction h with
  | single hst => exact hitem hst
  | @cons xs ys comma st sts hst hc _ ih =>
    intro x hx
    rcases List.mem_append.1 hx with hx | hx
    · exact hitem hst x hx
    rcases List.mem_cons.1 hx with rfl | hx
    · refine ⟨fun t hw => ?_, by simp [hc]⟩
      have := hw.1
      simp [hc] at this
    · exact ih x hx

/-- Between commas stand the items. -/
theorem isItems_intercalate_iff {items : List (List Symbol)} (hne : items ≠ [])
    (hitems : ∀ item ∈ items, ∀ x ∈ item, x.type ≠ .comma) :
    IsItems s ([Section.comma].intercalate items) sts ↔ List.Forall₂ (IsStatement s) items sts := by
  induction items generalizing sts with
  | nil => exact absurd rfl hne
  | cons item items ih =>
    obtain ⟨hitem, hitems⟩ := List.forall_mem_cons.1 hitems
    cases items with
    | nil =>
      rw [List.intercalate_singleton]
      constructor
      · intro h
        cases h with
        | single hst => exact .cons hst .nil
        | cons _ hc _ => exact absurd hc (hitem _ (by simp))
      · intro h
        cases h with
        | cons hst hnil =>
          cases hnil
          exact .single hst
    | cons item' items =>
      rw [List.intercalate_cons_cons, List.append_assoc, List.singleton_append]
      have ih : ∀ sts, IsItems s ([Section.comma].intercalate (item' :: items)) sts ↔
          List.Forall₂ (IsStatement s) (item' :: items) sts := fun _ => ih (by simp) hitems
      constructor
      · intro h
        generalize hxs : item ++ Section.comma :: [Section.comma].intercalate (item' :: items) = xs at h
        cases h with
        | single hst => exact absurd rfl (hst.ne_mark Section.comma (by simp [← hxs])).1
        | cons hst hc hrest =>
          obtain ⟨rfl, rfl, rfl⟩ :=
            eq_of_append_cons hxs hitem (fun x hx => (hst.ne_mark x hx).1) rfl hc
          exact .cons hst ((ih _).1 hrest)
      · intro h
        cases h with
        | cons hst hrest => exact .cons hst rfl ((ih _).2 hrest)

/-! ### Sentences as lists of sections -/

/-- What stands between the colon and the semicolon of a section. -/
def IsBody (s : Section) (xs : List Symbol) (sts : List Statement) : Prop :=
  IsItems s xs sts ∨ s ≠ .devices ∧ xs = [] ∧ sts = []

theorem IsBody.mem (h : IsBody s xs sts) :
    ∀ x ∈ xs, (∀ t, ¬ IsWord t x) ∧ x.type ≠ .semicolon := by
  rcases h with h | ⟨-, rfl, -⟩
  · exact h.mem
  · simp

theorem isPart_iff : IsPart s xs sts ↔ ∃ word colon body semicolon,
    xs = word :: colon :: (body ++ [semicolon]) ∧ IsWord s word ∧ colon.type = .colon ∧
      semicolon.type = .semicolon ∧ IsBody s body sts := by
  constructor
  · intro h
    cases h with
    | items hw hc hi hsemi => exact ⟨_, _, _, _, rfl, hw, hc, hsemi, Or.inl hi⟩
    | empty hs hw hc hsemi => exact ⟨_, _, [], _, rfl, hw, hc, hsemi, Or.inr ⟨hs, rfl, rfl⟩⟩
  · rintro ⟨word, colon, body, semicolon, rfl, hw, hc, hsemi, hi | ⟨hs, rfl, rfl⟩⟩
    · exact .items hw hc hi hsemi
    · exact .empty hs hw hc hsemi

/-- A section, or the end after the last one. -/
inductive IsPiece : Section → List Symbol → List Statement → Prop
  | part {s : Section} {xs : List Symbol} {sts : List Statement} :
      s ≠ .close → IsPart s xs sts → IsPiece s xs sts
  | close {word semicolon : Symbol} :
      IsWord .close word → semicolon.type = .semicolon → IsPiece .close [word, semicolon] []

/-- The symbols and the statements of each section, in a sentence. -/
def IsSections (p : Section → List Symbol) (q : Section → List Statement) : Prop :=
  ∀ s, IsPiece s (p s) (q s)

theorem IsPiece.isPart (h : IsPiece s xs sts) (hs : s ≠ .close) : IsPart s xs sts := by
  cases h with
  | part _ h => exact h
  | close => exact absurd rfl hs

theorem isSentence_iff : IsSentence xs sts ↔
    ∃ p q, IsSections p q ∧ xs = Section.all.flatMap p ∧ sts = Section.all.flatMap q := by
  constructor
  · rintro @⟨devices, connect, monitor, ds, cs, ms, word, semicolon, hds, hcs, hms, hw, hsemi⟩
    refine ⟨Section.table devices connect monitor [word, semicolon], Section.table ds cs ms [],
      fun s => ?_, by simp [Section.all, Section.table], by simp [Section.all, Section.table]⟩
    cases s with
    | devices => exact .part (by decide) hds
    | connect => exact .part (by decide) hcs
    | monitor => exact .part (by decide) hms
    | close => exact .close hw hsemi
  · rintro ⟨p, q, h, rfl, rfl⟩
    have hclose := h .close
    generalize hp : p .close = xs, hq : q .close = sts at hclose
    cases hclose with
    | part hs _ => exact absurd rfl hs
    | close hw hsemi =>
      have hs := IsSentence.mk ((h .devices).isPart (by decide)) ((h .connect).isPart (by decide))
        ((h .monitor).isPart (by decide)) hw hsemi
      simpa [Section.all, hp, hq] using hs

/-- A section has no word but its own. -/
theorem IsPiece.eq_of_isWord (h : IsPiece s xs sts) {x : Symbol} (hx : x ∈ xs) (hw : IsWord t x) :
    t = s := by
  have htext : ∀ {word : Symbol}, IsWord s word → IsWord t word → t = s := fun h h' =>
    Section.text_injective (h'.2.symm.trans h.2)
  cases h with
  | part _ h =>
    obtain ⟨word, colon, body, semicolon, rfl, hword, hc, hsemi, hbody⟩ := isPart_iff.1 h
    simp only [List.mem_cons, List.mem_append, List.not_mem_nil, or_false] at hx
    rcases hx with rfl | rfl | hx | rfl
    · exact htext hword hw
    · exact absurd (hc.symm.trans hw.1) (by decide)
    · exact absurd hw ((hbody.mem x hx).1 t)
    · exact absurd (hsemi.symm.trans hw.1) (by decide)
  | close hword hsemi =>
    rcases List.mem_pair.1 hx with rfl | rfl
    · exact htext hword hw
    · exact absurd (hsemi.symm.trans hw.1) (by decide)

theorem IsSections.not_isWord {p : Section → List Symbol} {q : Section → List Statement}
    (h : IsSections p q) {l : List Section} (hs : s ∉ l) : ∀ x ∈ l.flatMap p, ¬ IsWord s x := by
  intro x hx hw
  obtain ⟨t, ht, hxt⟩ := List.mem_flatMap.1 hx
  exact hs ((h t).eq_of_isWord hxt hw ▸ ht)

theorem IsSections.update {p : Section → List Symbol} {q : Section → List Statement}
    (h : IsSections p q) (hs : s ≠ .close) (hpart : IsPart s xs sts) :
    IsSections (Function.update p s xs) (Function.update q s sts) := by
  intro t
  by_cases ht : t = s
  · subst ht
    rw [Function.update_self, Function.update_self]
    exact .part hs hpart
  · rw [Function.update_of_ne ht, Function.update_of_ne ht]
    exact h t

/-! ### Items in another order -/

variable {items items' : List (List Symbol)}

theorem mem_intercalate_comma {x : Symbol} : x ∈ [Section.comma].intercalate items ↔
    (x = Section.comma ∧ 1 < items.length) ∨ ∃ item ∈ items, x ∈ item := by
  induction items with
  | nil => simp
  | cons item items ih =>
    cases items with
    | nil => simp
    | cons item' items =>
      rw [List.intercalate_cons_cons, List.append_assoc, List.mem_append, List.mem_append, ih,
        List.mem_singleton]
      have hlength : 1 < (item :: item' :: items).length := by simp
      grind

/-- A section of a sentence is found again wherever its word stands. -/
theorem IsSections.eq_list {p : Section → List Symbol} {q : Section → List Statement}
    {front back : List Symbol} (h : IsSections p q) (hs : s ≠ .close)
    (hitems : ∀ item ∈ items, ∀ x ∈ item, x.type ≠ .semicolon)
    (heq : Section.all.flatMap p = front ++ s.list items ++ back) :
    p s = s.list items ∧
      ∀ xs, Section.all.flatMap (Function.update p s xs) = front ++ xs ++ back := by
  obtain ⟨before, after, hall, hbefore, hafter⟩ := s.exists_append
  have hupdate : ∀ xs, Section.all.flatMap (Function.update p s xs) =
      before.flatMap p ++ xs ++ after.flatMap p := by
    intro xs
    have hother : ∀ l : List Section, s ∉ l → l.flatMap (Function.update p s xs) = l.flatMap p :=
      fun l hl => List.flatMap_congr fun t ht =>
        Function.update_of_ne (ne_of_mem_of_not_mem ht hl) ..
    rw [hall, List.flatMap_append, List.flatMap_cons, Function.update_self, hother before hbefore,
      hother after hafter, List.append_assoc]
  obtain ⟨word, colon, body, semicolon, hp, -, hc, hsemi, hbody⟩ := isPart_iff.1 ((h s).isPart hs)
  have hself : IsWord s s.symbol := ⟨rfl, rfl⟩
  have hflat := hupdate (p s)
  rw [Function.update_eq_self, heq, hp] at hflat
  simp only [Section.list, List.append_assoc, List.cons_append, List.nil_append] at hflat
  -- the word stands nowhere else, and the first semicolon after it ends the section
  have hnot : s.symbol ∉ colon :: (body ++ semicolon :: after.flatMap p) := by
    simp only [List.mem_cons, List.mem_append, not_or]
    refine ⟨fun heq => ?_, fun hmem => (hbody.mem _ hmem).1 s hself, fun heq => ?_,
      fun hmem => h.not_isWord hafter _ hmem hself⟩
    · cases (congrArg Symbol.type heq).trans hc
    · cases (congrArg Symbol.type heq).trans hsemi
  obtain ⟨hfront, hword, hrest⟩ := (List.append_cons_inj_of_notMem
    (fun hmem => h.not_isWord hbefore _ hmem hself) hnot).1 hflat.symm
  obtain ⟨hcolon, hrest⟩ := List.cons.inj hrest
  have hfree : ∀ x ∈ [Section.comma].intercalate items, ¬ x.type = .semicolon := by
    intro x hx
    rcases mem_intercalate_comma.1 hx with ⟨rfl, -⟩ | ⟨item, hitem, hx⟩
    · decide
    · exact hitems item hitem x hx
  obtain ⟨hbody', hsemicolon, hback⟩ :=
    eq_of_append_cons hrest (fun x hx => (hbody.mem x hx).2) hfree hsemi rfl
  refine ⟨?_, fun xs => ?_⟩
  · rw [hp, Section.list, hword, hcolon, hbody', hsemicolon]
  · rw [hupdate, hfront, hback]

theorem IsPart.reorder (h : IsPart s (s.list items) sts) (hperm : items.Perm items')
    (hitems : ∀ item ∈ items, ∀ x ∈ item, x.type ≠ .comma) :
    ∃ sts', sts.Perm sts' ∧ IsPart s (s.list items') sts' := by
  obtain ⟨word, colon, body, semicolon, heq, hw, hc, hsemi, hbody⟩ := isPart_iff.1 h
  simp only [Section.list, List.cons.injEq] at heq
  obtain ⟨rfl, rfl, heq⟩ := heq
  obtain ⟨rfl, hsemicolon⟩ := List.append_inj' heq rfl
  obtain rfl := List.singleton_inj.1 hsemicolon
  suffices ∃ sts', sts.Perm sts' ∧ IsBody s ([Section.comma].intercalate items') sts' by
    obtain ⟨sts', hsts', hbody'⟩ := this
    exact ⟨sts', hsts', isPart_iff.2 ⟨_, _, _, _, rfl, hw, hc, hsemi, hbody'⟩⟩
  match items, hperm with
  | [], hperm =>
    obtain rfl := hperm.nil_eq
    exact ⟨sts, .refl _, hbody⟩
  | [item], hperm =>
    obtain rfl := List.perm_singleton.1 hperm.symm
    exact ⟨sts, .refl _, hbody⟩
  | item :: item' :: rest, hperm =>
    have hne : item :: item' :: rest ≠ [] := by simp
    rcases hbody with hi | ⟨-, hnil, -⟩
    · have hall := (isItems_intercalate_iff hne hitems).1 hi
      obtain ⟨sts', hall', hsts'⟩ := List.perm_comp_forall₂ hperm.symm hall
      refine ⟨sts', hsts'.symm, Or.inl ((isItems_intercalate_iff ?_ ?_).2 hall')⟩
      · exact fun hnil => hne (List.perm_nil.1 (hnil ▸ hperm))
      · exact fun x hx => hitems x (hperm.mem_iff.2 hx)
    · simp at hnil

end Grammar

open Grammar

namespace Definition
variable {s : Section} {d d' : Definition} {sts : List Statement}

theorem map_placeless_content (d : Definition) :
    d.content.map Symbol.placeless = d.content := by
  rw [content, List.map_map]
  rfl

/-- Both definitions are made of the same symbols. -/
theorem Reorders.mem_content_iff (h : d.Reorders s d') {x : Symbol} :
    x ∈ d'.content ↔ x ∈ d.content := by
  obtain ⟨front, items, items', back, ⟨hd, -⟩, hperm, hd'⟩ := h
  have hlist : x ∈ s.list items' ↔ x ∈ s.list items := by
    simp only [Section.list, List.mem_cons, List.mem_append, mem_intercalate_comma,
      hperm.length_eq, hperm.mem_iff]
  rw [hd, hd', List.mem_append, List.mem_append, List.mem_append, List.mem_append, hlist]

theorem ne_invalid_iff : (∀ x ∈ d.text.symbols.1, x.type ≠ .invalid) ↔
    ∀ x ∈ d.content, x.type ≠ .invalid := by
  rw [content, List.forall_mem_map]
  rfl

/-- If one definition is a sentence then so is the other, with the same statements in another
order. -/
theorem Reorders.exists_isSections (h : d.Reorders s d') (hs : s ≠ .close)
    (hsts : IsSentence d.text.symbols.1 sts) :
    ∃ p q part mid sts', IsSections p q ∧
      IsSections (Function.update p s part) (Function.update q s mid) ∧ (q s).Perm mid ∧
      d.content = Section.all.flatMap p ∧
      d'.content = Section.all.flatMap (Function.update p s part) ∧
      sts.map Statement.placeless = (Section.all.flatMap q).map Statement.placeless ∧
      IsSentence d'.text.symbols.1 sts' ∧ sts'.map Statement.placeless =
        (Section.all.flatMap (Function.update q s mid)).map Statement.placeless := by
  obtain ⟨front, items, items', back, ⟨hd, hitems⟩, hperm, hd'⟩ := h
  obtain ⟨sts₀, hsts₀, hplaces⟩ := hsts.of_map_eq d.map_placeless_content
  obtain ⟨p, q, hpq, hp, rfl⟩ := isSentence_iff.1 hsts₀
  obtain ⟨hlist, hupdate⟩ := hpq.eq_list hs (fun item hi x hx => (hitems item hi x hx).2)
    (hp.symm.trans hd)
  obtain ⟨mid, hmid, hpart⟩ := (hlist ▸ (hpq s).isPart hs).reorder hperm
    fun item hi x hx => (hitems item hi x hx).1
  have hpq' := hpq.update hs hpart
  rw [← hupdate] at hd'
  have hsentence := isSentence_iff.2 ⟨_, _, hpq', hd', rfl⟩
  obtain ⟨sts', hsts', hplaces'⟩ := hsentence.of_map_eq d'.map_placeless_content.symm
  exact ⟨p, q, _, mid, sts', hpq, hpq', hmid, hp, hd', hplaces.symm, hsts', hplaces'⟩

end Definition

/-! ### Sections are lists of items -/

namespace Scanner

/-- A mark is one byte. -/
theorem exists_mark {s : Scanner} {type : SymbolType}
    (ht : type ∈ [SymbolType.comma, .colon, .semicolon]) (h : (next s).1.type = type) :
    ∃ b, typeOf b = type ∧ (next s).1.placeless = ⟨type, [b], .start⟩ := by
  have hmark : type ∉ [SymbolType.invalid, .endOfFile, .keyword] ∧
      continues type = fun _ => false := by
    simp only [List.mem_cons, List.not_mem_nil, or_false] at ht
    rcases ht with rfl | rfl | rfl <;> exact ⟨by decide, rfl⟩
  obtain ⟨⟨b, t, htext, hb, hcontinues⟩, -⟩ := spells_next h hmark.1
  refine ⟨b, hb, Symbol.mk.injEq .. |>.mpr ⟨h, ?_, rfl⟩⟩
  rw [hmark.2] at hcontinues
  cases t with
  | nil => exact htext
  | cons c t => cases hcontinues c (List.mem_cons_self ..)

theorem placeless_next (s : Scanner) :
    ((next s).1.type = .comma → (next s).1.placeless = Section.comma) ∧
    ((next s).1.type = .colon → (next s).1.placeless = Section.colon) ∧
    ((next s).1.type = .semicolon → (next s).1.placeless = Section.semicolon) := by
  refine ⟨fun h => ?_, fun h => ?_, fun h => ?_⟩
  · obtain ⟨b, hb, hx⟩ := exists_mark (by simp) h
    rw [hx, (eq_of_typeOf b).1 hb]
    rfl
  · obtain ⟨b, hb, hx⟩ := exists_mark (by simp) h
    rw [hx, (eq_of_typeOf b).2.1 hb]
    rfl
  · obtain ⟨b, hb, hx⟩ := exists_mark (by simp) h
    rw [hx, (eq_of_typeOf b).2.2 hb]
    rfl

end Scanner

theorem Grammar.IsItems.exists_items {s : Section} {xs : List Symbol} {sts : List Statement}
    (h : IsItems s xs sts) (hcomma : ∀ x ∈ xs, x.type = .comma → x = Section.comma) :
    ∃ items ≠ [], xs = [Section.comma].intercalate items ∧
      ∀ item ∈ items, ∀ x ∈ item, x.type ≠ .comma ∧ x.type ≠ .semicolon := by
  induction h with
  | @single xs st hst => exact ⟨[xs], by simp, by simp, by simpa using hst.ne_mark⟩
  | @cons xs ys comma st sts hst hc _ ih =>
    obtain ⟨items, hne, rfl, hitems⟩ := ih fun x hx => hcomma x (by simp [hx])
    obtain ⟨item, items, rfl⟩ := List.exists_cons_of_ne_nil hne
    refine ⟨xs :: item :: items, by simp, ?_, List.forall_mem_cons.2 ⟨hst.ne_mark, hitems⟩⟩
    rw [List.intercalate_cons_cons, hcomma comma (by simp) hc, List.append_assoc]
    rfl

namespace Definition
variable {s : Section} {d : Definition} {sts : List Statement}

theorem mem_content {x : Symbol} (hx : x ∈ d.content) : x.placeless = x ∧
    (x.type = .comma → x = Section.comma) ∧ (x.type = .colon → x = Section.colon) ∧
    (x.type = .semicolon → x = Section.semicolon) := by
  obtain ⟨y, hy, rfl⟩ := List.mem_map.1 hx
  obtain ⟨scanner, rfl⟩ := Scanner.exists_next hy
  exact ⟨rfl, scanner.placeless_next⟩

/-- Each section of a sentence is a list of items. -/
theorem exists_hasItems (hsts : IsSentence d.text.symbols.1 sts) (hs : s ≠ .close) :
    ∃ front items back, d.HasItems s front items back := by
  obtain ⟨sts₀, hsts₀, -⟩ := hsts.of_map_eq d.map_placeless_content
  obtain ⟨p, q, hpq, hp, -⟩ := isSentence_iff.1 hsts₀
  obtain ⟨before, after, hall, -, -⟩ := s.exists_append
  obtain ⟨word, colon, body, semicolon, hpart, hword, hc, hsemi, hbody⟩ :=
    isPart_iff.1 ((hpq s).isPart hs)
  rw [hall, List.flatMap_append, List.flatMap_cons, ← List.append_assoc, hpart] at hp
  have hmem : ∀ x ∈ word :: colon :: (body ++ [semicolon]), x ∈ d.content := fun x hx => by
    rw [hp]
    exact List.mem_append_left _ (List.mem_append_right _ hx)
  have hword' : word = s.symbol := by
    rw [← (mem_content (hmem word (by simp))).1, Symbol.placeless, hword.1, hword.2]
    rfl
  have hcolon := (mem_content (hmem colon (by simp))).2.2.1 hc
  have hsemicolon := (mem_content (hmem semicolon (by simp))).2.2.2 hsemi
  have hitems : ∃ items, body = [Section.comma].intercalate items ∧
      ∀ item ∈ items, ∀ x ∈ item, x.type ≠ .comma ∧ x.type ≠ .semicolon := by
    rcases hbody with hi | ⟨-, rfl, -⟩
    · obtain ⟨items, -, hbody, hitems⟩ :=
        hi.exists_items fun x hx => (mem_content (hmem x (by simp [hx]))).2.1
      exact ⟨items, hbody, hitems⟩
    · exact ⟨[], rfl, by simp⟩
  obtain ⟨items, rfl, hitems⟩ := hitems
  refine ⟨before.flatMap p, items, after.flatMap p, ?_, hitems⟩
  rw [hp, hword', hcolon, hsemicolon]
  rfl

end Definition

end GateSim
