import GateSim.Proofs.Rebuild
import GateSim.Proofs.Recovery

/-!
# Clauses and turns

Whatever the symbols of a definition are, each of its sections has items, which are cut at commas
(`Definition.clauses`). A clause has its turn when a circuit is built: the statement that it starts
with is performed, or a device whose declaration breaks off after its name is abandoned, or nothing
is done. Turns follow each other in the order of the clauses, and their faults are the semantic
diagnostics (`Definition.exists_unfolds`).
-/

namespace GateSim

open Grammar Diagnostics

/-! ### Items -/

namespace Outline

/-- The items up to the first separator that is no comma. -/
def itemsIn (symbols : List Symbol) : List (List Symbol) :=
  let item := symbols.takeWhile (!·.isSeparator)
  match _h : symbols.dropWhile (!·.isSeparator) with
  | [] => [item]
  | x :: rest => if x.type = .comma then item :: itemsIn rest else [item]
termination_by symbols.length
decreasing_by
  have := (List.dropWhile_sublist (fun x : Symbol => !x.isSeparator) (l := symbols)).length_le
  rw [_h, List.length_cons] at this
  omega

/-- The items after the word of a section and its colon, which may be missing: none at all if a
semicolon comes at once. -/
def itemsAfterWord (symbols : List Symbol) : List (List Symbol) :=
  let symbols := if symbols.head?.any (·.type == .colon) then symbols.tail else symbols
  if symbols.head?.any (·.type == .semicolon) then [] else itemsIn symbols

/-- The items of a section, if its word comes before the word of a later one. -/
def itemsOf (s : Section) (symbols : List Symbol) : List (List Symbol) :=
  match symbols.dropWhile fun x => !s.onward.any fun t => x.section? == some t with
  | [] => []
  | x :: rest => if x.section? = some s then itemsAfterWord rest else []

end Outline

/-- An item of a section. -/
structure Clause where
  part : Section
  symbols : List Symbol

namespace Outline

def clausesOf (s : Section) (symbols : List Symbol) : List Clause :=
  (itemsOf s symbols).map (Clause.mk s)

end Outline

namespace Definition

/-- The items of all sections; each section is looked for where the one before it was left. -/
def clauses (d : Definition) : List Clause :=
  let afterDevices := (Outline.part .devices d.valid).2
  let afterConnect := (Outline.part .connect afterDevices).2
  Outline.clausesOf .devices d.valid ++ Outline.clausesOf .connect afterDevices ++
    Outline.clausesOf .monitor afterConnect

end Definition

namespace Clause

/-- The clause starts with a statement. -/
def Completes (c : Clause) (st : Statement) : Prop :=
  ∃ ys, IsLongestBeginning c.part c.symbols ys ∧ IsStatement c.part ys st

/-- The declaration of a device breaks off after its name. -/
def BreaksOffAfter (c : Clause) (name : Symbol) : Prop :=
  ∃ ys, IsLongestBeginning c.part c.symbols ys ∧ IsHalfDevice c.part ys name

/-- The clause comes as far as the name of a device. -/
def Declares (c : Clause) (t : Text) : Prop :=
  c.part = .devices ∧ ∃ k kind x rest, c.symbols = k :: x :: rest ∧ IsKind kind k ∧ IsName x ∧
    x.text = t

/-- What the reader makes of the clause. -/
def deeds (c : Clause) : List Note := (Item.read c.part c.symbols).outcome.deeds

variable {c : Clause} {st : Statement} {name : Symbol} {t : Text}

theorem completes_iff (hs : c.part ≠ .close) :
    c.Completes st ↔ (Item.read c.part c.symbols).outcome = .complete st := by
  obtain ⟨ys, h⟩ := Item.takes_read hs c.symbols
  constructor
  · rintro ⟨ys', hys, hst⟩
    rw [← h.isLongestBeginning.unique hys] at hst
    exact h.isStatement_iff.1 hst
  · intro hread
    exact ⟨ys, h.isLongestBeginning, h.isStatement_iff.2 hread⟩

theorem breaksOffAfter_iff (hs : c.part ≠ .close) : c.BreaksOffAfter name ↔
    ∃ fault, (Item.read c.part c.symbols).outcome = .broken fault (some name) := by
  obtain ⟨ys, h⟩ := Item.takes_read hs c.symbols
  constructor
  · rintro ⟨ys', hys, hhalf⟩
    rw [← h.isLongestBeginning.unique hys] at hhalf
    exact h.isHalfDevice_iff.1 hhalf
  · intro hread
    exact ⟨ys, h.isLongestBeginning, h.isHalfDevice_iff.2 hread⟩

theorem Completes.unique {st' : Statement} (hs : c.part ≠ .close) (h : c.Completes st)
    (h' : c.Completes st') : st = st' := by
  rw [completes_iff hs] at h h'
  rw [h] at h'
  exact Outcome.complete.inj h'

theorem Completes.not_breaksOffAfter (hs : c.part ≠ .close) (h : c.Completes st) :
    ¬ c.BreaksOffAfter name := by
  intro hname
  obtain ⟨fault, hbroken⟩ := (breaksOffAfter_iff hs).1 hname
  cases ((completes_iff hs).1 h).symm.trans hbroken

theorem BreaksOffAfter.unique {name' : Symbol} (hs : c.part ≠ .close) (h : c.BreaksOffAfter name)
    (h' : c.BreaksOffAfter name') : name = name' := by
  obtain ⟨fault, hbroken⟩ := (breaksOffAfter_iff hs).1 h
  obtain ⟨fault', hbroken'⟩ := (breaksOffAfter_iff hs).1 h'
  cases hbroken.symm.trans hbroken'
  rfl

/-- A clause starts with a statement, breaks off after the name of a device or is neither. -/
theorem deeds_cases (hs : c.part ≠ .close) :
    (∃ st, c.Completes st ∧ c.deeds = [.complete st]) ∨
    (∃ name, c.BreaksOffAfter name ∧ c.deeds = [.abandon name]) ∨
    ((∀ st, ¬ c.Completes st) ∧ (∀ name, ¬ c.BreaksOffAfter name) ∧ c.deeds = []) := by
  cases houtcome : (Item.read c.part c.symbols).outcome with
  | complete st =>
    refine .inl ⟨st, (completes_iff hs).2 houtcome, ?_⟩
    rw [deeds, houtcome]
    rfl
  | broken fault name =>
    cases name with
    | none =>
      refine .inr (.inr ⟨fun st h => ?_, fun name h => ?_, ?_⟩)
      · rw [completes_iff hs, houtcome] at h
        cases h
      · obtain ⟨_, h⟩ := (breaksOffAfter_iff hs).1 h
        rw [houtcome] at h
        cases h
      · rw [deeds, houtcome]
        rfl
    | some name =>
      refine .inr (.inl ⟨name, (breaksOffAfter_iff hs).2 ⟨fault, houtcome⟩, ?_⟩)
      rw [deeds, houtcome]
      rfl

/-- A clause comes as far as the name of a device if it declares the device or breaks off later. -/
theorem declares_iff (hs : c.part ≠ .close) : c.Declares t ↔
    (∃ kind name p, c.Completes (.device kind name p) ∧ name.text = t) ∨
      ∃ name, c.BreaksOffAfter name ∧ name.text = t := by
  constructor
  · rintro ⟨hpart, k, kind, x, rest, hsymbols, hk, hx, rfl⟩
    have hread : Item.read c.part c.symbols = Item.parameter kind x rest := by
      rw [hpart, hsymbols]
      exact Item.device_cons (Symbol.kind?_eq_some_iff.2 hk) (Item.isName_iff.2 hx) rest
    by_cases htakes : kind.takesParameter = true
    · obtain ⟨p, rest', -, heq⟩ | ⟨fault, heq⟩ := Item.parameter_broken htakes x rest
      · exact .inl ⟨kind, x, some p, (completes_iff hs).2 (by rw [hread, heq]), rfl⟩
      · exact .inr ⟨x, (breaksOffAfter_iff hs).2 ⟨fault, by rw [hread, heq]⟩, rfl⟩
    · refine .inl ⟨kind, x, none, (completes_iff hs).2 ?_, rfl⟩
      rw [hread]
      simp [Item.parameter, htakes]
  · rintro (⟨kind, name, p, ⟨ys, hys, hst⟩, rfl⟩ |
      ⟨name, ⟨ys, hys, hpart, k, kind, rfl, hk, hn, -⟩, rfl⟩)
    · obtain ⟨rest, hrest⟩ := hys.initial
      have hpart : c.part = .devices := hst.isDevice.1 rfl
      rw [hpart] at hst
      cases hst with
      | @device _ k _ xs _ hk hn hp =>
        exact ⟨hpart, k, kind, name, xs ++ rest, hrest.symm, hk, hn, rfl⟩
    · obtain ⟨rest, hrest⟩ := hys.initial
      exact ⟨hpart, k, kind, name, rest, hrest.symm, hk, hn, rfl⟩

end Clause

/-! ### Deeds of a definition -/

namespace Outline
variable {s : Section}

theorem filter_isDeed_notes (hs : s ≠ .close) (item after : List Symbol) :
    (Item.notes s item after).filter Note.isDeed = (Clause.mk s item).deeds := by
  obtain ⟨ys, h⟩ := Item.takes_read hs item
  exact h.filter_isDeed after

theorem filter_isDeed_items (hs : s ≠ .close) (symbols : List Symbol) :
    (items s symbols).1.filter Note.isDeed =
      (itemsIn symbols).flatMap fun item => (Clause.mk s item).deeds := by
  fun_induction itemsIn symbols with
  | case1 symbols item hdrop =>
    rw [items]
    split
    · rw [List.filter_append, filter_isDeed_notes hs, List.flatMap_singleton]
      exact List.append_nil _
    · next h => exact absurd (hdrop.symm.trans h) (by simp)
  | case2 symbols item x rest hdrop hx ih =>
    obtain ⟨hsymbols, hsep⟩ := cut hdrop
    rw [hsymbols, items_append (fun y hy => isSeparator_of_mem_takeWhile hy) hsep, if_pos hx,
      List.filter_append, filter_isDeed_notes hs, List.filter_cons_of_neg (by simp [Note.isDeed]),
      ih, List.flatMap_cons]
  | case3 symbols item x rest hdrop hx =>
    obtain ⟨hsymbols, hsep⟩ := cut hdrop
    rw [hsymbols, items_append (fun y hy => isSeparator_of_mem_takeWhile hy) hsep, if_neg hx,
      List.flatMap_singleton]
    split <;> rw [List.filter_append, filter_isDeed_notes hs] <;> exact List.append_nil _

theorem colon_snd (s : Section) (symbols : List Symbol) : (colon s symbols).2 =
    if symbols.head?.any (·.type == .colon) then symbols.tail else symbols := by
  cases symbols with
  | nil => rfl
  | cons x rest => by_cases hx : x.type = .colon <;> simp [colon, hx]

theorem filter_isDeed_afterWord (hs : s ≠ .close) (symbols : List Symbol) :
    (afterWord s symbols).1.filter Note.isDeed =
      (itemsAfterWord symbols).flatMap fun item => (Clause.mk s item).deeds := by
  have hcontent : ∀ symbols, (content s symbols).1.filter Note.isDeed =
      (if symbols.head?.any (·.type == .semicolon) then [] else itemsIn symbols).flatMap
        fun item => (Clause.mk s item).deeds := by
    intro symbols
    cases symbols with
    | nil => exact filter_isDeed_items hs []
    | cons x rest =>
      by_cases hx : x.type = .semicolon
      · by_cases hdevices : s = .devices <;> simp [content, hx, hdevices, Note.isDeed]
      · simpa [content, hx] using filter_isDeed_items hs (x :: rest)
  have hcolon : (colon s symbols).1.filter Note.isDeed = [] := by
    cases symbols with
    | nil => rfl
    | cons x rest => by_cases hx : x.type = .colon <;> simp [colon, hx, Note.isDeed]
  show List.filter _ ((colon s symbols).1 ++ (content s (colon s symbols).2).1) = _
  rw [List.filter_append, hcolon, List.nil_append, hcontent, colon_snd]
  rfl

theorem filter_isDeed_part (hs : s ≠ .close) (symbols : List Symbol) :
    (part s symbols).1.filter Note.isDeed = (clausesOf s symbols).flatMap Clause.deeds := by
  have hskip : ∀ skipped, (if symbols.head?.any (·.section? == some s) then []
      else Note.blame (.expectedSection s) symbols :: Note.passes skipped).filter Note.isDeed =
        [] := by
    intro skipped
    split
    · rfl
    · rw [List.filter_cons_of_neg (by simp), Item.filter_isDeed_passes]
  rw [clausesOf, List.flatMap_map, itemsOf]
  cases hdrop : symbols.dropWhile (fun y => !s.onward.any fun t => y.section? == some t) with
  | nil =>
    simp only [part, hdrop]
    exact hskip _
  | cons x rest =>
    simp only [part, hdrop, beq_iff_eq]
    by_cases hword : x.section? = some s
    · simp only [if_pos hword]
      rw [List.filter_append, hskip, List.filter_cons_of_neg (by simp [Note.isDeed]),
        filter_isDeed_afterWord hs]
      rfl
    · simp only [if_neg hword]
      exact hskip _

theorem filter_isDeed_close (symbols : List Symbol) :
    (close symbols).filter Note.isDeed = [] := by
  have hpass : Note.pass.isDeed = false := rfl
  have hends : Note.endsEarly.isDeed = false := rfl
  have hreject : ∀ x fault, (Note.reject x fault).isDeed = false := fun _ _ => rfl
  unfold close
  repeat' split
  all_goals simp [hpass, hends, hreject]

end Outline

namespace Definition
variable (d : Definition)

theorem filter_isDeed_eq : d.notes.filter Note.isDeed = d.clauses.flatMap Clause.deeds := by
  have houtline : d.notes = outline d.valid := rfl
  simp only [houtline, outline, clauses, List.filter_append, List.flatMap_append,
    Outline.filter_isDeed_part (s := .devices) (by decide),
    Outline.filter_isDeed_part (s := .connect) (by decide),
    Outline.filter_isDeed_part (s := .monitor) (by decide), Outline.filter_isDeed_close,
    List.append_nil]

theorem part_eq_of_mem {s : Section} {symbols : List Symbol} {c : Clause}
    (hc : c ∈ Outline.clausesOf s symbols) : c.part = s := by
  obtain ⟨item, -, rfl⟩ := List.mem_map.1 hc
  rfl

theorem part_ne_close {c : Clause} (hc : c ∈ d.clauses) : c.part ≠ .close := by
  rcases List.mem_append.1 hc with hc | hc
  · rcases List.mem_append.1 hc with hc | hc <;> rw [part_eq_of_mem hc] <;> decide
  · rw [part_eq_of_mem hc]
    decide

/-- All devices are declared before anything refers to them. -/
theorem pairwise_clauses :
    d.clauses.Pairwise fun c c' => c'.part = .devices → c.part = .devices := by
  have hsame : ∀ s symbols, (Outline.clausesOf s symbols).Pairwise
      fun c c' => c'.part = .devices → c.part = .devices := fun s symbols =>
    List.pairwise_of_forall_mem_list fun c hc c' hc' h => by
      rw [part_eq_of_mem hc, ← part_eq_of_mem hc', h]
  refine List.pairwise_append.2 ⟨List.pairwise_append.2 ⟨hsame _ _, hsame _ _, ?_⟩, hsame _ _, ?_⟩
  · intro c hc c' hc' h
    exact part_eq_of_mem hc
  · intro c hc c' hc' h
    rw [part_eq_of_mem hc'] at h
    cases h

end Definition

/-! ### Turns -/

/-- What becomes of a draft when a clause has its turn, and what is wrong with the clause. -/
structure Turn where
  clause : Clause
  before : Draft
  after : Draft
  fault : Option SemanticFault

/-- The statement that the clause starts with is performed, or the device is abandoned whose
declaration breaks off, or nothing is done. -/
inductive Turn.Proceeds (names : NameTable) (t : Turn) : Prop
  | statement {st : Statement} : t.clause.Completes st →
      t.before.perform names st = .ok (t.after, t.fault) → Turn.Proceeds names t
  | broken {name : Symbol} : t.clause.BreaksOffAfter name →
      t.after = t.before.abandon (name.id names) → t.fault = none → Turn.Proceeds names t
  | idle : (∀ st, ¬ t.clause.Completes st) → (∀ name, ¬ t.clause.BreaksOffAfter name) →
      t.after = t.before → t.fault = none → Turn.Proceeds names t

/-- Turns that follow each other, from a draft to another one. -/
inductive Turns (names : NameTable) : Draft → List Turn → Draft → Prop
  | nil {d : Draft} : Turns names d [] d
  | cons {t : Turn} {turns : List Turn} {d : Draft} :
      t.Proceeds names → Turns names t.after turns d → Turns names t.before (t :: turns) d

/-- The diagnostic that tells of a fault. -/
def Definition.report (text : Definition) (f : SemanticFault) : Diagnostic :=
  text.diagnose f.symbol .semantic f.code f.message f.severity

theorem Turn.Proceeds.sound {names : NameTable} {t : Turn} (h : t.Proceeds names)
    (hs : t.before.Sound) : t.after.Sound := by
  cases h with
  | statement _ hp =>
    obtain ⟨d', f, hok, hd'⟩ := Draft.perform_ok names hs ‹_›
    cases hok.symm.trans hp
    exact hd'.sound
  | broken _ hafter _ =>
    rw [hafter]
    exact hs.abandon _
  | idle _ _ hafter _ => rwa [hafter]

namespace Turns
variable {names : NameTable} {d d' : Draft} {turns pre post : List Turn} {t : Turn}

theorem split (h : Turns names d (pre ++ t :: post) d') :
    Turns names d pre t.before ∧ t.Proceeds names ∧ Turns names t.after post d' := by
  induction pre generalizing d with
  | nil =>
    cases h with
    | cons ht hpost => exact ⟨.nil, ht, hpost⟩
  | cons u pre ih =>
    cases h with
    | cons hu hrest =>
      obtain ⟨hpre, ht, hpost⟩ := ih hrest
      exact ⟨.cons hu hpre, ht, hpost⟩

/-- What each turn keeps is kept. -/
theorem preserves {P : Draft → Prop} (h : Turns names d turns d')
    (hstep : ∀ t ∈ turns, t.Proceeds names → P t.before → P t.after) (hd : P d) : P d' := by
  induction h with
  | nil => exact hd
  | cons ht _ ih =>
    obtain ⟨hfirst, hrest⟩ := List.forall_mem_cons.1 hstep
    exact ih hrest (hfirst ht hd)

theorem sound (h : Turns names d turns d') (hd : d.Sound) : d'.Sound :=
  h.preserves (fun _ _ ht => ht.sound) hd

end Turns

namespace Draft
variable {d d' : Draft} {text : Definition} {names : NameTable}

/-- A run of the deeds of some clauses is a turn for each of them. -/
theorem exists_turns {clauses : List Clause} {ds : Diagnostics}
    (hs : ∀ c ∈ clauses, c.part ≠ .close) (h : d.Sound)
    (hr : d.run text names ((clauses.flatMap Clause.deeds).map .note) = .ok (d', ds)) :
    ∃ turns, turns.map (·.clause) = clauses ∧ Turns names d turns d' ∧
      ds = turns.filterMap fun t => t.fault.map text.report := by
  induction clauses generalizing d ds with
  | nil =>
    cases hr
    exact ⟨[], rfl, .nil, rfl⟩
  | cons c clauses ih =>
    obtain ⟨hc, hclauses⟩ := List.forall_mem_cons.1 hs
    rw [List.flatMap_cons, List.map_append] at hr
    rcases Clause.deeds_cases hc with ⟨st, hst, hdeeds⟩ | ⟨name, hname, hdeeds⟩ |
        ⟨hst, hname, hdeeds⟩ <;> rw [hdeeds] at hr
    · obtain ⟨d₁, f, hp, hd₁⟩ := perform_ok names h st
      obtain ⟨d₂, ds', hrun, -⟩ := run_ok text names hd₁.sound
        ((clauses.flatMap Clause.deeds).map .note)
      cases (run_cons (step_complete hp) hrun).symm.trans hr
      obtain ⟨turns, hmap, hturns, rfl⟩ := ih hclauses hd₁.sound hrun
      have hturn : Turn.Proceeds names ⟨c, d, d₁, f⟩ := .statement hst hp
      refine ⟨⟨c, d, d₁, f⟩ :: turns, by rw [List.map_cons, hmap], Turns.cons hturn hturns, ?_⟩
      cases f <;> rfl
    · obtain ⟨d₂, ds', hrun, -⟩ := run_ok text names (h.abandon (name.id names))
        ((clauses.flatMap Clause.deeds).map .note)
      have hstep : d.step text names (.note (.abandon name)) =
          .ok (d.abandon (name.id names), none) := rfl
      cases (run_cons hstep hrun).symm.trans hr
      obtain ⟨turns, hmap, hturns, rfl⟩ := ih hclauses (h.abandon _) hrun
      have hturn : Turn.Proceeds names ⟨c, d, d.abandon (name.id names), none⟩ :=
        .broken hname rfl rfl
      exact ⟨⟨c, d, d.abandon (name.id names), none⟩ :: turns, by rw [List.map_cons, hmap],
        Turns.cons hturn hturns, rfl⟩
    · obtain ⟨turns, hmap, hturns, rfl⟩ := ih hclauses h hr
      have hturn : Turn.Proceeds names ⟨c, d, d, none⟩ := .idle hst hname rfl rfl
      exact ⟨⟨c, d, d, none⟩ :: turns, by rw [List.map_cons, hmap], Turns.cons hturn hturns, rfl⟩

end Draft

namespace Definition

/-- The clauses of a definition have their turns one after the other, and nothing else makes a
difference to the circuit or leads to a semantic diagnostic. -/
structure Unfolds (d : Definition) (names : NameTable) (built : Built) (turns : List Turn) :
    Prop where
  clauses : turns.map (·.clause) = d.clauses
  proceeds : ∃ last, Turns (d.names names) { circuit := .empty (d.names names) } turns last ∧
    built.circuit = last.circuit
  semantic : built.diagnostics.semantic = turns.filterMap fun t => t.fault.map d.report
  names : built.names = d.names names

variable (d : Definition) (names : NameTable)

theorem exists_unfolds : ∃ built turns, d.build names = .ok built ∧
    d.Unfolds names built turns := by
  have hs := Draft.sound_empty (d.knowsPins_names names)
  obtain ⟨draft, ds, hrun, hbuild⟩ := d.build_eq names
  have hdeeds := Draft.run_deeds hs hrun none false
  rw [filter_isDeed_events, filter_isDeed_eq] at hdeeds
  obtain ⟨turns, hclauses, hturns, hsemantic⟩ :=
    Draft.exists_turns (fun c hc => d.part_ne_close hc) hs hdeeds
  exact ⟨_, turns, hbuild, hclauses, ⟨_, hturns, rfl⟩, hsemantic, rfl⟩

/-- The statement that a clause starts with is noted, and the name after which it breaks off. -/
theorem mem_notes_of_mem_deeds {c : Clause} (hc : c ∈ d.clauses) {n : Note} (hn : n ∈ c.deeds) :
    n ∈ d.notes := by
  have hmem : n ∈ d.clauses.flatMap Clause.deeds := List.mem_flatMap.2 ⟨c, hc, hn⟩
  rw [← filter_isDeed_eq] at hmem
  exact (List.mem_filter.1 hmem).1

/-- The names in a statement have been seen. -/
theorem seen_of_completes {c : Clause} (hc : c ∈ d.clauses) {st : Statement}
    (hst : c.Completes st) : ∀ x ∈ st.symbols, x.Seen (d.names names) := by
  have hdeed : Note.complete st ∈ c.deeds := by
    rw [Clause.deeds, (Clause.completes_iff (d.part_ne_close hc)).1 hst]
    exact List.mem_singleton.2 rfl
  obtain ⟨left, hwalks⟩ := Outline.walks_outline d.valid
  have hfrom := (hwalks.from_passed _ (d.mem_notes_of_mem_deeds hc hdeed)).mono fun x hx =>
    (List.take_sublist_take_left (Nat.le_succ _)).subset hx
  obtain ⟨s, xs, hst', hxs⟩ := hfrom
  intro x hx
  have hshared := d.shared_of_mem_seen names names (hxs (hst'.mem x hx).1) (hst'.mem x hx).2
  exact hshared.1

end Definition

end GateSim
