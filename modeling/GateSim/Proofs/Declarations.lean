import GateSim.Proofs.Refusals
import GateSim.Proofs.Reports
import GateSim.Proofs.Tables

/-!
# Declarations

A name is declared by the first clause that comes as far as it, be the device made or not
(`Turns.declared_iff`). So a device is a duplicate just if an earlier clause declares its name, a
name is reported as undefined only if no clause declares it, and what refers to a device that was
declared but not made is passed over (`Definition.build_declarations`). However far a definition has
been taken in, the declared names are those of the devices and the broken ones, and no name is broken
without an error (`Definition.run_prefix`).
-/

namespace GateSim

open Grammar

/-! ### Clauses and names -/

theorem Grammar.IsName.id_eq {x : Symbol} (h : IsName x) (names : NameTable) :
    x.id names = names.idOf x.text := by
  rw [Symbol.id, show x.type = .name from h]
  rfl

namespace Clause
variable {c : Clause} {st : Statement} {name : Symbol} {t : Text}

theorem declares_of_completes (hs : c.part ≠ .close) (h : c.Completes st) :
    c.Declares t ↔ ∃ x ∈ st.declares, x.text = t := by
  rw [declares_iff hs]
  constructor
  · rintro (⟨kind, name, p, hst, rfl⟩ | ⟨name, hname, -⟩)
    · obtain rfl := h.unique hs hst
      exact ⟨name, rfl, rfl⟩
    · exact absurd hname (h.not_breaksOffAfter hs)
  · rintro ⟨x, hx, rfl⟩
    cases st with
    | device kind name p =>
      obtain rfl := Option.some.inj hx
      exact .inl ⟨kind, _, p, h, rfl⟩
    | connection | monitor => cases hx

theorem declares_of_breaksOffAfter (hs : c.part ≠ .close) (h : c.BreaksOffAfter name) :
    c.Declares t ↔ name.text = t := by
  rw [declares_iff hs]
  constructor
  · rintro (⟨kind, name', p, hst, -⟩ | ⟨name', hname, rfl⟩)
    · exact absurd h (hst.not_breaksOffAfter hs)
    · rw [h.unique hs hname]
  · exact fun ht => .inr ⟨name, h, ht⟩

theorem not_declares (hs : c.part ≠ .close) (hst : ∀ st, ¬ c.Completes st)
    (hname : ∀ name, ¬ c.BreaksOffAfter name) : ¬ c.Declares t := by
  rw [declares_iff hs]
  rintro (⟨kind, name, p, h, -⟩ | ⟨name, h, -⟩)
  · exact hst _ h
  · exact hname _ h

theorem Completes.isName_of_mem_declares (h : c.Completes st) : ∀ x ∈ st.declares, IsName x := by
  obtain ⟨ys, -, hst⟩ := h
  generalize c.part = s at hst
  cases hst with
  | device _ hname _ =>
    rintro x ⟨⟩
    exact hname
  | connection | monitor => exact fun x hx => absurd hx (Option.not_mem_none x)

theorem BreaksOffAfter.isName (h : c.BreaksOffAfter name) : IsName name := by
  obtain ⟨ys, -, -, k, kind, -, -, hname, -⟩ := h
  exact hname

end Clause

/-! ### Turns -/

namespace Turn.Proceeds
variable {names : NameTable} {t : Turn}

theorem verdict (h : t.Proceeds names) (hs : t.before.Sound) (hb : t.before.Booked)
    (hpart : t.clause.part ≠ .close) {st : Statement} (hst : t.clause.Completes st) :
    Draft.Verdict names st t.before t.after t.fault ∧
      Draft.Books names st t.before t.after t.fault := by
  obtain ⟨d', fault, hok, hverdict, hbooks⟩ := Draft.perform_verdict names hs hb st
  cases h with
  | statement hst' hp =>
    obtain rfl := hst.unique hpart hst'
    cases hok.symm.trans hp
    exact ⟨hverdict, hbooks⟩
  | broken hname _ _ => exact absurd hname (hst.not_breaksOffAfter hpart)
  | idle hno _ _ _ => exact absurd hst (hno st)

theorem exists_completes (h : t.Proceeds names) {f : SemanticFault} (hf : t.fault = some f) :
    ∃ st, t.clause.Completes st := by
  cases h with
  | statement hst _ => exact ⟨_, hst⟩
  | broken _ _ hnone => cases hnone.symm.trans hf
  | idle _ _ _ hnone => cases hnone.symm.trans hf

/-- The names remain those of devices that were made or could not be made. The clause declares what
it comes as far as, and makes no device outside the section for them. -/
theorem books (h : t.Proceeds names) (hs : t.before.Sound) (hb : t.before.Booked)
    (hpart : t.clause.part ≠ .close) :
    t.after.Booked ∧
      (∀ id, id ∈ t.after.declared ↔ id ∈ t.before.declared ∨
        ∃ s, t.clause.Declares s ∧ names.idOf s = id) ∧
      (t.clause.part ≠ .devices →
        t.after.circuit.devices.ids = t.before.circuit.devices.ids) := by
  have hproceeds := h
  cases h with
  | @statement st hst hp =>
    obtain ⟨-, hbooks⟩ := hproceeds.verdict hs hb hpart hst
    refine ⟨hbooks.booked, fun id => ?_, fun hdevices => ?_⟩
    · rw [hbooks.declared]
      refine or_congr_right ⟨?_, ?_⟩
      · rintro ⟨x, hx, rfl⟩
        exact ⟨x.text, (Clause.declares_of_completes hpart hst).2 ⟨x, hx, rfl⟩,
          ((hst.isName_of_mem_declares x hx).id_eq names).symm⟩
      · rintro ⟨s, hdeclares, rfl⟩
        obtain ⟨x, hx, rfl⟩ := (Clause.declares_of_completes hpart hst).1 hdeclares
        exact ⟨x, hx, (hst.isName_of_mem_declares x hx).id_eq names⟩
    · refine (hbooks.kept ?_).2
      rw [Option.eq_none_iff_forall_not_mem]
      intro x hx
      exact hdevices ((Clause.declares_of_completes hpart hst).2 ⟨x, hx, rfl⟩).1
  | @broken name hname hafter _ =>
    rw [hafter]
    refine ⟨hb.abandon _, fun id => ?_, fun _ => rfl⟩
    simp only [Draft.abandon, List.mem_cons, Clause.declares_of_breaksOffAfter hpart hname,
      exists_eq_left', hname.isName.id_eq names]
    rw [or_comm, eq_comm]
  | idle hno hno' hafter _ =>
    rw [hafter]
    refine ⟨hb, fun id => ?_, fun _ => rfl⟩
    simp [Clause.not_declares hpart hno hno']

end Turn.Proceeds

namespace Turns
variable {names : NameTable} {d d' : Draft} {turns : List Turn}

theorem declared_iff (h : Turns names d turns d') (hs : d.Sound) (hb : d.Booked)
    (hparts : ∀ t ∈ turns, t.clause.part ≠ .close) :
    d'.Booked ∧ ∀ id, id ∈ d'.declared ↔ id ∈ d.declared ∨
      ∃ t ∈ turns, ∃ s, t.clause.Declares s ∧ names.idOf s = id := by
  induction h with
  | nil => exact ⟨hb, fun id => by simp⟩
  | @cons t turns d' ht _ ih =>
    obtain ⟨hpart, hparts⟩ := List.forall_mem_cons.1 hparts
    obtain ⟨hbooked, hdeclared, -⟩ := ht.books hs hb hpart
    obtain ⟨hbooked', hdeclared'⟩ := ih (ht.sound hs) hbooked hparts
    refine ⟨hbooked', fun id => ?_⟩
    simp only [hdeclared', hdeclared, or_assoc, List.mem_cons, exists_eq_or_imp]

theorem ids_eq (h : Turns names d turns d') (hs : d.Sound) (hb : d.Booked)
    (hparts : ∀ t ∈ turns, t.clause.part ≠ .close)
    (hdevices : ∀ t ∈ turns, t.clause.part ≠ .devices) :
    d'.circuit.devices.ids = d.circuit.devices.ids := by
  induction h with
  | nil => rfl
  | @cons t turns d' ht _ ih =>
    obtain ⟨hpart, hparts⟩ := List.forall_mem_cons.1 hparts
    obtain ⟨hdevice, hdevices⟩ := List.forall_mem_cons.1 hdevices
    obtain ⟨hbooked, -, hids⟩ := ht.books hs hb hpart
    exact (ih (ht.sound hs) hbooked hparts hdevices).trans (hids hdevice)

end Turns

/-! ### Definitions -/

namespace Built

/-- A device of that name was made. -/
def HasDevice (b : Built) (t : Text) : Prop :=
  ∃ dev ∈ b.circuit.devices.devices, b.names.text? dev.id = some t

variable {b : Built} {t : Text}

theorem hasDevice_iff (ht : t ∈ b.names.texts) :
    b.HasDevice t ↔ b.names.idOf t ∈ b.circuit.devices.ids := by
  rw [HasDevice, Registry.ids, List.mem_map]
  constructor
  · rintro ⟨dev, hdev, hname⟩
    exact ⟨dev, hdev, (NameTable.text?_eq_some_iff.1 hname).2.symm⟩
  · rintro ⟨dev, hdev, heq⟩
    exact ⟨dev, hdev, NameTable.text?_eq_some_iff.2 ⟨ht, heq.symm⟩⟩

end Built

theorem Statement.mem_symbols_of_mem_refersTo {st : Statement} {x : Symbol} (hx : x ∈ st.refersTo) :
    x ∈ st.symbols := by
  cases st with
  | device => cases hx
  | connection source sourcePin target targetPin =>
    rcases List.mem_pair.1 hx with rfl | rfl <;> simp [symbols]
  | monitor name pin =>
    rw [List.mem_singleton.1 hx]
    exact List.mem_cons_self ..

theorem Statement.declares_eq_none {st : Statement} {x : Symbol} (hx : x ∈ st.refersTo) :
    st.declares = none := by
  cases st with
  | device => cases hx
  | connection | monitor => rfl

theorem Clause.Completes.part_ne_devices {c : Clause} {st : Statement} (h : c.Completes st)
    {x : Symbol} (hx : x ∈ st.refersTo) : c.part ≠ .devices := by
  obtain ⟨ys, -, hst⟩ := h
  intro hpart
  rw [hpart] at hst
  cases hst with
  | device => cases hx

namespace Definition.Unfolds
variable {d : Definition} {names : NameTable} {built : Built} {turns pre post : List Turn}
  {t : Turn} {s : Text}

theorem clause_mem (h : d.Unfolds names built turns) (ht : t ∈ turns) : t.clause ∈ d.clauses :=
  h.clauses ▸ List.mem_map_of_mem ht

theorem part_ne_close (h : d.Unfolds names built turns) : ∀ t ∈ turns, t.clause.part ≠ .close :=
  fun _ ht => d.part_ne_close (h.clause_mem ht)

/-- What is known when a clause has its turn. -/
theorem before (h : d.Unfolds names built turns) (heq : turns = pre ++ t :: post) :
    t.before.Sound ∧ t.before.Booked ∧ t.Proceeds (d.names names) ∧
      ∀ id, id ∈ t.before.declared ↔
        ∃ u ∈ pre, ∃ s, u.clause.Declares s ∧ (d.names names).idOf s = id := by
  obtain ⟨last, hturns, -⟩ := h.proceeds
  have hparts := h.part_ne_close
  rw [heq] at hturns hparts
  obtain ⟨hpre, ht, -⟩ := hturns.split
  have hs := Draft.sound_empty (d.knowsPins_names names)
  obtain ⟨hbooked, hdeclared⟩ := hpre.declared_iff hs Draft.booked_empty
    fun u hu => hparts u (List.mem_append_left _ hu)
  exact ⟨hpre.sound hs, hbooked, ht, fun id => by simp [hdeclared]⟩

section
variable {st : Statement} (h : d.Unfolds names built turns) (heq : turns = pre ++ t :: post)
  (hst : t.clause.Completes st)
include h heq hst

theorem verdict : t.before.Sound ∧
    Draft.Verdict (d.names names) st t.before t.after t.fault ∧
    Draft.Books (d.names names) st t.before t.after t.fault := by
  obtain ⟨hs, hb, ht, -⟩ := h.before heq
  have hmem : t ∈ turns := heq ▸ List.mem_append_right _ (List.mem_cons_self ..)
  exact ⟨hs, ht.verdict hs hb (h.part_ne_close t hmem) hst⟩

theorem seen : ∀ x ∈ st.symbols, x.Seen (d.names names) := by
  have hmem : t ∈ turns := heq ▸ List.mem_append_right _ (List.mem_cons_self ..)
  exact d.seen_of_completes names (h.clause_mem hmem) hst

end

theorem declared_iff (h : d.Unfolds names built turns) (heq : turns = pre ++ t :: post)
    (hs : s ∈ (d.names names).texts) :
    (d.names names).idOf s ∈ t.before.declared ↔ ∃ u ∈ pre, u.clause.Declares s := by
  obtain ⟨-, -, -, hdeclared⟩ := h.before heq
  simp [hdeclared, NameTable.idOf_eq_iff hs]

/-- Once a section after that of the devices is reached, no more devices are declared. -/
theorem part_ne_devices (h : d.Unfolds names built turns) (heq : turns = pre ++ t :: post)
    (hpart : t.clause.part ≠ .devices) : ∀ u ∈ t :: post, u.clause.part ≠ .devices := by
  have hpairs := d.pairwise_clauses
  rw [← h.clauses, heq, List.pairwise_map, List.pairwise_append] at hpairs
  have hpost := (List.pairwise_cons.1 hpairs.2.1).1
  exact List.forall_mem_cons.2 ⟨hpart, fun u hu hdevices => hpart (hpost u hu hdevices)⟩

theorem declared_iff_of_part_ne (h : d.Unfolds names built turns) (heq : turns = pre ++ t :: post)
    (hpart : t.clause.part ≠ .devices) (hs : s ∈ (d.names names).texts) :
    (d.names names).idOf s ∈ t.before.declared ↔ ∃ c ∈ d.clauses, c.Declares s := by
  have hrest := h.part_ne_devices heq hpart
  rw [h.declared_iff heq hs, ← h.clauses, heq]
  constructor
  · rintro ⟨u, hu, hdeclares⟩
    exact ⟨u.clause, List.mem_map_of_mem (List.mem_append_left _ hu), hdeclares⟩
  · rintro ⟨c, hc, hdeclares⟩
    obtain ⟨u, hu, rfl⟩ := List.mem_map.1 hc
    rcases List.mem_append.1 hu with hu | hu
    · exact ⟨u, hu, hdeclares⟩
    · exact absurd hdeclares.1 (hrest u hu)

theorem made_iff (h : d.Unfolds names built turns) (heq : turns = pre ++ t :: post)
    (hpart : t.clause.part ≠ .devices) (hs : s ∈ (d.names names).texts) :
    (d.names names).idOf s ∈ t.before.circuit.devices.ids ↔ built.HasDevice s := by
  obtain ⟨hsound, hbooked, ht, -⟩ := h.before heq
  obtain ⟨last, hturns, hcircuit⟩ := h.proceeds
  have hparts := h.part_ne_close
  rw [heq] at hturns hparts
  obtain ⟨-, -, hpost⟩ := hturns.split
  have hids := (Turns.cons ht hpost).ids_eq hsound hbooked
    (fun u hu => hparts u (List.mem_append_right _ hu)) (h.part_ne_devices heq hpart)
  rw [← h.names] at hs ⊢
  rw [Built.hasDevice_iff hs, hcircuit, hids]

/-- What a statement refers to is not made when its clause has its turn just if it is declared
somewhere but not made in the end. -/
theorem unmade_iff (h : d.Unfolds names built turns) (heq : turns = pre ++ t :: post)
    {st : Statement} (hst : t.clause.Completes st) {x : Symbol} (hx : x ∈ st.refersTo) :
    Refusal.Applies (d.names names) t.before (.unmade x) ↔
      (∃ c ∈ d.clauses, c.Declares x.text) ∧ ¬ built.HasDevice x.text := by
  have hpart := hst.part_ne_devices hx
  have hseen := h.seen heq hst x (Statement.mem_symbols_of_mem_refersTo hx)
  rw [Refusal.Applies, hseen.id_eq, h.declared_iff_of_part_ne heq hpart hseen.known,
    h.made_iff heq hpart hseen.known]

/-- What is reported as undefined is a name that no clause declares. -/
theorem undeclared (h : d.Unfolds names built turns) (heq : turns = pre ++ t :: post) {x : Symbol}
    (hfault : t.fault = some (.undefinedDevice x)) : ∀ c ∈ d.clauses, ¬ c.Declares x.text := by
  obtain ⟨-, -, hproceeds, -⟩ := h.before heq
  obtain ⟨st, hst⟩ := hproceeds.exists_completes hfault
  obtain ⟨-, hverdict, -⟩ := h.verdict heq hst
  rw [hfault] at hverdict
  obtain ⟨hx, hundeclared⟩ := hverdict.undeclared
  have hseen := h.seen heq hst x (Statement.mem_symbols_of_mem_refersTo hx)
  have hpart := hst.part_ne_devices hx
  rw [hseen.id_eq, h.declared_iff_of_part_ne heq hpart hseen.known] at hundeclared
  exact fun c hc hdeclares => hundeclared ⟨c, hc, hdeclares⟩

end Definition.Unfolds

/-! ### Broken names -/

/-- A name is abandoned right after a fault only. -/
inductive Heralded : List Note → Prop
  | nil : Heralded []
  | cons {n : Note} {notes : List Note} :
      (∀ name, n ≠ .abandon name) → Heralded notes → Heralded (n :: notes)
  | abandon {n : Note} {name : Symbol} {notes : List Note} :
      n.isFault = true → Heralded notes → Heralded (n :: .abandon name :: notes)

namespace Heralded
variable {notes a b : List Note}

theorem pass (h : Heralded notes) : Heralded (.pass :: notes) :=
  .cons (fun _ => Note.noConfusion) h

theorem append (ha : Heralded a) (hb : Heralded b) : Heralded (a ++ b) := by
  induction ha with
  | nil => exact hb
  | cons hn _ ih => exact .cons hn ih
  | abandon hn _ ih => exact .abandon hn ih

theorem of_filter (h : notes.filter Note.isDeed = []) : Heralded notes := by
  induction notes with
  | nil => exact .nil
  | cons n notes ih =>
    rw [List.filter_eq_nil_iff, List.forall_mem_cons] at h
    refine .cons (fun name hn => ?_) (ih (List.filter_eq_nil_iff.2 h.2))
    exact h.1 (hn ▸ rfl)

theorem filter_pass (h : Heralded notes) : Heralded (notes.filter (· != .pass)) := by
  induction h with
  | nil => exact .nil
  | @cons n notes hn _ ih =>
    rw [List.filter_cons]
    split
    · exact .cons hn ih
    · exact ih
  | @abandon n name notes hn _ ih =>
    have hpass : n ≠ .pass := fun heq => by
      rw [heq] at hn
      cases hn
    rw [List.filter_cons_of_pos (by simpa using hpass), List.filter_cons_of_pos (by simp)]
    exact .abandon hn ih

theorem exists_isFault (h : Heralded notes) {name : Symbol}
    (heq : notes = a ++ .abandon name :: b) : ∃ n ∈ a, n.isFault = true := by
  induction h generalizing a with
  | nil => simp at heq
  | @cons n notes hn _ ih =>
    cases a with
    | nil => exact absurd (List.cons.inj heq).1 (hn name)
    | cons m a =>
      obtain ⟨-, hrest⟩ := List.cons.inj heq
      obtain ⟨n', hn', hfault⟩ := ih hrest
      exact ⟨n', List.mem_cons_of_mem _ hn', hfault⟩
  | @abandon n _ notes hn _ _ =>
    cases a with
    | nil =>
      rw [(List.cons.inj heq).1] at hn
      cases hn
    | cons m a =>
      obtain ⟨rfl, -⟩ := List.cons.inj heq
      exact ⟨n, List.mem_cons_self .., hn⟩

end Heralded

namespace Outline
variable {s : Section}

theorem heralded_notes (s : Section) (item after : List Symbol) :
    Heralded (Item.notes s item after) := by
  have hpasses : ∀ xs, Heralded (Note.passes xs) := fun xs =>
    .of_filter (Item.filter_isDeed_passes xs)
  refine ((hpasses _).append ?_).append (hpasses _)
  cases (Item.read s item).outcome with
  | complete st =>
    refine .cons (fun _ => Note.noConfusion) (.of_filter ?_)
    split <;> simp
  | broken fault name =>
    cases name with
    | none => exact .of_filter (by simp)
    | some name => exact .abandon (Note.isFault_blame _ _) .nil

theorem heralded_items (s : Section) (symbols : List Symbol) : Heralded (items s symbols).1 := by
  fun_induction items s symbols with
  | case1 symbols item hdrop => exact (heralded_notes s item []).append (.of_filter rfl)
  | case2 symbols item x rest hdrop notes hx more left hmore ih =>
    rw [hmore] at ih
    exact (heralded_notes s item (x :: rest)).append ih.pass
  | case3 symbols item x rest hdrop notes hcomma hsemi =>
    exact (heralded_notes s item (x :: rest)).append (.of_filter rfl)
  | case4 symbols item x rest hdrop notes hcomma hsemi =>
    exact (heralded_notes s item (x :: rest)).append (.of_filter rfl)

theorem heralded_afterWord (s : Section) (symbols : List Symbol) :
    Heralded (afterWord s symbols).1 := by
  have hcolon : Heralded (colon s symbols).1 := by
    cases symbols with
    | nil => exact .of_filter rfl
    | cons x rest =>
      rw [colon]
      split <;> exact .of_filter rfl
  have hcontent : ∀ symbols, Heralded (content s symbols).1 := by
    intro symbols
    cases symbols with
    | nil => exact heralded_items s []
    | cons x rest =>
      rw [content]
      split
      · split <;> exact .of_filter rfl
      · exact heralded_items s _
  exact hcolon.append (hcontent _)

theorem heralded_part (s : Section) (symbols : List Symbol) : Heralded (part s symbols).1 := by
  have hskip : ∀ skipped, Heralded (if symbols.head?.any (·.section? == some s) then []
      else Note.blame (.expectedSection s) symbols :: Note.passes skipped) := by
    intro skipped
    refine .of_filter ?_
    split
    · rfl
    · rw [List.filter_cons_of_neg (by simp), Item.filter_isDeed_passes]
  simp only [part]
  split
  · exact hskip _
  · split
    · exact (hskip _).append (heralded_afterWord s _).pass
    · exact hskip _

theorem heralded_outline (symbols : List Symbol) : Heralded (outline symbols) :=
  (((heralded_part _ _).append (heralded_part _ _)).append (heralded_part _ _)).append
    (.of_filter (filter_isDeed_close _))

end Outline

def Event.note? : Event → Option Note
  | .stray _ => none
  | .note n => some n

theorem Event.note?_eq_some_iff {e : Event} {n : Note} : e.note? = some n ↔ e = .note n := by
  cases e <;> simp [note?]

theorem Definition.exists_isFault {d : Definition} {pre rest : List Event} {name : Symbol}
    (h : d.events = pre ++ .note (.abandon name) :: rest) : ∃ e ∈ pre, e.isFault = true := by
  have hnotes := d.filterMap_events (f := Event.note?) fun _ => rfl
  have hsome : (fun n => (Event.note n).note?) = some := rfl
  have hcons : (Event.note (.abandon name) :: rest).filterMap Event.note? =
      .abandon name :: rest.filterMap Event.note? := rfl
  rw [h, List.filterMap_append, hcons, hsome, List.filterMap_some] at hnotes
  obtain ⟨n, hn, hfault⟩ :=
    (Outline.heralded_outline d.valid).filter_pass.exists_isFault hnotes.symm
  obtain ⟨e, he, hnote⟩ := List.mem_filterMap.1 hn
  rw [Event.note?_eq_some_iff.1 hnote] at he
  exact ⟨_, he, hfault⟩

namespace Draft
variable {d d' : Draft} {text : Definition} {names : NameTable} {e : Event}

theorem Booked.reject (h : d.Booked) (text : Definition) (symbol : Symbol) (code : Code)
    (message : Text) : (d.reject text symbol code message).1.Booked ∧
      (d.reject text symbol code message).1.broken = d.broken := by
  unfold Draft.reject
  split <;> exact ⟨h, rfl⟩

/-- The names are kept account of, and none is broken without an error if it is not abandoned. -/
theorem Booked.step (hb : d.Booked) (h : d.Sound) {x : Option Diagnostic}
    (hs : d.step text names e = .ok (d', x)) :
    d'.Booked ∧ ((∀ name, e ≠ .note (.abandon name)) → (∀ g ∈ x, g.isError = false) →
      d'.broken = d.broken) := by
  cases e with
  | stray symbol =>
    cases hs
    exact ⟨hb, fun _ _ => rfl⟩
  | note n =>
  cases n with
  | pass =>
    cases hs
    exact ⟨hb, fun _ _ => rfl⟩
  | reject symbol fault =>
    have hreject := hb.reject text (symbol.getD text.last) fault.code
      (fault.message (symbol.getD text.last))
    rw [show d.reject .. = (d', x) from Except.ok.inj hs] at hreject
    exact ⟨hreject.1, fun _ _ => hreject.2⟩
  | endsEarly =>
    rw [Draft.step] at hs
    split at hs
    · cases hs
      exact ⟨hb, fun _ _ => rfl⟩
    · have hended : ({ d with ended := true } : Draft).Booked := hb
      have hreject := hended.reject text text.last .unexpectedEndOfFile
        (.ofString "File ends too early. Check for missing sections or 'END;'")
      rw [show Draft.reject .. = (d', x) from Except.ok.inj hs] at hreject
      exact ⟨hreject.1, fun _ _ => hreject.2⟩
  | abandon name =>
    cases hs
    exact ⟨hb.abandon _, fun hno _ => absurd rfl (hno name)⟩
  | complete st =>
    obtain ⟨d₁, fault, hp, -, hbooks⟩ := perform_verdict names h hb st
    rw [step_complete hp] at hs
    cases hs
    refine ⟨hbooks.booked, fun _ hx => hbooks.marked fun f hf => ?_⟩
    have hwarning := hx _ (Option.mem_map_of_mem _ hf)
    simp only [Diagnostic.isError, Definition.diagnose] at hwarning
    cases hseverity : f.severity with
    | warning => rfl
    | error => simp [hseverity] at hwarning

theorem Booked.run (hb : d.Booked) (h : d.Sound) {events : List Event} {ds : Diagnostics}
    (hr : d.run text names events = .ok (d', ds)) :
    d'.Booked ∧ ((∀ e ∈ events, ∀ name, e ≠ .note (.abandon name)) → ds.hasErrors = false →
      d'.broken = d.broken) := by
  induction events generalizing d ds with
  | nil =>
    cases hr
    exact ⟨hb, fun _ _ => rfl⟩
  | cons e events ih =>
    obtain ⟨d₁, x, ds', hstep, hd₁, hrun, rfl⟩ := run_cons_cases h hr
    obtain ⟨hb₁, hbroken₁⟩ := hb.step h hstep
    obtain ⟨hb₂, hbroken₂⟩ := ih hb₁ hd₁ hrun
    refine ⟨hb₂, fun hno hds => ?_⟩
    rw [Diagnostics.hasErrors_eq_false_iff, List.forall_mem_append] at hds
    obtain ⟨hnone, hnone'⟩ := List.forall_mem_cons.1 hno
    exact (hbroken₂ hnone' (Diagnostics.hasErrors_eq_false_iff.2 hds.2)).trans
      (hbroken₁ hnone fun g hg => hds.1 g (Option.mem_toList.2 hg))

end Draft

namespace Definition
variable (d : Definition) (names : NameTable)

/-- However far a definition has been taken in, the declared names are those of the devices and the
broken ones, and there is an error if a name is broken. -/
theorem run_prefix {pre rest : List Event} (h : d.events = pre ++ rest) : ∃ draft ds,
    Draft.run d (d.names names) { circuit := .empty (d.names names) } pre = .ok (draft, ds) ∧
      draft.Sound ∧ draft.Booked ∧ (draft.broken ≠ [] → ds.hasErrors = true) := by
  have hs := Draft.sound_empty (d.knowsPins_names names)
  obtain ⟨draft, ds, hrun, hsound⟩ := Draft.run_ok d (d.names names) hs pre
  obtain ⟨hbooked, hbroken⟩ := Draft.booked_empty.run hs hrun
  refine ⟨draft, ds, hrun, hsound, hbooked, fun hne => ?_⟩
  by_contra herrors
  rw [Bool.not_eq_true] at herrors
  -- Without an error there is no fault, and without a fault nothing is abandoned.
  have hfaults := Draft.isFault_of_run hs ⟨rfl, rfl⟩ hrun herrors
  refine hne (hbroken (fun e he name heq => ?_) herrors)
  obtain ⟨before, after, rfl⟩ := List.append_of_mem (heq ▸ he)
  rw [List.append_assoc, List.cons_append] at h
  obtain ⟨e', he', hfault⟩ := exists_isFault h
  have hnone := hfaults e' (List.mem_append_left _ he')
  rw [hfault] at hnone
  cases hnone

/-- A device is a duplicate just if an earlier clause comes as far as its name, and is not made then.
A name is reported as undefined only if no clause comes as far as it, and is if a monitor is to be set
on it. What refers to a device that was declared but not made changes nothing, and such a device is
not reported as undefined. However far the definition has been taken in, the declared names are those
of the devices and the broken ones, a broken name comes with an error, and no device has a name that
may still be declared, so that the circuit is always built. -/
theorem build_declarations : ∃ built turns,
    (Builder.build { definition := d } names).1 = .ok built ∧ d.Unfolds names built turns ∧
    (∀ pre t post, turns = pre ++ t :: post → ∀ kind name parameter,
      t.clause.Completes (.device kind name parameter) →
      ((∃ f ∈ t.fault, f.code = .duplicateDevice) ↔ ∃ u ∈ pre, u.clause.Declares name.text) ∧
      ((∃ u ∈ pre, u.clause.Declares name.text) → t.after.circuit = t.before.circuit)) ∧
    (∀ g ∈ built.diagnostics, g.code = .undefinedDevice →
      ∃ t ∈ turns, ∃ x, t.fault = some (.undefinedDevice x) ∧ g = d.report (.undefinedDevice x) ∧
        ∀ c ∈ d.clauses, ¬ c.Declares x.text) ∧
    (∀ t ∈ turns, ∀ name pin, t.clause.Completes (.monitor name pin) →
      (∀ c ∈ d.clauses, ¬ c.Declares name.text) → t.fault = some (.undefinedDevice name)) ∧
    (∀ t ∈ turns, ∀ st, t.clause.Completes st → ∀ x ∈ st.refersTo,
      (∃ c ∈ d.clauses, c.Declares x.text) → ¬ built.HasDevice x.text →
      t.after = t.before ∧ ∀ y, t.fault = some (.undefinedDevice y) → y.text ≠ x.text) ∧
    ∀ pre rest, d.events = pre ++ rest → ∃ draft ds,
      Draft.run d (d.names names) { circuit := .empty (d.names names) } pre = .ok (draft, ds) ∧
      draft.Booked ∧ (draft.broken ≠ [] → ds.hasErrors = true) ∧
      ∀ id, id ∉ draft.declared → draft.circuit.devices.has id = false := by
  obtain ⟨built, turns, hbuild, h⟩ := d.exists_unfolds names
  refine ⟨built, turns, hbuild, h, ?_, ?_, ?_, ?_, ?_⟩
  · intro pre t post heq kind name parameter hst
    obtain ⟨-, hverdict, -⟩ := h.verdict heq hst
    have hseen := h.seen heq hst name (List.mem_cons_self ..)
    have hdeclared := h.declared_iff heq hseen.known
    rw [← hseen.id_eq] at hdeclared
    exact ⟨hverdict.duplicate_iff.trans hdeclared,
      fun hu => (hverdict.of_head rfl (hdeclared.2 hu)).2⟩
  · intro g hg hcode
    have hsemantic : g ∈ built.diagnostics.semantic := by
      have hcategory := d.category_of_mem names hbuild g hg
      rw [hcode] at hcategory
      exact List.mem_filter.2 ⟨hg, by rw [hcategory]; rfl⟩
    rw [h.semantic] at hsemantic
    obtain ⟨t, ht, hreport⟩ := List.mem_filterMap.1 hsemantic
    obtain ⟨f, hfault, rfl⟩ := Option.map_eq_some_iff.1 hreport
    obtain ⟨x, rfl⟩ := SemanticFault.exists_of_code hcode
    obtain ⟨pre, post, heq⟩ := List.append_of_mem ht
    exact ⟨t, ht, x, hfault, rfl, h.undeclared heq hfault⟩
  · intro t ht name pin hst hno
    obtain ⟨pre, post, heq⟩ := List.append_of_mem ht
    obtain ⟨-, hverdict, -⟩ := h.verdict heq hst
    have hname : name ∈ (Statement.monitor name pin).refersTo := List.mem_singleton.2 rfl
    have hseen := h.seen heq hst name (List.mem_cons_self ..)
    refine SemanticFault.eq_undefinedDevice (hverdict.of_head rfl ?_).1
    rw [Refusal.Applies, hseen.id_eq,
      h.declared_iff_of_part_ne heq (hst.part_ne_devices hname) hseen.known]
    rintro ⟨c, hc, hdeclares⟩
    exact hno c hc hdeclares
  · intro t ht st hst x hx hdeclared hmade
    obtain ⟨pre, post, heq⟩ := List.append_of_mem ht
    obtain ⟨-, hverdict, hbooks⟩ := h.verdict heq hst
    refine ⟨?_, fun y hfault htext => ?_⟩
    · have hcircuit := hverdict.circuit_eq_of_unmade hx
        ((h.unmade_iff heq hst hx).2 ⟨hdeclared, hmade⟩)
      rw [(hbooks.kept (Statement.declares_eq_none hx)).1, hcircuit]
    · obtain ⟨c, hc, hdeclares⟩ := hdeclared
      exact h.undeclared heq hfault c hc (htext ▸ hdeclares)
  · intro pre rest heq
    obtain ⟨draft, ds, hrun, hs, hb, hbroken⟩ := d.run_prefix names heq
    refine ⟨draft, ds, hrun, hb, hbroken, fun id hid => ?_⟩
    exact Bool.eq_false_iff.2 fun hhas => hid (hs.declared id (hs.devices.has_iff.1 hhas))

end Definition

end GateSim
