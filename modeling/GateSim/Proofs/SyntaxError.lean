import GateSim.Proofs.Draft
import GateSim.Proofs.Scan
import GateSim.Proofs.Walk

/-!
# Syntax errors

A run of a draft reports the faults among its notes, each but those that are where the last one was
(`Draft.positions_of_run`). So the first syntax error is at the first symbol with which no sentence
can start any more, and an error at the end of the file is the only one there.
-/

namespace GateSim

open Grammar

namespace Diagnostics

def syntaxErrors (ds : Diagnostics) : Diagnostics := ds.filter (·.category == .syntactic)

theorem syntaxErrors_append (ds ds' : Diagnostics) :
    syntaxErrors (ds ++ ds') = ds.syntaxErrors ++ ds'.syntaxErrors := List.filter_append ..

end Diagnostics

open Diagnostics

/-- The places that are reported, after the one that was reported last. -/
def Position.reported : Option Position → List Position → List Position
  | _, [] => []
  | last, p :: places =>
    if last = some p then reported last places else p :: reported (some p) places

namespace Position
variable {p : Position} {places : List Position}

theorem reported_eq_nil (h : ∀ q ∈ places, q = p) : reported (some p) places = [] := by
  induction places with
  | nil => rfl
  | cons q places ih =>
    obtain ⟨rfl, hplaces⟩ := List.forall_mem_cons.1 h
    rw [reported, if_pos rfl, ih hplaces]

/-- Different places are all reported. -/
theorem reported_eq_self {last : Option Position} (h : places.Nodup) (hlast : ∀ q ∈ last, q ∉ places) :
    reported last places = places := by
  induction places generalizing last with
  | nil => rfl
  | cons q places ih =>
    obtain ⟨hq, hplaces⟩ := List.nodup_cons.1 h
    have hne : last ≠ some q := fun heq => hlast q heq (List.mem_cons_self ..)
    rw [reported, if_neg hne, ih hplaces (by rintro _ ⟨⟩; exact hq)]

end Position

namespace Event

/-- Where the syntax error is that the event may lead to. -/
def place? (last : Position) : Event → Option Position
  | .stray _ => none
  | .note n => n.place? last

end Event

namespace Definition

theorem filterMap_place?_events (d : Definition) :
    d.events.filterMap (·.place? d.last.position) = d.notes.filterMap (·.place? d.last.position) := by
  rw [filterMap_events fun _ => rfl, List.filterMap_filter]
  refine congrArg (List.filterMap · d.notes) (funext fun n => ?_)
  cases n <;> rfl

end Definition

namespace Draft
variable {d d' : Draft} {text : Definition} {names : NameTable} {e : Event} {x : Option Diagnostic}

/-- A fault at a place has been noted, and has been reported unless the last one was there too. -/
structure Rejected (d d' : Draft) (x : Option Diagnostic) (p : Position) : Prop where
  lastReject : d'.lastReject = some p
  positions : (syntaxErrors x.toList).map (·.position) = if d.lastReject = some p then [] else [p]

theorem rejected_reject (d : Draft) (text : Definition) (symbol : Symbol) (code : Code)
    (message : Text) :
    Rejected d (d.reject text symbol code message).1 (d.reject text symbol code message).2
      symbol.position := by
  unfold reject
  split
  · next h => exact ⟨h, by rw [if_pos h]; rfl⟩
  · next h => exact ⟨rfl, by rw [if_neg h]; rfl⟩

theorem ended_reject (d : Draft) (text : Definition) (symbol : Symbol) (code : Code)
    (message : Text) : (d.reject text symbol code message).1.ended = d.ended := by
  unfold reject
  split <;> rfl

/-- The early end of the file is noted once, and nothing is noted elsewhere after it. -/
def EndsWell (d : Draft) (last : Position) (places : List Position) : Prop :=
  d.ended = true → d.lastReject = some last ∧ ∀ p ∈ places, p = last

theorem step_of_place {p : Position} {places : List Position}
    (hd : d.EndsWell text.last.position (p :: places))
    (hp : ∀ q ∈ places, p = text.last.position → q = text.last.position)
    (he : e.place? text.last.position = some p) (hs : d.step text names e = .ok (d', x)) :
    Rejected d d' x p ∧ d'.EndsWell text.last.position places := by
  have hkeep : Rejected d d' x p → d'.ended = d.ended → d'.EndsWell text.last.position places := by
    intro hr hended h
    obtain ⟨-, hall⟩ := hd (hended ▸ h)
    obtain ⟨hplace, hall⟩ := List.forall_mem_cons.1 hall
    exact ⟨hplace ▸ hr.lastReject, hall⟩
  cases e with
  | stray symbol => cases he
  | note n =>
  cases n with
  | pass => cases he
  | abandon name => cases he
  | complete st => cases he
  | reject symbol fault =>
    have hposition : ((symbol.getD text.last).position) = p := by
      cases symbol <;> exact Option.some.inj he
    have hr := rejected_reject d text (symbol.getD text.last) fault.code
      (fault.message (symbol.getD text.last))
    have hended := ended_reject d text (symbol.getD text.last) fault.code
      (fault.message (symbol.getD text.last))
    rw [hposition, show d.reject .. = (d', x) from Except.ok.inj hs] at hr
    rw [show d.reject .. = (d', x) from Except.ok.inj hs] at hended
    exact ⟨hr, hkeep hr hended⟩
  | endsEarly =>
    obtain rfl : text.last.position = p := Option.some.inj he
    have hplaces : ∀ q ∈ places, q = text.last.position := fun q hq => hp q hq rfl
    rw [step] at hs
    split at hs
    · next hended =>
      cases hs
      have hlast := (hd hended).1
      exact ⟨⟨hlast, by rw [if_pos hlast]; rfl⟩, fun _ => ⟨hlast, hplaces⟩⟩
    · have hr := rejected_reject { d with ended := true } text text.last .unexpectedEndOfFile
        (.ofString "File ends too early. Check for missing sections or 'END;'")
      rw [show Draft.reject .. = (d', x) from Except.ok.inj hs] at hr
      exact ⟨⟨hr.lastReject, hr.positions⟩, fun _ => ⟨hr.lastReject, hplaces⟩⟩

theorem step_of_no_place (h : d.Sound) (he : e.place? text.last.position = none)
    (hs : d.step text names e = .ok (d', x)) :
    syntaxErrors x.toList = [] ∧ d'.lastReject = d.lastReject ∧ d'.ended = d.ended := by
  match e with
  | .stray symbol =>
    cases hs
    refine ⟨?_, rfl, rfl⟩
    unfold Definition.stray
    split <;> rfl
  | .note .pass =>
    cases hs
    exact ⟨rfl, rfl, rfl⟩
  | .note (.abandon name) =>
    cases hs
    exact ⟨rfl, rfl, rfl⟩
  | .note (.complete st) =>
    obtain ⟨d₁, f, hp, hd₁⟩ := perform_ok names h st
    rw [step_complete hp] at hs
    cases hs
    refine ⟨?_, hd₁.lastReject, hd₁.ended⟩
    cases f <;> rfl

/-- The syntax errors of a run are at the places of the faults among its events. -/
theorem positions_of_run {events : List Event} {ds : Diagnostics} (h : d.Sound)
    (hd : d.EndsWell text.last.position (events.filterMap (·.place? text.last.position)))
    (hp : (events.filterMap (·.place? text.last.position)).Pairwise
      fun p q => p = text.last.position → q = text.last.position)
    (hr : d.run text names events = .ok (d', ds)) :
    (syntaxErrors ds).map (·.position) =
      Position.reported d.lastReject (events.filterMap (·.place? text.last.position)) := by
  induction events generalizing d ds with
  | nil =>
    cases hr
    rfl
  | cons e events ih =>
    obtain ⟨d₁, x, ds', hstep, hd₁, hrun, rfl⟩ := run_cons_cases h hr
    rw [syntaxErrors_append, List.map_append]
    cases he : e.place? text.last.position with
    | none =>
      rw [List.filterMap_cons_none he] at hd hp ⊢
      obtain ⟨hx, hlast, hended⟩ := step_of_no_place h he hstep
      rw [hx, ih hd₁ (fun hended' => hlast ▸ hd (hended ▸ hended')) hp hrun, hlast]
      rfl
    | some p =>
      rw [List.filterMap_cons_some he] at hd hp ⊢
      obtain ⟨hp₁, hp₂⟩ := List.pairwise_cons.1 hp
      obtain ⟨hr, hends⟩ := step_of_place hd hp₁ he hstep
      rw [hr.positions, ih hd₁ hends hp₂ hrun, hr.lastReject, Position.reported]
      split
      · next heq => rw [heq, List.nil_append]
      · rfl

end Draft

/-! ### Files -/

namespace Grammar
variable {s : Section} {xs ys : List Symbol} {st : Statement} {sts : List Statement}

/-- A sentence and the end of the file. -/
def IsFile (xs : List Symbol) : Prop :=
  ∃ ys last sts, xs = ys ++ [last] ∧ last.type = .endOfFile ∧ IsSentence ys sts

/-- A file can start with these symbols. -/
def BeginsFile (xs : List Symbol) : Prop := ∃ ys, IsFile (xs ++ ys)

theorem IsSentence.beginsFile (h : IsSentence (xs ++ ys) sts) : BeginsFile xs := by
  obtain ⟨last, hlast⟩ := exists_type .endOfFile
  exact ⟨ys ++ [last], xs ++ ys, last, sts, by simp, hlast, h⟩

/-- A file can start with all the symbols of a sentence that is cut short, so the first symbol with
which none can start is the one that comes after them. -/
theorem IsSentence.eq_last_of_not_beginsFile {front back : List Symbol} {x last : Symbol}
    (h : IsSentence (xs ++ ys) sts) (heq : xs ++ [last] = front ++ x :: back)
    (hx : ¬ BeginsFile (front ++ [x])) : x = last := by
  rcases List.eq_nil_or_concat back with rfl | ⟨back, y, rfl⟩
  · exact (List.cons.inj (List.append_inj_right' heq rfl)).1.symm
  · rw [List.concat_eq_append, ← List.cons_append, ← List.append_assoc] at heq
    rw [List.append_inj_left' heq rfl] at h
    have hbegins : IsSentence (front ++ [x] ++ (back ++ ys)) sts := by simpa using h
    exact absurd hbegins.beginsFile hx

theorem IsOutput.ne_endOfFile {name : Symbol} {pin : Option Symbol} (h : IsOutput xs name pin) :
    ∀ x ∈ xs, x.type ≠ .endOfFile := by
  cases h with
  | unnamed h => simp [show _ = _ from h]
  | named h hd hp => simp [show _ = _ from h, hd, show _ = _ from hp.1]

theorem IsStatement.ne_endOfFile (h : IsStatement s xs st) : ∀ x ∈ xs, x.type ≠ .endOfFile := by
  cases h with
  | device hk hn hp =>
    cases hp with
    | number _ hx _ => simp [hk.1, show _ = _ from hn, hx]
    | none => simp [hk.1, show _ = _ from hn]
  | connection ho ha ht hd hp =>
    simp only [List.mem_append, or_imp, forall_and]
    refine ⟨ho.ne_endOfFile, ?_⟩
    simp [ha, show _ = _ from ht, hd, show _ = _ from hp.1]
  | monitor ho => exact ho.ne_endOfFile

theorem IsItems.ne_endOfFile (h : IsItems s xs sts) : ∀ x ∈ xs, x.type ≠ .endOfFile := by
  induction h with
  | single hst => exact hst.ne_endOfFile
  | cons hst hc _ ih =>
    simp only [List.mem_append, List.mem_cons, or_imp, forall_and, forall_eq]
    exact ⟨hst.ne_endOfFile, by simp [hc], ih⟩

theorem IsPart.ne_endOfFile (h : IsPart s xs sts) : ∀ x ∈ xs, x.type ≠ .endOfFile := by
  cases h with
  | items hw hc hi hsemi =>
    simp only [List.mem_append, List.mem_cons, List.not_mem_nil, or_false, or_imp, forall_and,
      forall_eq]
    exact ⟨⟨by simp [hw.1], by simp [hc], hi.ne_endOfFile⟩, by simp [hsemi]⟩
  | empty _ hw hc hsemi => simp [hw.1, hc, hsemi]

theorem IsSentence.ne_endOfFile (h : IsSentence xs sts) : ∀ x ∈ xs, x.type ≠ .endOfFile := by
  obtain ⟨hds, hcs, hms, hw, hsemi⟩ := h
  simp only [List.mem_append, or_imp, forall_and]
  exact ⟨⟨⟨hds.ne_endOfFile, hcs.ne_endOfFile⟩, hms.ne_endOfFile⟩, by simp [hw.1, hsemi]⟩

/-- The end of the file ends a file. -/
theorem isSentence_of_beginsFile {last : Symbol} (hlast : last.type = .endOfFile)
    (h : BeginsFile (xs ++ [last])) : ∃ sts, IsSentence xs sts := by
  obtain ⟨zs, ys, last', sts, heq, -, hys⟩ := h
  rcases List.eq_nil_or_concat zs with rfl | ⟨us, z, rfl⟩
  · rw [List.append_nil] at heq
    exact ⟨sts, (List.append_inj_left' heq rfl) ▸ hys⟩
  · rw [List.concat_eq_append, ← List.append_assoc] at heq
    have hmem : last ∈ ys := by
      rw [← List.append_inj_left' heq rfl]
      simp
    exact absurd hlast (hys.ne_endOfFile last hmem)

theorem exists_isSentence_of_beginsFile {x : Symbol} (hx : x.type ≠ .endOfFile)
    (h : BeginsFile (xs ++ [x])) : ∃ zs sts, IsSentence (xs ++ x :: zs) sts := by
  obtain ⟨zs, ys, last, sts, heq, hlast, hys⟩ := h
  rcases List.eq_nil_or_concat zs with rfl | ⟨us, z, rfl⟩
  · rw [List.append_nil] at heq
    have hxlast := List.append_inj_right' heq rfl
    exact absurd (List.cons.inj hxlast).1 fun h => hx (h ▸ hlast)
  · rw [List.concat_eq_append, ← List.append_assoc] at heq
    have hys' := List.append_inj_left' heq rfl
    exact ⟨us, sts, by rw [← hys'] at hys; simpa using hys⟩

/-- Nothing comes after a sentence in one. -/
theorem IsSentence.eq_nil_of_append {sts' : List Statement} (h : IsSentence xs sts)
    (h' : IsSentence (xs ++ ys) sts') : ys = [] := by
  have hclean := (Outline.reads_outline h').clean
  obtain ⟨hds, hcs, hms, hw, hsemi⟩ := h
  simp only [outline, List.append_assoc, (Outline.reads_part _ hds).2,
    (Outline.reads_part _ hcs).2, (Outline.reads_part _ hms).2, Clean.append_iff] at hclean
  obtain ⟨word, semicolon, heq, -, -⟩ := Outline.exists_of_clean_close hclean.2.2.2
  exact (List.cons.inj (List.cons.inj heq).2).2

end Grammar

/-! ### The first syntax error -/

namespace Definition
variable (d : Definition) (names : NameTable)

/-- Where the faults of a definition that is no sentence are. -/
theorem exists_places (h : ¬ Clean d.notes) : ∃ front x back places,
    d.valid ++ [d.last] = front ++ x :: back ∧ BeginsFile front ∧ ¬ BeginsFile (front ++ [x]) ∧
    d.notes.filterMap (·.place? d.last.position) = x.position :: places ∧
    (x.type = .endOfFile → ∀ p ∈ places, p = x.position) := by
  obtain ⟨ys, hys⟩ := Outline.exists_breaksAt_outline h
  obtain ⟨rest, hvalid⟩ := hys.initial
  obtain ⟨zs, sts, hzs⟩ := hys.begins
  obtain ⟨before, n, after, hnotes, hbefore, hn, hcount⟩ := hys.faultsAfter
  obtain ⟨left, hwalk⟩ := Outline.walks_outline d.valid
  rw [hnotes] at hwalk
  have hwalk := hwalk.drop
  rw [hcount, ← hvalid, List.drop_left] at hwalk
  have hplaces : d.notes.filterMap (·.place? d.last.position) =
      ((rest.head?.map (·.position)).getD d.last.position) ::
        after.filterMap (·.place? d.last.position) := by
    have hnone : before.filterMap (·.place? d.last.position) = [] :=
      List.filterMap_eq_nil_iff.2 fun m hm => Note.place?_eq_none_iff.2 (hbefore m hm)
    rw [show d.notes = _ from hnotes, List.filterMap_append, hnone, List.nil_append,
      List.filterMap_cons_some (hwalk.place?_head hn)]
  have hbegins : BeginsFile ys := hzs.beginsFile
  cases rest with
  | nil =>
    rw [List.append_nil] at hvalid
    refine ⟨ys, d.last, [], _, by rw [hvalid], hbegins, fun hfile => ?_, hplaces, fun _ => ?_⟩
    · obtain ⟨sts, hsts⟩ := isSentence_of_beginsFile d.type_last hfile
      exact h (Outline.reads_outline (hvalid ▸ hsts)).clean
    · cases hwalk with
      | reject hwalk => exact hwalk.places_nil
      | endsEarly hwalk => exact hwalk.places_nil
      | abandon | complete => cases hn
  | cons x rest =>
    have hx : x.type ≠ .endOfFile := d.type_ne_endOfFile x (by rw [← hvalid]; simp)
    refine ⟨ys, x, rest ++ [d.last], _, by rw [← hvalid]; simp, hbegins, fun hfile => ?_, hplaces,
      fun heof => absurd heof hx⟩
    obtain ⟨zs, sts, hsts⟩ := exists_isSentence_of_beginsFile hx hfile
    exact hys.stuck x rest hvalid.symm zs (Outline.reads_outline hsts).clean

theorem isFile_iff : IsFile (d.valid ++ [d.last]) ↔ Clean d.notes := by
  constructor
  · intro h
    obtain ⟨sts, hsts⟩ := isSentence_of_beginsFile d.type_last ⟨[], by simpa using h⟩
    exact (Outline.reads_outline hsts).clean
  · intro h
    obtain ⟨sts, hsts⟩ := Outline.exists_isSentence h
    exact ⟨d.valid, d.last, sts, rfl, d.type_last, hsts⟩

/-- A definition is built, and its syntax errors are at the places of its faults. -/
theorem exists_build_positions : ∃ built, d.build names = .ok built ∧
    (built.success = true → Clean d.notes) ∧
    built.diagnostics.syntaxErrors.map (·.position) =
      Position.reported none (d.notes.filterMap (·.place? d.last.position)) := by
  obtain ⟨draft, ds, hrun, hbuild⟩ := d.build_eq names
  refine ⟨_, hbuild, fun h => ?_, ?_⟩
  · exact (d.regular_of_run names hrun (by simpa [Built.success] using h)).clean
  · obtain ⟨left, hwalk⟩ := Outline.walks_outline d.valid
    have hpositions := Draft.positions_of_run (Draft.sound_empty (d.knowsPins_names names))
      (fun hended => by cases hended)
      (by rw [filterMap_place?_events]; exact hwalk.pairwise_places d.position_ne_last) hrun
    rwa [filterMap_place?_events] at hpositions

/-- A definition that is no sentence has a first syntax error, at the first symbol with which no
file can start. If that is its end, there are no others. -/
theorem first_syntaxError : ∃ built, d.build names = .ok built ∧
    (built.diagnostics.syntaxErrors = [] ↔ IsFile (d.valid ++ [d.last])) ∧
    (∀ e es, built.diagnostics.syntaxErrors = e :: es → ∃ front x back,
      d.valid ++ [d.last] = front ++ x :: back ∧ e.position = x.position ∧
      BeginsFile front ∧ ¬ BeginsFile (front ++ [x]) ∧ (x.type = .endOfFile → es = [])) ∧
    (∀ ys sts, ys ≠ [] → IsSentence (d.valid ++ ys) sts →
      ∃ e, built.diagnostics.syntaxErrors = [e] ∧ e.position = d.last.position ∧
        built.success = false) := by
  obtain ⟨built, hbuild, hsuccess, hpositions⟩ := d.exists_build_positions names
  refine ⟨built, hbuild, ?_⟩
  by_cases hclean : Clean d.notes
  · have hnone : d.notes.filterMap (·.place? d.last.position) = [] :=
      List.filterMap_eq_nil_iff.2 fun n hn => Note.place?_eq_none_iff.2 (hclean n hn)
    have hnil : built.diagnostics.syntaxErrors = [] := by
      rw [hnone] at hpositions
      exact List.map_eq_nil_iff.1 hpositions
    obtain ⟨sts, hsts⟩ := Outline.exists_isSentence hclean
    refine ⟨iff_of_true hnil (d.isFile_iff.2 hclean), fun e es h => ?_, fun ys sts' hne hys => ?_⟩
    · rw [hnil] at h
      cases h
    · exact absurd (hsts.eq_nil_of_append hys) hne
  · obtain ⟨front, x, back, places, hsymbols, hfront, hx, hplaces, hend⟩ := d.exists_places hclean
    rw [hplaces] at hpositions
    have hfirst : ∀ e es, built.diagnostics.syntaxErrors = e :: es →
        e.position = x.position ∧ (x.type = .endOfFile → es = []) := by
      intro e es h
      rw [h] at hpositions
      obtain ⟨he, hes⟩ := List.cons.inj hpositions
      refine ⟨he, fun htype => ?_⟩
      rw [Position.reported_eq_nil (hend htype)] at hes
      exact List.map_eq_nil_iff.1 hes
    refine ⟨iff_of_false (fun h => ?_) (mt d.isFile_iff.1 hclean), fun e es h => ?_,
      fun ys sts _ hys => ?_⟩
    · rw [h] at hpositions
      cases hpositions
    · exact ⟨front, x, back, hsymbols, (hfirst e es h).1, hfront, hx, (hfirst e es h).2⟩
    · have hlast := hys.eq_last_of_not_beginsFile hsymbols hx
      cases herrors : built.diagnostics.syntaxErrors with
      | nil =>
        rw [herrors] at hpositions
        cases hpositions
      | cons e es =>
        obtain ⟨he, hes⟩ := hfirst e es herrors
        rw [hlast] at he hes
        rw [hes d.type_last]
        exact ⟨e, rfl, he, Bool.eq_false_iff.2 fun h => hclean (hsuccess h)⟩

end Definition

end GateSim
