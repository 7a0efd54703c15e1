import GateSim.Definition
import GateSim.Proofs.Outline

/-!
# Events of definitions

The notes on a definition other than passes are all among its events, and if a sentence was read to
its end so are its invalid symbols. So a definition without a fault among its events is a sentence
without invalid symbols, and the events of such a definition are its statements
(`Definition.exists_isSentence`, `Definition.events_eq`).
-/

namespace GateSim

open Grammar

namespace Event

/-- The event leads to an error whatever the draft. -/
def isFault : Event → Bool
  | .stray _ => true
  | .note n => n.isFault

variable {ahead : List Lexeme} {notes : List Note}

theorem follow_pass : follow ahead (.pass :: notes) = look ahead.tail ++ follow ahead.tail notes :=
  rfl

theorem follow_cons {n : Note} (h : n ≠ .pass) :
    follow ahead (n :: notes) = .note n :: follow ahead notes := by
  cases n <;> simp_all [follow]

section
variable {α : Type} {f : Event → Option α} (hf : ∀ x, f (.stray x) = none)
include hf

theorem filterMap_look (ahead : List Lexeme) : (look ahead).filterMap f = [] := by
  cases ahead with
  | nil => rfl
  | cons x ahead => simp [look, hf]

/-- What is read off the events other than invalid symbols is read off the notes other than
passes. -/
theorem filterMap_follow (ahead : List Lexeme) (notes : List Note) :
    (follow ahead notes).filterMap f =
      (notes.filter (· != .pass)).filterMap fun n => f (.note n) := by
  induction notes generalizing ahead with
  | nil => rfl
  | cons n notes ih =>
    by_cases hn : n = .pass
    · subst hn
      rw [follow_pass, List.filterMap_append, filterMap_look hf, ih]
      rfl
    · rw [follow_cons hn, List.filterMap_cons, List.filter_cons_of_pos (by simpa using hn),
        List.filterMap_cons, ih]

end

theorem follow_eq (h : ∀ x ∈ ahead, x.strays = []) :
    follow ahead notes = (notes.filter (· != .pass)).map .note := by
  induction notes generalizing ahead with
  | nil => simp [follow]
  | cons m notes ih =>
    by_cases hm : m = .pass
    · subst hm
      have htail : ∀ x ∈ ahead.tail, x.strays = [] := fun x hx => h x (List.mem_of_mem_tail hx)
      have hlook : look ahead.tail = [] := by
        cases hc : ahead.tail with
        | nil => rfl
        | cons x _ => simp [look, htail x (by simp [hc])]
      rw [follow_pass, hlook, ih htail]
      simp
    · rw [follow_cons hm, ih h]
      simp [hm]

/-- All invalid symbols are found if all symbols are passed. -/
theorem stray_mem_follow (h : ahead.tail.length ≤ notes.countP (· == .pass)) {x : Lexeme}
    (hx : x ∈ ahead.tail) {s : Symbol} (hs : s ∈ x.strays) : .stray s ∈ follow ahead notes := by
  induction notes generalizing ahead with
  | nil =>
    rw [List.countP_nil, Nat.le_zero, List.length_eq_zero_iff] at h
    simp [h] at hx
  | cons m notes ih =>
    by_cases hm : m = .pass
    · subst hm
      rw [follow_pass]
      match ahead with
      | [] => simp at hx
      | [_] => simp at hx
      | _ :: y :: ahead =>
        simp only [List.tail_cons, List.length_cons, List.countP_cons_of_pos, BEq.rfl] at h
        rcases List.mem_cons.1 hx with rfl | hx
        · exact List.mem_append_left _ (List.mem_map_of_mem hs)
        · exact List.mem_append_right _ (ih (by simpa using h) hx)
    · rw [follow_cons hm]
      refine List.mem_cons_of_mem _ (ih ?_ hx)
      rwa [List.countP_cons_of_neg (by simpa using hm)] at h

end Event

namespace Definition
variable {d : Definition} {sts : List Statement}

theorem filterMap_events {α : Type} {f : Event → Option α} (hf : ∀ x, f (.stray x) = none) :
    d.events.filterMap f = (d.notes.filter (· != .pass)).filterMap fun n => f (.note n) := by
  rw [events, List.filterMap_append, Event.filterMap_look hf, Event.filterMap_follow hf,
    List.nil_append]

theorem filter_events {p : Event → Bool} (hp : ∀ x, p (.stray x) = false) :
    d.events.filter p = ((d.notes.filter (· != .pass)).filter fun n => p (.note n)).map .note := by
  have hguard : ∀ x, Option.guard p (.stray x) = none := fun x => by simp [hp]
  rw [← List.filterMap_eq_filter, filterMap_events hguard]
  generalize d.notes.filter (· != .pass) = notes
  rw [← List.filterMap_eq_filter, List.map_filterMap]
  refine congrArg (List.filterMap · notes) (funext fun n => ?_)
  simp only [Option.guard]
  split <;> rfl

theorem note_mem_events {n : Note} : .note n ∈ d.events ↔ n ∈ d.notes ∧ n ≠ .pass := by
  have hn : .note n ∈ d.events ↔ .note n ∈ d.events.filter (· == .note n) := by simp
  have hp : ∀ x, (Event.stray x == .note n) = false := fun x => beq_eq_false_iff_ne.2 nofun
  rw [hn, filter_events hp, List.mem_map]
  simp

/-- Nothing but well-formed statements is found. -/
def Regular (d : Definition) : Prop := ∀ e ∈ d.events, e.isFault = false

theorem length_lexemes (d : Definition) : d.lexemes.length = d.valid.length + 1 := by
  have h := congrArg List.length (Lexeme.map_symbol_gather d.last [] d.text.symbols.1)
  simpa [lexemes, valid] using h

theorem flatMap_strays (d : Definition) :
    d.lexemes.flatMap (·.strays) = d.text.symbols.1.filter (·.type == .invalid) :=
  Lexeme.flatMap_strays_gather d.last [] d.text.symbols.1

theorem Regular.clean (h : d.Regular) : Clean d.notes := by
  intro n hn
  by_cases hp : n = .pass
  · rw [hp]; rfl
  · exact h (.note n) (note_mem_events.2 ⟨hn, hp⟩)

theorem Regular.ne_invalid (h : d.Regular) : ∀ x ∈ d.text.symbols.1, x.type ≠ .invalid := by
  obtain ⟨sts, hsts⟩ := Outline.exists_isSentence h.clean
  have hpasses : d.notes.countP (· == .pass) = d.valid.length := (Outline.reads_outline hsts).passes
  intro x hx hinvalid
  have hmem : x ∈ d.lexemes.flatMap (·.strays) := by
    rw [flatMap_strays]
    exact List.mem_filter.2 ⟨hx, by simpa using hinvalid⟩
  obtain ⟨l, hl, hxl⟩ := List.mem_flatMap.1 hmem
  have hfound : Event.stray x ∈ d.events := by
    unfold events
    have hlength := d.length_lexemes
    cases hlex : d.lexemes with
    | nil => simp [hlex] at hlength
    | cons l' ls =>
      rw [hlex] at hl hlength
      rcases List.mem_cons.1 hl with rfl | hl
      · exact List.mem_append_left _ (List.mem_map_of_mem hxl)
      · refine List.mem_append_right _ (Event.stray_mem_follow ?_ hl hxl)
        simp only [List.length_cons, Nat.add_right_cancel_iff] at hlength
        rw [List.tail_cons]
        omega
  simpa [Event.isFault] using h _ hfound

theorem valid_eq (h : ∀ x ∈ d.text.symbols.1, x.type ≠ .invalid) : d.valid = d.text.symbols.1 := by
  unfold valid
  rw [List.filter_eq_self]
  simpa using h

theorem Regular.exists_isSentence (h : d.Regular) : ∃ sts, IsSentence d.text.symbols.1 sts := by
  rw [← valid_eq h.ne_invalid]
  exact Outline.exists_isSentence h.clean

theorem events_eq (h : ∀ x ∈ d.text.symbols.1, x.type ≠ .invalid)
    (hsts : IsSentence d.text.symbols.1 sts) : d.events = sts.map fun st => .note (.complete st) := by
  have hstrays : ∀ l ∈ d.lexemes, l.strays = [] := by
    intro l hl
    rw [List.eq_nil_iff_forall_not_mem]
    intro x hx
    have hmem : x ∈ d.lexemes.flatMap (·.strays) := List.mem_flatMap.2 ⟨l, hl, hx⟩
    rw [flatMap_strays, List.mem_filter] at hmem
    exact h x hmem.1 (by simpa using hmem.2)
  have hlook : Event.look d.lexemes = [] := by
    cases hlex : d.lexemes with
    | nil => rfl
    | cons l ls => simp [Event.look, hstrays l (by simp [hlex])]
  rw [← valid_eq h] at hsts
  rw [events, hlook, Event.follow_eq hstrays, notes, (Outline.reads_outline hsts).statements,
    List.map_map]
  rfl

/-- All symbols of a sentence are looked at, so their texts are known. -/
theorem names_eq (h : ∀ x ∈ d.text.symbols.1, x.type ≠ .invalid)
    (hsts : IsSentence d.text.symbols.1 sts) (names : NameTable) :
    d.names names = names.insertKeywords.insertPins.insertSymbols d.text.symbols.1 := by
  have hvalid := valid_eq h
  rw [← hvalid] at hsts
  have hreach : Outline.reach d.notes = d.valid.length + 1 :=
    congrArg (· + 1) (Outline.reads_outline hsts).passes
  rw [Definition.names, hreach, List.take_of_length_le (Nat.le_succ _), hvalid]

end Definition

end GateSim
