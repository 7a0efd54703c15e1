import Mathlib.Logic.Equiv.Basic
import GateSim.Proofs.Places
import GateSim.Proofs.Rearrange
import GateSim.Proofs.Recovery

/-!
# Layout

Blanks, line breaks, comments and invalid characters do not change what a definition means. All
symbols but the invalid ones stand at different places, so definitions with the same symbols differ
by a renaming of places, under which the same syntax errors are left out because an earlier one was
at the same place (`Definition.build_layout`).
-/

namespace GateSim

/-- What is said, without the place that it is said of. -/
def Diagnostic.placeless (d : Diagnostic) : Diagnostic :=
  { d with file := [], position := .start, sourceLine := [] }

/-- All but the lexical errors. -/
def Diagnostics.nonlexical (ds : Diagnostics) : Diagnostics := ds.filter (·.category != .lexical)

theorem Diagnostics.nonlexical_append (ds ds' : Diagnostics) :
    nonlexical (ds ++ ds') = ds.nonlexical ++ ds'.nonlexical := List.filter_append ..

variable {f : Position → Position}

/-! ### Without invalid symbols -/

def Event.isStray : Event → Bool
  | .stray _ => true
  | .note _ => false

theorem Definition.filter_isStray_events (d : Definition) :
    d.events.filter (!·.isStray) = (d.notes.filter (· != .pass)).map .note := by
  rw [filter_events fun _ => rfl]
  exact congrArg (List.map Event.note) (List.filter_eq_self.2 fun _ _ => rfl)

namespace Draft
variable {d d' : Draft} {text text' : Definition} {names : NameTable}

theorem step_stray (d : Draft) (text : Definition) (names : NameTable) (x : Symbol) :
    ∃ y, d.step text names (.stray x) = .ok (d, some y) ∧ y.category = .lexical := by
  refine ⟨text.stray x, rfl, ?_⟩
  unfold Definition.stray
  split <;> rfl

theorem category_reject (d : Draft) (text : Definition) (symbol : Symbol) (code : Code)
    (message : Text) : ∀ y ∈ (d.reject text symbol code message).2, y.category ≠ .lexical := by
  unfold reject
  split
  · exact fun y hy => nomatch hy
  · rintro y ⟨⟩
    simp [Definition.diagnose]

theorem category_step {n : Note} {x : Option Diagnostic}
    (hs : d.step text names (.note n) = .ok (d', x)) : ∀ y ∈ x, y.category ≠ .lexical := by
  cases n with
  | pass | abandon =>
    cases hs
    exact fun y hy => nomatch hy
  | reject symbol fault =>
    have hr := category_reject d text (symbol.getD text.last) fault.code
      (fault.message (symbol.getD text.last))
    rwa [show d.reject .. = (d', x) from Except.ok.inj hs] at hr
  | endsEarly =>
    rw [step] at hs
    split at hs
    · cases hs
      exact fun y hy => nomatch hy
    · have hr := category_reject { d with ended := true } text text.last .unexpectedEndOfFile
        (.ofString "File ends too early. Check for missing sections or 'END;'")
      rwa [show Draft.reject .. = (d', x) from Except.ok.inj hs] at hr
  | complete st =>
    cases hp : d.perform names st with
    | error f => simp [step, hp, bind, Except.bind] at hs
    | ok p =>
      rw [step_complete hp] at hs
      cases hs
      intro y hy
      obtain ⟨fault, -, rfl⟩ := Option.map_eq_some_iff.1 hy
      simp [Definition.diagnose]

/-- Invalid symbols lead to lexical errors and to nothing else. -/
theorem run_nonlexical (h : d.Sound) {events : List Event} {ds : Diagnostics}
    (hr : d.run text names events = .ok (d', ds)) :
    d.run text names (events.filter (!·.isStray)) = .ok (d', ds.nonlexical) := by
  induction events generalizing d ds with
  | nil =>
    cases hr
    rfl
  | cons e events ih =>
    obtain ⟨d₁, x, ds', hstep, hd₁, hrun, rfl⟩ := run_cons_cases h hr
    have hrest := ih hd₁ hrun
    rw [Diagnostics.nonlexical_append]
    cases e with
    | stray symbol =>
      obtain ⟨y, hstray, hy⟩ := step_stray d text names symbol
      cases hstray.symm.trans hstep
      simpa [Diagnostics.nonlexical, Event.isStray, hy] using hrest
    | note n =>
      have hx : Diagnostics.nonlexical x.toList = x.toList :=
        List.filter_eq_self.2 fun y hy => by simpa using category_step hstep y (by simpa using hy)
      rw [hx, List.filter_cons_of_pos rfl]
      exact run_cons hstep hrest

/-! ### Other places -/

/-- The draft, with the last syntax error at another place. -/
def move (f : Position → Position) (d : Draft) : Draft :=
  { d with lastReject := d.lastReject.map f }

end Draft

def SemanticFault.move (f : Position → Position) : SemanticFault → SemanticFault
  | duplicateDevice name => .duplicateDevice (name.move f)
  | badParameter parameter fault => .badParameter (parameter.move f) fault
  | undefinedDevice device => .undefinedDevice (device.move f)
  | noNamedOutput device pin kind => .noNamedOutput (device.move f) (pin.move f) kind
  | noUnnamedOutput device kind => .noUnnamedOutput (device.move f) kind
  | noInput device pin kind => .noInput (device.move f) (pin.move f) kind
  | inputTaken device pin source => .inputTaken (device.move f) (pin.move f) source
  | monitorPresent symbol label => .monitorPresent (symbol.move f) label

namespace Draft
variable {d d' : Draft} {text text' : Definition} {names : NameTable}

section
variable (d : Draft) (names : NameTable) (x : Symbol)

theorem undefined_move : d.undefined names (x.move f) =
    (d.undefined names x).map (Option.map (SemanticFault.move f)) := by
  have hid : (x.move f).id names = x.id names := rfl
  simp only [undefined, hid]
  repeat' split
  all_goals rfl

theorem noOutput_move (pin : Option Symbol) :
    d.noOutput names (x.move f) (pin.map (Symbol.move f)) =
      (d.noOutput names x pin).map (SemanticFault.move f) := by
  have hid : (x.move f).id names = x.id names := rfl
  have hpin : (pin.map (Symbol.move f)).map (·.id names) = pin.map (·.id names) := by
    rw [Option.map_map]
    rfl
  simp only [noOutput, hid, hpin]
  split
  · rfl
  · rw [Option.map_map]
    congr 1
    cases pin <;> rfl

theorem noInput_move (pin : Symbol) : d.noInput names (x.move f) (pin.move f) =
    (d.noInput names x pin).map (SemanticFault.move f) := by
  have hid : ∀ y : Symbol, (y.move f).id names = y.id names := fun _ => rfl
  simp only [noInput, hid]
  split
  · rfl
  · rw [Option.map_map]
    rfl

theorem id_map_move (pin : Option Symbol) :
    (pin.map (Symbol.move f)).map (·.id names) = pin.map (·.id names) := by
  rw [Option.map_map]
  rfl

theorem device_move (kind : Kind) (parameter : Option Symbol) :
    d.device names kind (x.move f) (parameter.map (Symbol.move f)) =
      (d.device names kind x parameter).map
        fun p => (p.1, p.2.map (SemanticFault.move f)) := by
  have hid : (x.move f).id names = x.id names := rfl
  have htext : (parameter.map (Symbol.move f)).map (·.text) = parameter.map (·.text) := by
    rw [Option.map_map]
    rfl
  simp only [device, hid, htext]
  split
  · rfl
  generalize d.circuit.create kind (x.id names) ((parameter.map (·.text)).getD []) = result
  obtain ⟨(_ | _) | _, circuit⟩ := result
  · rfl
  · cases parameter <;> rfl
  · rfl

theorem connection_move (sourcePin : Option Symbol) (target targetPin : Symbol) :
    d.connection names (x.move f) (sourcePin.map (Symbol.move f)) (target.move f)
        (targetPin.move f) =
      (d.connection names x sourcePin target targetPin).map
        fun p => (p.1, p.2.map (SemanticFault.move f)) := by
  have hid : ∀ y : Symbol, (y.move f).id names = y.id names := fun _ => rfl
  simp only [connection, undefined_move, noOutput_move, noInput_move, hid, id_map_move]
  cases d.undefined names x with
  | some fault => rfl
  | none =>
    cases d.undefined names target with
    | some fault => rfl
    | none =>
      cases d.noOutput names x sourcePin with
      | some fault => rfl
      | none =>
        cases d.noInput names target targetPin with
        | some fault => rfl
        | none =>
          simp only [Option.map_none, Option.or_none]
          generalize d.circuit.connect (x.id names) (sourcePin.map (·.id names))
            (target.id names) (targetPin.id names) = result
          obtain ⟨status, circuit⟩ := result
          cases status <;> rfl

theorem monitor_move (pin : Option Symbol) :
    d.monitor names (x.move f) (pin.map (Symbol.move f)) =
      (d.monitor names x pin).map fun p => (p.1, p.2.map (SemanticFault.move f)) := by
  have hid : (x.move f).id names = x.id names := rfl
  simp only [monitor, undefined_move, noOutput_move, hid, id_map_move]
  cases d.undefined names x with
  | some fault => rfl
  | none =>
    cases d.noOutput names x pin with
    | some fault => rfl
    | none =>
      generalize d.circuit.monitor (x.id names) (pin.map (·.id names)) = result
      obtain ⟨status, circuit⟩ := result
      cases status with
      | present => cases pin <;> rfl
      | _ => rfl

/-- What a statement does has nothing to do with its place, but faults are found at it. -/
theorem perform_move (st : Statement) : d.perform names (st.move f) =
    (d.perform names st).map fun p => (p.1, p.2.map (SemanticFault.move f)) := by
  cases st with
  | device kind name parameter => exact device_move d names name kind parameter
  | connection source sourcePin target targetPin =>
    exact connection_move d names source sourcePin target targetPin
  | monitor name pin => exact monitor_move d names name pin

end

/-- A syntax error is left out elsewhere if and only if it is left out here. -/
theorem reject_move (hf : Function.Injective f) (text text' : Definition) (d : Draft)
    (symbol : Symbol) (code : Code) (message : Text) :
    ∃ x', (d.move f).reject text' (symbol.move f) code message =
        ((d.reject text symbol code message).1.move f, x') ∧
      x'.map Diagnostic.placeless =
        (d.reject text symbol code message).2.map Diagnostic.placeless := by
  have hsame : (d.move f).lastReject = some (symbol.move f).position ↔
      d.lastReject = some symbol.position := by
    show d.lastReject.map f = (some symbol.position).map f ↔ _
    exact (Option.map_injective hf).eq_iff
  simp only [reject, hsame]
  split <;> exact ⟨_, rfl, rfl⟩

/-- The draft after a note, and the diagnostic, with everything at other places. -/
theorem step_move (hf : Function.Injective f) (hlast : text'.last = text.last.move f)
    (h : d.Sound) {n : Note} {x : Option Diagnostic}
    (hs : d.step text names (.note n) = .ok (d', x)) :
    ∃ x', (d.move f).step text' names (.note (n.move f)) = .ok (d'.move f, x') ∧
      x'.map Diagnostic.placeless = x.map Diagnostic.placeless := by
  cases n with
  | pass | abandon =>
    cases hs
    exact ⟨none, rfl, rfl⟩
  | reject symbol fault =>
    have hsymbol :
        (symbol.map (Symbol.move f)).getD text'.last = (symbol.getD text.last).move f := by
      rw [hlast]
      cases symbol <;> rfl
    have hmessage : fault.message ((symbol.getD text.last).move f) =
        fault.message (symbol.getD text.last) := by
      cases fault <;> rfl
    obtain ⟨x', hr, hx⟩ := reject_move hf text text' d (symbol.getD text.last) fault.code
      (fault.message (symbol.getD text.last))
    rw [show d.reject .. = (d', x) from Except.ok.inj hs] at hr hx
    refine ⟨x', ?_, hx⟩
    simp only [Note.move, step, hsymbol, hmessage, hr]
  | endsEarly =>
    simp only [step, Note.move] at hs ⊢
    have hended : (d.move f).ended = d.ended := rfl
    rw [hended]
    split at hs
    · next hend =>
      cases hs
      rw [if_pos hend]
      exact ⟨none, rfl, rfl⟩
    · next hend =>
      rw [if_neg hend]
      obtain ⟨x', hr, hx⟩ := reject_move hf text text' { d with ended := true } text.last
        .unexpectedEndOfFile
        (.ofString "File ends too early. Check for missing sections or 'END;'")
      rw [show Draft.reject .. = (d', x) from Except.ok.inj hs] at hr hx
      exact ⟨x', hlast ▸ congrArg Except.ok hr, hx⟩
  | complete st =>
    obtain ⟨d₁, fault, hp, hperformed⟩ := perform_ok names h st
    rw [step_complete hp] at hs
    cases hs
    have hp' : (d.move f).perform names (st.move f) =
        .ok (d'.move f, fault.map (SemanticFault.move f)) := by
      have hafter := perform_after d names (st.move f) (d.lastReject.map f) d.ended
      rw [perform_move d, hp] at hafter
      rw [move, ← hperformed.lastReject, ← hperformed.ended] at *
      exact hafter
    refine ⟨_, step_complete hp', ?_⟩
    cases fault with
    | none => rfl
    | some fault => cases fault <;> rfl

theorem run_move (hf : Function.Injective f) (hlast : text'.last = text.last.move f)
    (h : d.Sound) {notes : List Note} {ds : Diagnostics}
    (hr : d.run text names (notes.map .note) = .ok (d', ds)) :
    ∃ ds', (d.move f).run text' names ((notes.map (Note.move f)).map .note) = .ok (d'.move f, ds') ∧
      ds'.map Diagnostic.placeless = ds.map Diagnostic.placeless := by
  induction notes generalizing d ds with
  | nil =>
    cases hr
    exact ⟨[], rfl, rfl⟩
  | cons n notes ih =>
    obtain ⟨d₁, x, ds₂, hstep, hd₁, hrun, rfl⟩ := run_cons_cases h hr
    obtain ⟨x', hstep', hx⟩ := step_move hf hlast h hstep
    obtain ⟨ds', hrun', hds⟩ := ih hd₁ hrun
    refine ⟨_, run_cons hstep' hrun', ?_⟩
    rw [List.map_append, List.map_append, hds, ← Option.toList_map, ← Option.toList_map, hx]

end Draft

/-! ### Definitions -/

/-- Lists of as many different things are taken to each other by a renaming. -/
theorem exists_injective_map {α : Type} [DecidableEq α] {as bs : List α}
    (hlength : as.length = bs.length) (ha : as.Nodup) (hb : bs.Nodup) :
    ∃ g : α → α, Function.Injective g ∧ as.map g = bs := by
  induction as generalizing bs with
  | nil =>
    cases bs with
    | nil => exact ⟨id, Function.injective_id, rfl⟩
    | cons b bs => cases hlength
  | cons a as ih =>
    cases bs with
    | nil => cases hlength
    | cons b bs =>
      obtain ⟨ha, has⟩ := List.nodup_cons.1 ha
      obtain ⟨hb, hbs⟩ := List.nodup_cons.1 hb
      obtain ⟨g, hg, hmap⟩ := ih (Nat.succ.inj hlength) has hbs
      -- the first things change places with what they are taken to and come from
      refine ⟨Equiv.swap (g a) b ∘ g, (Equiv.injective _).comp hg, ?_⟩
      have hrest : ∀ c ∈ as, (Equiv.swap (g a) b ∘ g) c = g c := by
        intro c hc
        refine Equiv.swap_apply_of_ne_of_ne (fun heq => ha (hg heq ▸ hc)) fun heq => hb ?_
        rw [← heq, ← hmap]
        exact List.mem_map_of_mem hc
      rw [List.map_cons, List.map_congr_left hrest, hmap, Function.comp_apply,
        Equiv.swap_apply_left]

theorem Symbol.eq_map_move {xs ys : List Symbol}
    (h : ys.map placeless = xs.map placeless)
    (hf : ys.map (·.position) = (xs.map (·.position)).map f) : ys = xs.map (move f) := by
  induction xs generalizing ys with
  | nil => simpa using h
  | cons x xs ih =>
    cases ys with
    | nil => cases h
    | cons y ys =>
      simp only [List.map_cons, List.cons.injEq] at h hf ⊢
      refine ⟨?_, ih h.2 hf.2⟩
      obtain ⟨htype, htext, -⟩ := Symbol.mk.injEq .. |>.mp h.1
      exact Symbol.mk.injEq .. |>.mpr ⟨htype, htext, hf.1⟩

namespace Scanner

theorem text_last (s : Scanner) : (symbols s).2.text = [] := by
  fun_induction symbols s with
  | case1 s symbol s' hs h =>
    have hnext := text_next_of_endOfFile (s := s)
    rw [hs] at hnext
    exact hnext h
  | case2 s symbol s' hs h rest last hrest ih => rwa [hrest] at ih

end Scanner

namespace Definition
variable {d d' : Definition}

/-- Definitions with the same symbols differ by a renaming of places. -/
theorem exists_move (h : d'.valid.map Symbol.placeless = d.valid.map Symbol.placeless) :
    ∃ f, Function.Injective f ∧ d'.valid = d.valid.map (Symbol.move f) ∧
      d'.last = d.last.move f := by
  have hplaces : ∀ d : Definition, ((d.valid ++ [d.last]).map (·.position)).Nodup := fun d =>
    List.pairwise_map.2 (d.pairwise_position.imp Position.Before.ne)
  have hlast : d'.last.placeless = d.last.placeless := by
    rw [Symbol.placeless, Symbol.placeless, d.type_last, d'.type_last]
    exact congrArg (Symbol.mk _ · _) ((Scanner.text_last _).trans (Scanner.text_last _).symm)
  have hsymbols : (d'.valid ++ [d'.last]).map Symbol.placeless =
      (d.valid ++ [d.last]).map Symbol.placeless := by
    rw [List.map_append, List.map_append, h, List.map_singleton, List.map_singleton, hlast]
  have hlength := congrArg List.length hsymbols
  obtain ⟨f, hf, hmap⟩ :=
    exists_injective_map (by simpa using hlength.symm) (hplaces d) (hplaces d')
  have hmoved := Symbol.eq_map_move hsymbols hmap.symm
  rw [List.map_append] at hmoved
  obtain ⟨hvalid, hend⟩ := List.append_inj' hmoved rfl
  exact ⟨f, hf, hvalid, (List.cons.inj hend).1⟩

theorem notes_move (hvalid : d'.valid = d.valid.map (Symbol.move f)) :
    d'.notes = d.notes.map (Note.move f) := by
  rw [notes, hvalid, outline_move, notes]

theorem names_move (hvalid : d'.valid = d.valid.map (Symbol.move f)) (names : NameTable) :
    d'.names names = d.names names := by
  have hreach : Outline.reach d'.notes = Outline.reach d.notes := by
    rw [Outline.reach, notes_move hvalid, List.countP_map, Outline.reach]
    congr 2
    funext n
    cases n <;> rfl
  have hseen : (d'.valid.take (Outline.reach d'.notes)).map Symbol.placeless =
      (d.valid.take (Outline.reach d.notes)).map Symbol.placeless := by
    rw [hreach, hvalid, ← List.map_take, List.map_map]
    rfl
  rw [Definition.names, Definition.names, ← NameTable.insertSymbols_placeless, hseen,
    NameTable.insertSymbols_placeless]

/-- Definitions that differ in layout and in invalid symbols only, whatever files they stand in, are
built into the same circuit, over the same names. They have the same diagnostics, lexical errors
apart, at different places. -/
theorem build_layout (h : d'.valid.map Symbol.placeless = d.valid.map Symbol.placeless)
    (names : NameTable) : ∃ names' circuit ds ds',
      d.build names = .ok ⟨names', circuit, ds⟩ ∧ d'.build names = .ok ⟨names', circuit, ds'⟩ ∧
      ds'.nonlexical.map Diagnostic.placeless = ds.nonlexical.map Diagnostic.placeless := by
  obtain ⟨f, hf, hvalid, hlast⟩ := exists_move h
  obtain ⟨draft, ds, hrun, hbuild⟩ := d.build_eq names
  obtain ⟨draft', ds', hrun', hbuild'⟩ := d'.build_eq names
  have hempty := Draft.sound_empty (d.knowsPins_names names)
  rw [names_move hvalid] at hrun' hbuild'
  have hnotes := Draft.run_nonlexical hempty hrun
  have hnotes' := Draft.run_nonlexical hempty hrun'
  rw [filter_isStray_events] at hnotes hnotes'
  obtain ⟨ds₁, hmoved, hds⟩ := Draft.run_move hf hlast hempty hnotes
  -- passes stay passes, so the same notes are left
  have hrest : d'.notes.filter (· != .pass) = (d.notes.filter (· != .pass)).map (Note.move f) := by
    rw [notes_move hvalid, List.filter_map]
    congr 2
    funext n
    cases n <;> rfl
  rw [hrest] at hnotes'
  have hsame := hnotes'.symm.trans hmoved
  obtain ⟨hdraft, hdiagnostics⟩ := Prod.mk.inj (Except.ok.inj hsame)
  refine ⟨_, draft.circuit, ds, ds', hbuild, ?_, hdiagnostics ▸ hds⟩
  rw [hbuild', hdraft]
  rfl

/-- Some symbols have two faults, of which only the first is reported. The other definition has
comments in it, and bytes that take no column. -/
theorem build_layout_strays :
    let d : Definition := { text := .ofString "DEVICES S 1, XOR S, AND S 2; END;" }
    let d' : Definition :=
      { text := Text.ofString "!one! DEVICES # two\n@" ++ [0x80] ++ Text.ofString "S 1\n," ++
          [0xA0, 0x80] ++ Text.ofString "XOR S,AND\tS 2; END ; !"
        file := .ofString "other" }
    d'.valid.map Symbol.placeless = d.valid.map Symbol.placeless ∧
      ∃ names circuit ds ds', d.build {} = .ok ⟨names, circuit, ds⟩ ∧
        d'.build {} = .ok ⟨names, circuit, ds'⟩ ∧
        ds'.nonlexical.map Diagnostic.placeless = ds.nonlexical.map Diagnostic.placeless := by
  intro d d'
  have h : d'.valid.map Symbol.placeless = d.valid.map Symbol.placeless := by decide +kernel
  exact ⟨h, build_layout h {}⟩

end Definition

end GateSim
