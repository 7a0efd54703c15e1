import GateSim.Proofs.Demand

/-!
# Where diagnostics stand

Every diagnostic stands at a symbol that has been asked for (`Definition.exists_mem_reads`). Each
invalid one has its own. Faults are noted in the order of their symbols, so to leave out a fault at
the place of the last one is enough for no symbol to be blamed twice, and the early end of the file
is reported once (`Definition.build_on_demand`).
-/

namespace GateSim

open Grammar Diagnostics Position

/-! ### Lexical errors -/

namespace Diagnostics

def lexical (ds : Diagnostics) : Diagnostics := ds.filter (·.category == .lexical)

theorem lexical_append (ds ds' : Diagnostics) : lexical (ds ++ ds') = ds.lexical ++ ds'.lexical :=
  List.filter_append ..

end Diagnostics

namespace Draft
variable {d d' : Draft} {text : Definition} {names : NameTable}

/-- The lexical errors of a run are those of its invalid symbols. -/
theorem lexical_of_run (h : d.Sound) {events : List Event} {ds : Diagnostics}
    (hr : d.run text names events = .ok (d', ds)) :
    ds.lexical = (events.filterMap Event.stray?).map text.stray := by
  induction events generalizing d ds with
  | nil =>
    cases hr
    rfl
  | cons e events ih =>
    obtain ⟨d₁, x, ds', hstep, hd₁, hrun, rfl⟩ := run_cons_cases h hr
    rw [lexical_append, ih hd₁ hrun]
    cases e with
    | stray symbol =>
      obtain ⟨y, hstray, hy⟩ := step_stray d text names symbol
      cases hstray.symm.trans hstep
      cases hstray
      simp [Diagnostics.lexical, Event.stray?, hy]
    | note n =>
      have hx : Diagnostics.lexical x.toList = [] :=
        List.filter_eq_nil_iff.2 fun y hy => by simpa using category_step hstep y (by simpa using hy)
      rw [hx, List.filterMap_cons_none rfl, List.nil_append]

end Draft

/-! ### The order of syntax errors -/

namespace Position
variable {p q : Position} {places : List Position}

theorem Before.atMost (h : p.Before q) : p.AtMost q := by
  simp only [Before, AtMost] at *
  omega

theorem AtMost.before_of_ne (h : p.AtMost q) (hne : p ≠ q) : p.Before q := by
  cases p
  cases q
  simp only [AtMost, Before, ne_eq, Position.mk.injEq] at *
  omega

/-- To leave out a place that was reported last is enough, if places never go back. -/
theorem pairwise_reported {last : Option Position} (h : places.Pairwise AtMost)
    (hlast : ∀ p ∈ last, ∀ q ∈ places, p.AtMost q) :
    (reported last places).Pairwise Before ∧
      ∀ p ∈ last, ∀ q ∈ reported last places, p.Before q := by
  induction places generalizing last with
  | nil => exact ⟨.nil, fun _ _ _ hq => absurd hq List.not_mem_nil⟩
  | cons q places ih =>
    obtain ⟨hq, hplaces⟩ := List.pairwise_cons.1 h
    have hlater : ∀ p ∈ some q, ∀ r ∈ places, p.AtMost r := by
      rintro p ⟨⟩
      exact hq
    obtain ⟨hpairwise, hbefore⟩ := ih hplaces hlater
    rw [reported]
    split
    · next heq =>
      rw [heq]
      exact ⟨hpairwise, hbefore⟩
    · next hne =>
      have hrest := hbefore q rfl
      refine ⟨List.pairwise_cons.2 ⟨hrest, hpairwise⟩, fun p hp => ?_⟩
      have hpq : p.Before q :=
        (hlast p hp q (List.mem_cons_self ..)).before_of_ne fun heq => hne (heq ▸ hp)
      exact List.forall_mem_cons.2 ⟨hpq, fun r hr => hpq.trans_atMost (hrest r hr).atMost⟩

end Position

namespace Walks
variable {last : Position} {passed ahead left : List Symbol} {notes : List Note}

/-- Faults are noted in the order of their places, from the first symbol ahead on. -/
theorem atMost_places (h : Walks passed ahead notes left)
    (hahead : (ahead.map (·.position) ++ [last]).Pairwise Before) :
    (∀ p ∈ notes.filterMap (·.place? last),
        ((ahead.head?.map (·.position)).getD last).AtMost p) ∧
      (notes.filterMap (·.place? last)).Pairwise AtMost := by
  induction h with
  | nil => exact ⟨fun p hp => absurd hp List.not_mem_nil, .nil⟩
  | @pass passed ahead left x notes _ ih =>
    rw [List.map_cons, List.cons_append] at hahead
    obtain ⟨hx, hahead⟩ := List.pairwise_cons.1 hahead
    obtain ⟨hall, hpairwise⟩ := ih hahead
    have hnext : x.position.Before ((ahead.head?.map (·.position)).getD last) := by
      refine hx _ ?_
      cases ahead <;> simp
    exact ⟨fun p hp => hnext.atMost.trans (hall p hp), hpairwise⟩
  | reject _ ih | endsEarly _ ih =>
    obtain ⟨hall, hpairwise⟩ := ih hahead
    exact ⟨List.forall_mem_cons.2 ⟨.refl _, hall⟩, List.pairwise_cons.2 ⟨hall, hpairwise⟩⟩
  | abandon _ _ _ ih | complete _ _ _ ih => exact ih hahead

end Walks

namespace Draft
variable {d d' : Draft} {text : Definition} {names : NameTable}

theorem code_reject (d : Draft) (text : Definition) (symbol : Symbol) (code : Code)
    (message : Text) : ∀ y ∈ (d.reject text symbol code message).2, y.code = code := by
  unfold reject
  split
  · exact fun y hy => absurd hy (Option.not_mem_none y)
  · rintro y ⟨⟩
    rfl

/-- So many early ends of the file can still be reported. -/
def endsLeft (d : Draft) : Nat := if d.ended then 0 else 1

theorem step_count_unexpectedEndOfFile (h : d.Sound) {e : Event} {x : Option Diagnostic}
    (hs : d.step text names e = .ok (d', x)) :
    Diagnostics.count x.toList .unexpectedEndOfFile + d'.endsLeft ≤ d.endsLeft := by
  have hzero : (∀ y ∈ x, y.code ≠ .unexpectedEndOfFile) → d'.ended = d.ended →
      Diagnostics.count x.toList .unexpectedEndOfFile + d'.endsLeft ≤ d.endsLeft := by
    intro hx hended
    have hcount : Diagnostics.count x.toList .unexpectedEndOfFile = 0 :=
      List.countP_eq_zero.2 fun y hy => by simpa using hx y (by simpa using hy)
    rw [hcount, endsLeft, endsLeft, hended, Nat.zero_add]
  cases e with
  | stray symbol =>
    cases hs
    refine hzero ?_ rfl
    rintro y ⟨⟩
    unfold Definition.stray
    split <;> simp [Definition.diagnose]
  | note n =>
  cases n with
  | pass | abandon =>
    cases hs
    exact hzero (fun y hy => absurd hy (Option.not_mem_none y)) rfl
  | reject symbol fault =>
    have hcode := code_reject d text (symbol.getD text.last) fault.code
      (fault.message (symbol.getD text.last))
    have hended := ended_reject d text (symbol.getD text.last) fault.code
      (fault.message (symbol.getD text.last))
    rw [show d.reject .. = (d', x) from Except.ok.inj hs] at hcode hended
    refine hzero (fun y hy => ?_) hended
    rw [hcode y hy]
    cases fault <;> simp [SyntaxFault.code]
  | endsEarly =>
    rw [step] at hs
    split at hs
    · cases hs
      exact hzero (fun y hy => absurd hy (Option.not_mem_none y)) rfl
    · next hopen =>
      have hreject := ended_reject { d with ended := true } text text.last .unexpectedEndOfFile
        (.ofString "File ends too early. Check for missing sections or 'END;'")
      rw [show Draft.reject .. = (d', x) from Except.ok.inj hs] at hreject
      have hended : d'.ended = true := hreject
      have hle : Diagnostics.count x.toList .unexpectedEndOfFile ≤ 1 :=
        List.countP_le_length.trans (by cases x <;> simp)
      simpa [endsLeft, hended, hopen] using hle
  | complete st =>
    obtain ⟨d₁, f, hp, hd₁⟩ := perform_ok names h st
    rw [step_complete hp] at hs
    cases hs
    refine hzero (fun y hy => ?_) hd₁.ended
    obtain ⟨fault, -, rfl⟩ := Option.map_eq_some_iff.1 hy
    cases fault <;> simp [Definition.diagnose, SemanticFault.code]

theorem count_unexpectedEndOfFile_le (h : d.Sound) {events : List Event} {ds : Diagnostics}
    (hr : d.run text names events = .ok (d', ds)) :
    ds.count .unexpectedEndOfFile + d'.endsLeft ≤ d.endsLeft := by
  induction events generalizing d ds with
  | nil =>
    cases hr
    exact (Nat.zero_add _).le
  | cons e events ih =>
    obtain ⟨d₁, x, ds', hstep, hd₁, hrun, rfl⟩ := run_cons_cases h hr
    have hfirst := step_count_unexpectedEndOfFile h hstep
    have hrest := ih hd₁ hrun
    rw [Diagnostics.count, List.countP_append]
    simp only [Diagnostics.count] at hfirst hrest
    omega

end Draft

/-! ### Symbols that are blamed -/

/-- The diagnostic stands at the symbol and shows its line. -/
def Diagnostic.IsAbout (g : Diagnostic) (text : Definition) (x : Symbol) : Prop :=
  g.position = x.position ∧ g.sourceLine = text.text.line x.position.line

/-- The category of all diagnostics with the code. -/
def Code.category : Code → Category
  | .invalidCharacter | .unterminatedComment => .lexical
  | .unexpectedSymbol | .unexpectedEndOfFile | .invalidDeviceName | .invalidPinName
  | .missingDevices => .syntactic
  | .duplicateDevice | .undefinedDevice | .invalidPin | .inputAlreadyConnected | .invalidArgument
  | .duplicateMonitor => .semantic

theorem SyntaxFault.category_code (f : SyntaxFault) : f.code.category = .syntactic := by
  cases f <;> rfl

theorem SemanticFault.category_code (f : SemanticFault) : f.code.category = .semantic := by
  cases f <;> rfl

namespace Draft
variable {d d' : Draft} {text : Definition} {names : NameTable}

theorem symbol_mem_of_noOutput {device : Symbol} {pin : Option Symbol} {f : SemanticFault}
    (h : d.noOutput names device pin = some f) : f.symbol ∈ device :: pin.toList := by
  simp only [noOutput] at h
  split at h
  · cases h
  · obtain ⟨dev, -, rfl⟩ := Option.map_eq_some_iff.1 h
    cases pin <;> simp [SemanticFault.symbol]

theorem symbol_of_noInput {device pin : Symbol} {f : SemanticFault}
    (h : d.noInput names device pin = some f) : f.symbol = pin := by
  simp only [noInput] at h
  split at h
  · cases h
  · obtain ⟨dev, -, rfl⟩ := Option.map_eq_some_iff.1 h
    rfl

theorem symbol_of_undefined {device : Symbol} {f : SemanticFault}
    (h : d.undefined names device = some (some f)) : f.symbol = device := by
  simp only [undefined] at h
  repeat' split at h
  all_goals cases h
  rfl

/-- A statement is reported at one of its symbols. -/
theorem symbol_mem_of_perform {st : Statement} {f : SemanticFault}
    (h : d.perform names st = .ok (d', some f)) : f.symbol ∈ st.symbols := by
  cases st with
  | device kind name parameter =>
    simp only [perform, device] at h
    repeat' split at h
    all_goals cases h
    · exact List.mem_cons_self ..
    · cases parameter <;> simp [SemanticFault.symbol, Statement.symbols]
  | connection source sourcePin target targetPin =>
    simp only [perform, connection] at h
    split at h
    · next fault hu =>
      cases h
      rcases Option.or_eq_some_iff.1 hu with hu | ⟨-, hu⟩ <;>
        simp [symbol_of_undefined hu, Statement.symbols]
    split at h
    · next fault hp =>
      cases h
      rcases Option.or_eq_some_iff.1 hp with hp | ⟨-, hp⟩
      · have hmem := symbol_mem_of_noOutput hp
        simp only [Statement.symbols, List.mem_cons] at hmem ⊢
        exact hmem.imp_right fun hmem => .inr (.inr hmem)
      · simp [symbol_of_noInput hp, Statement.symbols]
    split at h <;> cases h
    simp [SemanticFault.symbol, Statement.symbols]
  | monitor device pin =>
    simp only [perform, monitor] at h
    split at h
    · next fault hu =>
      cases h
      simp [symbol_of_undefined hu, Statement.symbols]
    split at h
    · next fault hp =>
      cases h
      exact symbol_mem_of_noOutput hp
    split at h <;> cases h
    cases pin <;> simp [SemanticFault.symbol, Statement.symbols]

theorem exists_of_step {e : Event} {g : Diagnostic} (hs : d.step text names e = .ok (d', some g)) :
    ∃ x ∈ e.blamed text.last, g.IsAbout text x ∧ g.category = g.code.category := by
  have hreject : ∀ (d : Draft) symbol (code : Code) message, code.category = .syntactic →
      ∀ y ∈ (d.reject text symbol code message).2,
        y.IsAbout text symbol ∧ y.category = y.code.category := by
    intro d symbol code message hcode
    unfold reject
    split
    · exact fun y hy => absurd hy (Option.not_mem_none y)
    · rintro y ⟨⟩
      exact ⟨⟨rfl, rfl⟩, hcode.symm⟩
  cases e with
  | stray symbol =>
    cases hs
    refine ⟨symbol, List.mem_singleton.2 rfl, ?_⟩
    unfold Definition.stray
    split <;> exact ⟨⟨rfl, rfl⟩, rfl⟩
  | note n =>
  cases n with
  | pass | abandon => cases hs
  | reject symbol fault =>
    refine ⟨symbol.getD text.last, List.mem_singleton.2 rfl, hreject d _ fault.code
      (fault.message (symbol.getD text.last)) fault.category_code g ?_⟩
    rw [show d.reject .. = (d', some g) from Except.ok.inj hs]
    rfl
  | endsEarly =>
    rw [step] at hs
    split at hs
    · cases hs
    · refine ⟨text.last, List.mem_singleton.2 rfl, hreject { d with ended := true } _
        .unexpectedEndOfFile
        (.ofString "File ends too early. Check for missing sections or 'END;'") rfl g ?_⟩
      rw [show Draft.reject .. = (d', some g) from Except.ok.inj hs]
      rfl
  | complete st =>
    cases hp : d.perform names st with
    | error f => simp [step, hp, bind, Except.bind] at hs
    | ok p =>
      obtain ⟨d₁, f⟩ := p
      rw [step_complete hp] at hs
      cases f with
      | none => cases hs
      | some f =>
        cases hs
        exact ⟨f.symbol, symbol_mem_of_perform hp, ⟨rfl, rfl⟩, f.category_code.symm⟩

theorem exists_of_run (h : d.Sound) {events : List Event} {ds : Diagnostics}
    (hr : d.run text names events = .ok (d', ds)) :
    ∀ g ∈ ds, ∃ e ∈ events, ∃ x ∈ e.blamed text.last,
      g.IsAbout text x ∧ g.category = g.code.category := by
  induction events generalizing d ds with
  | nil =>
    cases hr
    exact fun g hg => absurd hg List.not_mem_nil
  | cons e events ih =>
    obtain ⟨d₁, x, ds', hstep, hd₁, hrun, rfl⟩ := run_cons_cases h hr
    intro g hg
    rcases List.mem_append.1 hg with hg | hg
    · obtain rfl := Option.mem_toList.1 hg
      exact ⟨e, List.mem_cons_self .., exists_of_step hstep⟩
    · obtain ⟨e', he', hx⟩ := ih hd₁ hrun g hg
      exact ⟨e', List.mem_cons_of_mem _ he', hx⟩

end Draft

namespace Definition
variable (d : Definition) (names : NameTable)

theorem exists_mem_reads : ∃ built, d.build names = .ok built ∧
    ∀ g ∈ built.diagnostics, ∃ x ∈ d.reads, g.IsAbout d x := by
  obtain ⟨draft, ds, hrun, hbuild⟩ := d.build_eq names
  refine ⟨_, hbuild, fun g hg => ?_⟩
  obtain ⟨e, he, x, hx, hg, -⟩ :=
    Draft.exists_of_run (Draft.sound_empty (d.knowsPins_names names)) hrun g hg
  exact ⟨x, d.blamed_subset_reads e he hx, hg⟩

theorem category_of_mem {built : Built} (h : d.build names = .ok built) :
    ∀ g ∈ built.diagnostics, g.category = g.code.category := by
  obtain ⟨draft, ds, hrun, hbuild⟩ := d.build_eq names
  cases hbuild.symm.trans h
  intro g hg
  obtain ⟨e, -, x, -, -, hcategory⟩ :=
    Draft.exists_of_run (Draft.sound_empty (d.knowsPins_names names)) hrun g hg
  exact hcategory

/-- A definition is built by at most one call more than it has bytes, none of them after the first
end of file, and depends on nothing but what they give. The syntax errors stand one behind the
other, the file ends early at most once, and each invalid symbol that is asked for has its own
lexical error. -/
theorem build_on_demand : ∃ built, d.build names = .ok built ∧
    (built.diagnostics.syntaxErrors.map (·.position)).Pairwise Before ∧
    built.diagnostics.count .unexpectedEndOfFile ≤ 1 ∧
    built.diagnostics.lexical = (d.reads.filter (·.type == .invalid)).map d.stray ∧
    d.reads = ((List.range d.reads.length).map fun i => (Scanner.call ⟨.start, d.text⟩ i).1) ∧
    d.reads.length ≤ d.text.length + 1 ∧
    (∀ x ∈ d.reads.dropLast, x.type ≠ .endOfFile) ∧
    built.names = names.insertKeywords.insertPins.insertSymbols d.reads ∧
    ∀ d' : Definition, d.reads <+: Scanner.given ⟨.start, d'.text⟩ → d'.notes = d.notes := by
  obtain ⟨draft, ds, hrun, hbuild⟩ := d.build_eq names
  obtain ⟨built, hbuild', -, hpositions⟩ := d.exists_build_positions names
  cases hbuild'.symm.trans hbuild
  have hs := Draft.sound_empty (d.knowsPins_names names)
  refine ⟨_, hbuild, ?_, ?_, ?_, Scanner.eq_map_call d.reads_prefix, ?_,
    Scanner.ne_endOfFile_of_mem_dropLast d.reads_prefix, d.names_eq_reads names,
    fun d' => notes_eq_of_reads_prefix⟩
  · obtain ⟨left, hwalk⟩ := Outline.walks_outline d.valid
    have hbefore : (d.valid.map (·.position) ++ [d.last.position]).Pairwise Before := by
      have hmap := List.pairwise_map.2 d.pairwise_position
      rwa [List.map_append, List.map_singleton] at hmap
    rw [hpositions]
    exact (pairwise_reported (hwalk.atMost_places hbefore).2 fun _ h => by cases h).1
  · have hcount := Draft.count_unexpectedEndOfFile_le hs hrun
    exact (Nat.le_add_right ..).trans hcount
  · rw [Draft.lexical_of_run hs hrun, filterMap_stray?_events]
  · exact d.reads_prefix.length_le.trans (Scanner.length_given_le _)

end Definition

end GateSim
