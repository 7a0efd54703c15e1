import GateSim.Proofs.Declarations

/-!
# Effects of statements

The clauses of a definition follow each other as their symbols do (`Definition.sublist_clauses`), and
each statement among them leads to at most one semantic diagnostic: either it is refused for the
first thing that stands against it and changes nothing, or it adds its one device, connection or
monitor (`Definition.build_statements`).
-/

namespace GateSim

open Position

namespace Outline

theorem sublist_itemsIn (s : Section) (symbols : List Symbol) :
    ((itemsIn symbols).flatten ++ (items s symbols).2).Sublist symbols := by
  fun_induction itemsIn symbols with
  | case1 symbols item hdrop =>
    have hleft : (items s symbols).2 = [] := by
      rw [items]
      split
      · rfl
      · next h => exact absurd (hdrop.symm.trans h) (by simp)
    rw [hleft, List.append_nil, List.flatten_singleton]
    exact List.takeWhile_sublist _
  | case2 symbols item x rest hdrop hx ih =>
    obtain ⟨hsymbols, hsep⟩ := cut hdrop
    have hleft : (items s symbols).2 = (items s rest).2 := by
      rw [hsymbols, items_append (fun y hy => isSeparator_of_mem_takeWhile hy) hsep, if_pos hx]
    rw [hleft, List.flatten_cons, List.append_assoc]
    have hsub := (ih.cons x).append_left item
    rwa [← hsymbols] at hsub
  | case3 symbols item x rest hdrop hx =>
    obtain ⟨hsymbols, hsep⟩ := cut hdrop
    have hleft : List.Sublist (items s symbols).2 (x :: rest) := by
      rw [hsymbols, items_append (fun y hy => isSeparator_of_mem_takeWhile hy) hsep, if_neg hx]
      split
      · exact List.sublist_cons_self x rest
      · exact List.Sublist.refl _
    have hsub := hleft.append_left item
    rw [List.flatten_singleton]
    rwa [← hsymbols] at hsub

theorem sublist_itemsAfterWord (s : Section) (symbols : List Symbol) :
    ((itemsAfterWord symbols).flatten ++ (afterWord s symbols).2).Sublist symbols := by
  have hcontent : ∀ symbols, (((if symbols.head?.any (·.type == .semicolon) then []
      else itemsIn symbols).flatten ++ (content s symbols).2).Sublist symbols) := by
    intro symbols
    cases symbols with
    | nil => exact sublist_itemsIn s []
    | cons x rest =>
      by_cases hx : x.type = .semicolon
      · simp [content, hx]
      · simpa [content, hx] using sublist_itemsIn s (x :: rest)
  have hrest : List.Sublist (colon s symbols).2 symbols := by
    rw [colon_snd]
    split
    · exact List.tail_sublist symbols
    · exact List.Sublist.refl _
  have hitems : itemsAfterWord symbols = if (colon s symbols).2.head?.any (·.type == .semicolon)
      then [] else itemsIn (colon s symbols).2 := by
    rw [colon_snd]
    rfl
  rw [hitems]
  exact (hcontent (colon s symbols).2).trans hrest

theorem sublist_itemsOf (s : Section) (symbols : List Symbol) :
    ((itemsOf s symbols).flatten ++ (part s symbols).2).Sublist symbols := by
  have hdropped := List.dropWhile_sublist
    (fun y : Symbol => !s.onward.any fun t => y.section? == some t) (l := symbols)
  rw [itemsOf]
  cases hdrop : symbols.dropWhile (fun y => !s.onward.any fun t => y.section? == some t) with
  | nil => simp [part, hdrop]
  | cons x rest =>
    rw [hdrop] at hdropped
    by_cases hword : x.section? = some s
    · have hrest := (sublist_itemsAfterWord s rest).trans
        ((List.sublist_cons_self x rest).trans hdropped)
      simpa [part, hdrop, hword] using hrest
    · simpa [part, hdrop, hword] using hdropped

end Outline

namespace Definition
variable (d : Definition) (names : NameTable)

theorem flatMap_clausesOf (s : Section) (symbols : List Symbol) :
    (Outline.clausesOf s symbols).flatMap (·.symbols) = (Outline.itemsOf s symbols).flatten := by
  rw [Outline.clausesOf, List.flatMap_map, List.flatMap_id']

/-- The clauses stand in the definition one behind the other. -/
theorem sublist_clauses : (d.clauses.flatMap (·.symbols)).Sublist d.valid := by
  have hdevices := Outline.sublist_itemsOf .devices d.valid
  have hconnect := Outline.sublist_itemsOf .connect (Outline.part .devices d.valid).2
  have hmonitor := Outline.sublist_itemsOf .monitor
    (Outline.part .connect (Outline.part .devices d.valid).2).2
  simp only [clauses, List.flatMap_append, flatMap_clausesOf, List.append_assoc]
  have hafter := (List.sublist_append_left _ _).trans hmonitor
  have hafter' := (hafter.append_left _).trans hconnect
  exact (hafter'.append_left _).trans hdevices

namespace Unfolds
variable {d : Definition} {names : NameTable} {built : Built} {turns : List Turn} {t : Turn}

/-- A fault is found at a symbol of its clause. -/
theorem symbol_mem (h : d.Unfolds names built turns) (ht : t ∈ turns) {f : SemanticFault}
    (hf : t.fault = some f) : f.symbol ∈ t.clause.symbols := by
  obtain ⟨pre, post, heq⟩ := List.append_of_mem ht
  obtain ⟨-, -, hproceeds, -⟩ := h.before heq
  cases hproceeds with
  | @statement st hst hp =>
    rw [hf] at hp
    obtain ⟨ys, hys, hst⟩ := hst
    exact hys.initial.subset (hst.mem _ (Draft.symbol_mem_of_perform hp)).1
  | broken _ _ hnone => cases hnone.symm.trans hf
  | idle _ _ _ hnone => cases hnone.symm.trans hf

/-- Semantic diagnostics stand one behind the other. -/
theorem pairwise_semantic (h : d.Unfolds names built turns) :
    (built.diagnostics.semantic.map (·.position)).Pairwise Before := by
  have hvalid := (List.pairwise_append.1 d.pairwise_position).1
  have hclauses := hvalid.sublist d.sublist_clauses
  rw [← h.clauses, List.flatMap_map, List.pairwise_flatMap] at hclauses
  rw [h.semantic, List.pairwise_map, List.pairwise_filterMap]
  refine hclauses.2.imp_of_mem fun {t u} ht hu hbefore g hg g' hg' => ?_
  obtain ⟨f, hf, rfl⟩ := Option.map_eq_some_iff.1 hg
  obtain ⟨f', hf', rfl⟩ := Option.map_eq_some_iff.1 hg'
  exact hbefore _ (h.symbol_mem ht hf) _ (h.symbol_mem hu hf')

end Unfolds

/-- Each statement has at most one diagnostic, in the order of the statements. It is refused for the
first thing that stands against it, which is reported unless it is that a device was declared but not
made, and nothing changes then; or it adds its one device, connection or monitor. So the circuit
changes just if nothing is reported and the statement refers to no device that was declared but not
made. -/
theorem build_statements : ∃ built turns, d.build names = .ok built ∧
    d.Unfolds names built turns ∧ (d.clauses.flatMap (·.symbols)).Sublist d.valid ∧
    (built.diagnostics.semantic.map (·.position)).Pairwise Before ∧
    ∀ pre t post, turns = pre ++ t :: post →
      (∀ s ∈ built.names.texts,
        built.names.idOf s ∈ t.before.declared ↔ ∃ u ∈ pre, u.clause.Declares s) ∧
      ((∀ st, ¬ t.clause.Completes st) →
        t.fault = none ∧ t.after.circuit = t.before.circuit) ∧
      ∀ st, t.clause.Completes st →
        Draft.Verdict built.names st t.before t.after t.fault ∧
        (t.after.circuit ≠ t.before.circuit ↔ t.fault = none ∧ ∀ x ∈ st.refersTo,
          ¬ ((∃ c ∈ d.clauses, c.Declares x.text) ∧ ¬ built.HasDevice x.text)) := by
  obtain ⟨built, turns, hbuild, h⟩ := d.exists_unfolds names
  refine ⟨built, turns, hbuild, h, d.sublist_clauses, h.pairwise_semantic,
    fun pre t post heq => ⟨fun s hs => ?_, fun hno => ?_, fun st hst => ?_⟩⟩
  · rw [h.names] at hs ⊢
    exact h.declared_iff heq hs
  · obtain ⟨-, -, hproceeds, -⟩ := h.before heq
    cases hproceeds with
    | statement hst _ => exact absurd hst (hno _)
    | broken _ hafter hfault => exact ⟨hfault, by rw [hafter]; rfl⟩
    | idle _ _ hafter hfault => exact ⟨hfault, by rw [hafter]⟩
  · obtain ⟨hs, hverdict, -⟩ := h.verdict heq hst
    refine ⟨h.names ▸ hverdict, (hverdict.circuit_ne_iff hs).trans ?_⟩
    refine and_congr_right fun _ => forall_congr' fun x => ?_
    exact imp_congr_right fun hx => not_congr (h.unmade_iff heq hst hx)

/-- `A` has a bad parameter and `B` breaks off after its name, so both are duplicates later on and
neither is undefined. -/
example :
    let d : Definition := { text := .ofString "DEVICES: SWITCH A 2, SWITCH A 0, AND B, CLOCK B 1, XOR C;
      CONNECT: A > C.I1, C > D.I1, C > C.I1, C > C.I1; MONITOR: A, B, C, E, C; END;" }
    (d.build {}).toOption.map (fun b => b.diagnostics.map (·.code)) =
      some [.invalidArgument, .duplicateDevice, .unexpectedSymbol, .duplicateDevice,
        .undefinedDevice, .inputAlreadyConnected, .undefinedDevice, .duplicateMonitor] := by
  decide +kernel

end Definition

end GateSim
