import Mathlib.Data.List.Induction
import GateSim.Proofs.Build
import GateSim.Proofs.Reorder

/-!
# Descriptions in another order

The statements of a definition with reordered items describe the same devices, connections and
monitors, those of one kind in another order (`Description.Rearranges`). Whether a description makes
sense does not depend on the order, and neither does the source of an input. Since all other
sections name only devices and pins, a definition gives its names by its devices alone. So
connections in another order give the same circuit, and monitors in another order only theirs.
-/

namespace GateSim

open Grammar

/-! ### Statements by their kind -/

namespace Statement

def declaration? : Statement → Option Declaration
  | .device kind name parameter => some ⟨kind, name.text, (parameter.map (·.text)).getD []⟩
  | _ => none

def connection? : Statement → Option Connection
  | .connection source sourcePin target targetPin =>
    some ⟨.ofSymbols source sourcePin, target.text, targetPin.text⟩
  | _ => none

def port? : Statement → Option Port
  | .monitor name pin => some (.ofSymbols name pin)
  | _ => none

theorem declaration?_placeless (st : Statement) : st.placeless.declaration? = st.declaration? := by
  cases st with
  | device kind name parameter => cases parameter <;> rfl
  | _ => rfl

theorem connection?_placeless (st : Statement) : st.placeless.connection? = st.connection? := by
  cases st with
  | connection source sourcePin target targetPin => cases sourcePin <;> rfl
  | _ => rfl

theorem port?_placeless (st : Statement) : st.placeless.port? = st.port? := by
  cases st with
  | monitor name pin => cases pin <;> rfl
  | _ => rfl

end Statement

namespace Description

theorem ofStatements_eq (sts : List Statement) : ofStatements sts =
    ⟨sts.filterMap Statement.declaration?, sts.filterMap Statement.connection?,
      sts.filterMap Statement.port?⟩ := by
  have hfold : ∀ D : Description, sts.foldl add D =
      ⟨D.devices ++ sts.filterMap Statement.declaration?,
        D.connections ++ sts.filterMap Statement.connection?,
        D.monitors ++ sts.filterMap Statement.port?⟩ := by
    induction sts with
    | nil => simp
    | cons st sts ih =>
      intro D
      rw [List.foldl_cons, ih]
      cases st <;> simp [add, List.filterMap_cons, Statement.declaration?, Statement.connection?,
        Statement.port?]
  exact hfold {}

theorem ofStatements_placeless (sts : List Statement) :
    ofStatements (sts.map Statement.placeless) = ofStatements sts := by
  simp only [ofStatements_eq, List.filterMap_map, Function.comp_def,
    Statement.declaration?_placeless, Statement.connection?_placeless, Statement.port?_placeless]

/-- One part of a description is listed in another order. -/
inductive Rearranges : Section → Description → Description → Prop
  | devices {ds ds' : List Declaration} {cs : List Connection} {ms : List Port} :
      ds.Perm ds' → Rearranges .devices ⟨ds, cs, ms⟩ ⟨ds', cs, ms⟩
  | connect {ds : List Declaration} {cs cs' : List Connection} {ms : List Port} :
      cs.Perm cs' → Rearranges .connect ⟨ds, cs, ms⟩ ⟨ds, cs', ms⟩
  | monitor {ds : List Declaration} {cs : List Connection} {ms ms' : List Port} :
      ms.Perm ms' → Rearranges .monitor ⟨ds, cs, ms⟩ ⟨ds, cs, ms'⟩

end Description

namespace Grammar
variable {s : Section} {xs : List Symbol} {sts : List Statement}
  {p : Section → List Symbol} {q : Section → List Statement}

theorem IsPiece.exists_isStatement (h : IsPiece s xs sts) {st : Statement} (hst : st ∈ sts) :
    ∃ ys, IsStatement s ys st := by
  cases h with
  | part _ h =>
    obtain ⟨ys, -, hys⟩ := h.exists_isStatement hst
    exact ⟨ys, hys⟩
  | close => cases hst

/-- The statements of each section add to one part of the description. -/
theorem IsSections.ofStatements_eq (h : IsSections p q) :
    Description.ofStatements (Section.all.flatMap q) =
      ⟨(q .devices).filterMap Statement.declaration?, (q .connect).filterMap Statement.connection?,
        (q .monitor).filterMap Statement.port?⟩ := by
  have hnil : ∀ {α : Type} (f : Statement → Option α) (s : Section),
      (∀ ys st, IsStatement s ys st → f st = none) → (q s).filterMap f = [] := by
    intro α f s hf
    refine List.filterMap_eq_nil_iff.2 fun st hst => ?_
    obtain ⟨ys, hys⟩ := (h s).exists_isStatement hst
    exact hf ys st hys
  have hd : ∀ s ≠ .devices, (q s).filterMap Statement.declaration? = [] := fun s hs =>
    hnil _ s fun _ _ hst => by
      cases hst with
      | device => exact absurd rfl hs
      | _ => rfl
  have hc : ∀ s ≠ .connect, (q s).filterMap Statement.connection? = [] := fun s hs =>
    hnil _ s fun _ _ hst => by
      cases hst with
      | connection => exact absurd rfl hs
      | _ => rfl
  have hm : ∀ s ≠ .monitor, (q s).filterMap Statement.port? = [] := fun s hs =>
    hnil _ s fun _ _ hst => by
      cases hst with
      | monitor => exact absurd rfl hs
      | _ => rfl
  rw [Description.ofStatements_eq]
  simp only [Section.all, List.flatMap_cons, List.flatMap_nil, List.filterMap_append,
    hd .connect (by decide), hd .monitor (by decide), hd .close (by decide),
    hc .devices (by decide), hc .monitor (by decide), hc .close (by decide),
    hm .devices (by decide), hm .connect (by decide), hm .close (by decide),
    List.append_nil, List.nil_append]

theorem IsSections.rearranges (h : IsSections p q) {part : List Symbol} {mid : List Statement}
    (h' : IsSections (Function.update p s part) (Function.update q s mid)) (hs : s ≠ .close)
    (hmid : (q s).Perm mid) :
    Description.Rearranges s (Description.ofStatements (Section.all.flatMap q))
      (Description.ofStatements (Section.all.flatMap (Function.update q s mid))) := by
  rw [h.ofStatements_eq, h'.ofStatements_eq]
  cases s with
  | devices => exact .devices (hmid.filterMap _)
  | connect => exact .connect (hmid.filterMap _)
  | monitor => exact .monitor (hmid.filterMap _)
  | close => exact absurd rfl hs

end Grammar

/-! ### Meaning does not depend on the order -/

namespace Description
variable {s : Section} {D D' : Description}

/-- The descriptions list the same, in any order. -/
structure SameUpToOrder (D D' : Description) : Prop where
  devices : D.devices.Perm D'.devices
  connections : D.connections.Perm D'.connections
  monitors : D.monitors.Perm D'.monitors

theorem Rearranges.sameUpToOrder (h : Rearranges s D D') : D.SameUpToOrder D' := by
  cases h with
  | devices h => exact ⟨h, .refl _, .refl _⟩
  | connect h => exact ⟨.refl _, h, .refl _⟩
  | monitor h => exact ⟨.refl _, .refl _, h⟩

theorem source?_eq_some_iff (h : D.targets.Nodup) {device pin : Text} {port : Port} :
    D.source? device pin = some port ↔ ⟨port, device, pin⟩ ∈ D.connections := by
  rw [source?, Option.map_eq_some_iff]
  constructor
  · rintro ⟨c, hc, rfl⟩
    have htarget := List.find?_some hc
    obtain ⟨rfl, rfl⟩ : c.target = device ∧ c.pin = pin := by simpa using htarget
    exact List.mem_of_find?_eq_some hc
  · intro hm
    have hsome : (D.connections.find? fun c => c.target = device ∧ c.pin = pin).isSome := by
      rw [List.find?_isSome]
      exact ⟨_, hm, by simp⟩
    obtain ⟨c, hc⟩ := Option.isSome_iff_exists.1 hsome
    have htarget := List.find?_some hc
    have heq : c = ⟨port, device, pin⟩ := by
      refine List.inj_on_of_nodup_map h (List.mem_of_find?_eq_some hc) hm ?_
      simpa using htarget
    exact ⟨c, hc, by rw [heq]⟩

namespace SameUpToOrder
variable (h : D.SameUpToOrder D')
include h

theorem symm : D'.SameUpToOrder D := ⟨h.devices.symm, h.connections.symm, h.monitors.symm⟩

theorem names : D.names.Perm D'.names := h.devices.map _

theorem targets : D.targets.Perm D'.targets := h.connections.map _

theorem meaningful (hm : D.Meaningful) : D'.Meaningful := by
  have hsub : D.devices ⊆ D'.devices := h.devices.subset
  refine ⟨h.names.nodup hm.names, fun d hd => hm.parameters d (h.devices.mem_iff.2 hd),
    fun c hc => (hm.sources c (h.connections.mem_iff.2 hc)).mono hsub,
    fun c hc => (hm.targets c (h.connections.mem_iff.2 hc)).mono hsub,
    h.targets.nodup hm.single, fun m hp => (hm.monitors m (h.monitors.mem_iff.2 hp)).mono hsub⟩

theorem source?_eq (hm : D.Meaningful) (device pin : Text) :
    D'.source? device pin = D.source? device pin := by
  ext port
  rw [source?_eq_some_iff hm.single,
    source?_eq_some_iff (h.meaningful hm).single, h.connections.mem_iff]

theorem device_eq (hm : D.Meaningful) (names : NameTable) : D'.device names = D.device names := by
  funext d
  simp only [device, h.source?_eq hm]

end SameUpToOrder

theorem nodup_eraseDups {α : Type} [DecidableEq α] (l : List α) : l.eraseDups.Nodup := by
  induction l using List.reverseRecOn with
  | nil => exact List.nodup_nil
  | append_singleton l a ih =>
    rw [eraseDups_concat]
    split
    · exact ih
    · next ha => exact List.concat_eq_append ▸ ih.concat (mt List.mem_eraseDups.1 ha)

theorem Rearranges.circuit_of_connect (h : Rearranges .connect D D') (hm : D.Meaningful)
    (names : NameTable) : D'.circuit names = D.circuit names := by
  have hdevice := h.sameUpToOrder.device_eq hm names
  cases h
  simp only [circuit, hdevice]
  rfl

theorem Rearranges.circuit_of_monitor (h : Rearranges .monitor D D') (names : NameTable) :
    ∃ ms, (D.circuit names).monitors.Perm ms ∧
      D'.circuit names = { D.circuit names with monitors := ms } := by
  cases h with
  | monitor h =>
    refine ⟨_, List.Perm.map _ ?_, rfl⟩
    exact (List.perm_ext_iff_of_nodup (nodup_eraseDups _) (nodup_eraseDups _)).2 fun p => by
      rw [List.mem_eraseDups, List.mem_eraseDups, h.mem_iff]

end Description

/-! ### Known names -/

namespace NameTable
variable {names : NameTable} {xs : List Symbol}

theorem mem_insertSymbols {t : Text} : t ∈ (names.insertSymbols xs).texts ↔
    t ∈ names.texts ∨ ∃ x ∈ xs, x.type.isNamed = true ∧ x.text = t := by
  simp only [insertSymbols, mem_insertAll, List.mem_map, List.mem_filter, and_assoc]

theorem insertSymbols_append (names : NameTable) (xs ys : List Symbol) :
    names.insertSymbols (xs ++ ys) = (names.insertSymbols xs).insertSymbols ys := by
  simp only [insertSymbols, insertAll, List.filter_append, List.map_append, List.foldl_append]

theorem insertSymbols_eq_self (h : ∀ x ∈ xs, x.type.isNamed = true → x.text ∈ names.texts) :
    names.insertSymbols xs = names := by
  refine insertAll_eq_self fun t ht => ?_
  obtain ⟨x, hx, rfl⟩ := List.mem_map.1 ht
  exact h x (List.mem_filter.1 hx).1 (List.mem_filter.1 hx).2

theorem insertSymbols_placeless (names : NameTable) (xs : List Symbol) :
    names.insertSymbols (xs.map Symbol.placeless) = names.insertSymbols xs := by
  simp only [insertSymbols, List.filter_map, List.map_map, Function.comp_def, Symbol.type_placeless,
    Symbol.text_placeless]

end NameTable

namespace Grammar
variable {s : Section} {xs : List Symbol} {st : Statement} {sts : List Statement}
  {p : Section → List Symbol} {q : Section → List Statement}

theorem IsOutput.mem_symbols {name : Symbol} {pin : Option Symbol} (h : IsOutput xs name pin) :
    ∀ x ∈ xs, x.type.isNamed = true → x ∈ name :: pin.toList := by
  cases h with
  | unnamed => simp
  | @named name dot pin _ hd _ =>
    have hdot : ¬ dot.type.isNamed = true := by rw [hd]; decide
    intro x hx hnamed
    simp only [List.mem_cons, List.not_mem_nil, or_false] at hx
    rcases hx with rfl | rfl | rfl
    · simp
    · exact absurd hnamed hdot
    · simp

/-- What is named in an item of another section than the devices is named in its statement. -/
theorem IsStatement.mem_symbols (h : IsStatement s xs st) (hs : s ≠ .devices) :
    ∀ x ∈ xs, x.type.isNamed = true → x ∈ st.symbols := by
  intro x hx hnamed
  cases h with
  | device => exact absurd rfl hs
  | @connection ys source arrow target dot pin sourcePin ho ha _ hd _ =>
    have harrow : ¬ arrow.type.isNamed = true := by rw [ha]; decide
    have hdot : ¬ dot.type.isNamed = true := by rw [hd]; decide
    rcases List.mem_append.1 hx with hx | hx
    · have hsource := ho.mem_symbols x hx hnamed
      simp only [Statement.symbols, List.mem_cons] at hsource ⊢
      exact hsource.imp_right fun hpin => Or.inr (Or.inr hpin)
    · simp only [List.mem_cons, List.not_mem_nil, or_false] at hx
      rcases hx with rfl | rfl | rfl | rfl
      · exact absurd hnamed harrow
      · simp [Statement.symbols]
      · exact absurd hnamed hdot
      · simp [Statement.symbols]
  | monitor ho => exact ho.mem_symbols x hx hnamed

theorem IsItems.exists_mem_symbols (h : IsItems s xs sts) (hs : s ≠ .devices) :
    ∀ x ∈ xs, x.type.isNamed = true → ∃ st ∈ sts, x ∈ st.symbols := by
  induction h with
  | single hst => exact fun x hx hnamed => ⟨_, by simp, hst.mem_symbols hs x hx hnamed⟩
  | @cons xs ys comma st sts hst hc _ ih =>
    intro x hx hnamed
    rcases List.mem_append.1 hx with hx | hx
    · exact ⟨st, List.mem_cons_self .., hst.mem_symbols hs x hx hnamed⟩
    rcases List.mem_cons.1 hx with rfl | hx
    · rw [hc] at hnamed
      cases hnamed
    · obtain ⟨st', hst', hx⟩ := ih x hx hnamed
      exact ⟨st', List.mem_cons_of_mem _ hst', hx⟩

theorem IsPiece.exists_mem_symbols (h : IsPiece s xs sts) (hs : s ≠ .devices) :
    ∀ x ∈ xs, x.type.isNamed = true → IsWord s x ∨ ∃ st ∈ sts, x ∈ st.symbols := by
  intro x hx hnamed
  cases h with
  | part _ h =>
    obtain ⟨word, colon, body, semicolon, rfl, hword, hc, hsemi, hbody⟩ := isPart_iff.1 h
    have hcolon : ¬ colon.type.isNamed = true := by rw [hc]; decide
    have hsemicolon : ¬ semicolon.type.isNamed = true := by rw [hsemi]; decide
    simp only [List.mem_cons, List.mem_append, List.not_mem_nil, or_false] at hx
    rcases hx with rfl | rfl | hx | rfl
    · exact Or.inl hword
    · exact absurd hnamed hcolon
    · rcases hbody with hi | ⟨-, rfl, -⟩
      · exact Or.inr (hi.exists_mem_symbols hs x hx hnamed)
      · cases hx
    · exact absurd hnamed hsemicolon
  | @close word semicolon hword hsemi =>
    have hsemicolon : ¬ semicolon.type.isNamed = true := by rw [hsemi]; decide
    rcases List.mem_pair.1 hx with rfl | rfl
    · exact Or.inl hword
    · exact absurd hnamed hsemicolon

/-- Statements that make sense name devices and pins, unless they declare. -/
theorem mem_names_or_pins (hm : (Description.ofStatements sts).Meaningful) (hst : st ∈ sts)
    (hd : st.isDevice = false) : ∀ x ∈ st.symbols,
      x.text ∈ (Description.ofStatements sts).names ∨ x.text ∈ PinWord.inputs ++ PinWord.outputs := by
  have hout : ∀ {name : Symbol} {pin : Option Symbol},
      (Description.ofStatements sts).HasOutput (.ofSymbols name pin) → ∀ x ∈ name :: pin.toList,
      x.text ∈ (Description.ofStatements sts).names ∨
        x.text ∈ PinWord.inputs ++ PinWord.outputs := by
    intro name pin h x hx
    rcases List.mem_cons.1 hx with rfl | hx
    · exact Or.inl h.mem_names
    · obtain ⟨d, -, -, hpin⟩ := h
      obtain rfl := Option.mem_toList.1 hx
      exact Or.inr (List.mem_append_right _ (Declaration.mem_outputs_of_some hpin))
  rw [Description.ofStatements_eq] at hm hout ⊢
  cases st with
  | device => cases hd
  | connection source sourcePin target targetPin =>
    have hmem : ⟨.ofSymbols source sourcePin, target.text, targetPin.text⟩ ∈
        sts.filterMap Statement.connection? := List.mem_filterMap.2 ⟨_, hst, rfl⟩
    have hsource := hout (hm.sources _ hmem)
    have htarget := hm.targets _ hmem
    simp only [Statement.symbols, List.forall_mem_cons] at hsource ⊢
    refine ⟨hsource.1, Or.inl htarget.mem_names, Or.inr ?_, hsource.2⟩
    obtain ⟨d, -, -, hpin⟩ := htarget
    exact List.mem_append_left _ (d.inputs_subset hpin)
  | monitor name pin => exact hout (hm.monitors _ (List.mem_filterMap.2 ⟨_, hst, rfl⟩))

/-- The names of declared devices stand in the device section. -/
theorem IsSections.exists_name (h : IsSections p q) {t : Text}
    (ht : t ∈ (Description.ofStatements (Section.all.flatMap q)).names) :
    ∃ x ∈ p .devices, x.type.isNamed = true ∧ x.text = t := by
  rw [h.ofStatements_eq] at ht
  obtain ⟨d, hd, rfl⟩ := List.mem_map.1 ht
  obtain ⟨st, hst, hdecl⟩ := List.mem_filterMap.1 hd
  cases st with
  | device kind name parameter =>
    obtain ⟨ys, hys, hst⟩ := ((h .devices).isPart (by decide)).exists_isStatement hst
    obtain ⟨hx, hnamed⟩ := hst.mem name (List.mem_cons_self ..)
    exact ⟨name, hys hx, hnamed, by rw [← Option.some.inj hdecl]⟩
  | _ => cases hdecl

/-- A sentence that makes sense has all its names in the device section. -/
theorem IsSections.insertSymbols_eq (h : IsSections p q)
    (hm : (Description.ofStatements (Section.all.flatMap q)).Meaningful) (names : NameTable) :
    names.insertKeywords.insertPins.insertSymbols (Section.all.flatMap p) =
      names.insertKeywords.insertPins.insertSymbols (p .devices) := by
  -- the other sections name keywords, pins and declared devices only
  have hrest : ∀ s ∈ [Section.connect, .monitor, .close], ∀ x ∈ p s, x.type.isNamed = true →
      x.text ∈ (names.insertKeywords.insertPins.insertSymbols (p .devices)).texts := by
    intro s hs x hx hnamed
    have hne : s ≠ .devices := ne_of_mem_of_not_mem hs (by decide)
    rcases (h s).exists_mem_symbols hne x hx hnamed with hw | ⟨st, hst, hx⟩
    · refine NameTable.mem_insertSymbols.2 (Or.inl (NameTable.mem_insertAll.2 (Or.inl ?_)))
      refine NameTable.mem_insertAll.2 (Or.inr (List.mem_append_left _ ?_))
      rw [hw.2]
      exact List.mem_map_of_mem (by cases s <;> decide)
    · obtain ⟨ys, hys⟩ := (h s).exists_isStatement hst
      have hdevice : st.isDevice = false := Bool.eq_false_iff.2 fun hd => hne (hys.isDevice.1 hd)
      have hall : st ∈ Section.all.flatMap q :=
        List.mem_flatMap.2 ⟨s, List.mem_cons_of_mem Section.devices hs, hst⟩
      rcases mem_names_or_pins hm hall hdevice x hx with hname | hpin
      · exact NameTable.mem_insertSymbols.2 (Or.inr (h.exists_name hname))
      · exact NameTable.mem_insertSymbols.2 (Or.inl (NameTable.mem_insertAll.2 (Or.inr hpin)))
  have hall : Section.all.flatMap p =
      p .devices ++ [Section.connect, .monitor, .close].flatMap p := rfl
  rw [hall, NameTable.insertSymbols_append]
  refine NameTable.insertSymbols_eq_self fun x hx => ?_
  obtain ⟨s, hs, hx⟩ := List.mem_flatMap.1 hx
  exact hrest s hs x hx

end Grammar

/-! ### Definitions -/

/-- What is built stands for the same description, but for the order of one of its parts. -/
structure Built.Rearranged (s : Section) (b b' : Built) (D D' : Description) : Prop where
  rearranges : D.Rearranges s D'
  meaningful : D.Meaningful
  known : D.Known b.names
  circuit : b.circuit = D.circuit b.names
  circuit' : b'.circuit = D'.circuit b'.names
  texts : ∀ t, t ∈ b'.names.texts ↔ t ∈ b.names.texts
  pins : ∀ t ∈ PinWord.inputs ++ PinWord.outputs, b'.names.idOf t = b.names.idOf t
  names : s ≠ .devices → b'.names = b.names

namespace Definition
variable {s : Section} {d d' : Definition} {names : NameTable} {sts : List Statement} {built : Built}

theorem names_eq_content (h : ∀ x ∈ d.text.symbols.1, x.type ≠ .invalid)
    (hsts : IsSentence d.text.symbols.1 sts) (names : NameTable) :
    d.names names = names.insertKeywords.insertPins.insertSymbols d.content := by
  rw [names_eq h hsts, content, NameTable.insertSymbols_placeless]

theorem idOf_pin (d : Definition) (names : NameTable) {t : Text}
    (ht : t ∈ PinWord.inputs ++ PinWord.outputs) :
    (d.names names).idOf t = names.insertKeywords.insertPins.idOf t :=
  NameTable.idOf_insertAll _ (NameTable.knowsPins_insertPins t ht)

/-- A sentence is built without errors exactly if it makes sense. -/
theorem build_of_isSentence (hv : ∀ x ∈ d.text.symbols.1, x.type ≠ .invalid)
    (hsts : IsSentence d.text.symbols.1 sts) (names : NameTable) :
    ∃ built, d.build names = .ok built ∧ built.names = d.names names ∧
      (built.success = true ↔ (Description.ofStatements sts).Meaningful) ∧
      (built.success = true →
        built.circuit = (Description.ofStatements sts).circuit (d.names names)) := by
  obtain ⟨draft, ds, hrun, hbuild⟩ := d.build_eq names
  refine ⟨_, hbuild, rfl, ?_⟩
  have hk : Description.Known (d.names names) {} := ⟨d.knowsPins_names names, fun _ h => by cases h⟩
  have hs : (Description.draft {} (d.names names)).Sound :=
    Draft.sound_empty (d.knowsPins_names names)
  rw [events_eq hv hsts] at hrun
  obtain ⟨herrors, hdraft⟩ := Description.run_statements Description.meaningful_empty hk hs
    (d.proper_of_isSentence names hv hsts) hrun
  rw [Description.fitAll_iff Description.meaningful_empty hsts.pairwise_isDevice] at herrors hdraft
  rw [Built.success_iff]
  exact ⟨herrors, fun h => congrArg Draft.circuit (hdraft (herrors.1 h))⟩

theorem exists_isSentence_of_build (hbuild : d.build names = .ok built)
    (hs : built.success = true) :
    (∀ x ∈ d.text.symbols.1, x.type ≠ .invalid) ∧ ∃ sts, IsSentence d.text.symbols.1 sts := by
  obtain ⟨draft, ds, hrun, hbuild'⟩ := d.build_eq names
  cases hbuild.symm.trans hbuild'
  have hregular := d.regular_of_run names hrun (Built.success_iff.1 hs)
  exact ⟨hregular.ne_invalid, hregular.exists_isSentence⟩

/-- A definition with reordered items is built without errors if the other one is. -/
theorem Reorders.rearranged (h : d.Reorders s d') (hs : s ≠ .close)
    (hbuild : d.build names = .ok built) (hsuccess : built.success = true) :
    ∃ built', d'.build names = .ok built' ∧ built'.success = true ∧
      ∃ D D', built.Rearranged s built' D D' := by
  obtain ⟨hv, sts, hsts⟩ := exists_isSentence_of_build hbuild hsuccess
  have hv' : ∀ x ∈ d'.text.symbols.1, x.type ≠ .invalid :=
    ne_invalid_iff.2 fun x hx => ne_invalid_iff.1 hv x (h.mem_content_iff.1 hx)
  obtain ⟨p, q, part, mid, sts', hpq, hpq', hmid, hd, hd', hplaces, hsts', hplaces'⟩ :=
    h.exists_isSections hs hsts
  obtain ⟨_, hbuild₀, hnames, hsucc, hcircuit⟩ := build_of_isSentence hv hsts names
  cases hbuild.symm.trans hbuild₀
  obtain ⟨built', hbuild', hnames', hsucc', hcircuit'⟩ := build_of_isSentence hv' hsts' names
  have hD : Description.ofStatements sts =
      Description.ofStatements (Section.all.flatMap q) := by
    rw [← Description.ofStatements_placeless sts, hplaces, Description.ofStatements_placeless]
  have hD' : Description.ofStatements sts' =
      Description.ofStatements (Section.all.flatMap (Function.update q s mid)) := by
    rw [← Description.ofStatements_placeless sts', hplaces', Description.ofStatements_placeless]
  rw [hD] at hsucc hcircuit
  rw [hD'] at hsucc' hcircuit'
  have hm := hsucc.1 hsuccess
  have hrearranges := hpq.rearranges hpq' hs hmid
  have hm' := hrearranges.sameUpToOrder.meaningful hm
  have hknown : ∀ t, t ∈ (d'.names names).texts ↔ t ∈ (d.names names).texts := by
    intro t
    simp only [names_eq_content hv hsts, names_eq_content hv' hsts', NameTable.mem_insertSymbols,
      h.mem_content_iff]
  refine ⟨built', hbuild', hsucc'.2 hm', _, _, hrearranges, hm, ?_, ?_, ?_, ?_, ?_, ?_⟩
  · refine ⟨hnames ▸ d.knowsPins_names names, fun t ht => ?_⟩
    rw [hnames, names_eq_content hv hsts, hd]
    obtain ⟨x, hx, hx'⟩ := hpq.exists_name ht
    exact NameTable.mem_insertSymbols.2
      (Or.inr ⟨x, List.mem_flatMap.2 ⟨.devices, by decide, hx⟩, hx'⟩)
  · rw [hnames, hcircuit hsuccess]
  · rw [hnames', hcircuit' (hsucc'.2 hm')]
  · rw [hnames, hnames']
    exact hknown
  · intro t ht
    rw [hnames, hnames', idOf_pin d names ht, idOf_pin d' names ht]
  · intro hne
    rw [hnames, hnames', names_eq_content hv hsts, names_eq_content hv' hsts', hd, hd',
      hpq.insertSymbols_eq hm, hpq'.insertSymbols_eq hm', Function.update_of_ne hne.symm]

end Definition

end GateSim
