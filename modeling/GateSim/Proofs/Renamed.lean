import Mathlib.Data.Set.Function
import GateSim.Proofs.Independence
import GateSim.Proofs.Layout
import GateSim.Proofs.RenamedText

/-!
# Definitions with other names for devices

The names of devices are labels. A definition with other names in their place describes the same
devices under these names (`Description.ofStatements_rename`), so it is built without errors if the
definition is, and shows the same of all commands (`Definition.build_rename`). It does not matter if
a device takes the name of a pin: the ids of devices may become any other ids that are different,
also those of pins.
-/

namespace GateSim

open Grammar

variable {σ : Text → Text}

/-! ### Descriptions -/

def Declaration.rename (σ : Text → Text) (d : Declaration) : Declaration :=
  { d with name := σ d.name }

def Connection.rename (σ : Text → Text) (c : Connection) : Connection where
  source := c.source.rename σ
  target := σ c.target
  pin := c.pin

def Description.rename (σ : Text → Text) (D : Description) : Description where
  devices := D.devices.map (Declaration.rename σ)
  connections := D.connections.map (Connection.rename σ)
  monitors := D.monitors.map (Port.rename σ)

namespace Statement
variable (st : Statement)

theorem declaration?_rename :
    (st.rename σ).declaration? = st.declaration?.map (Declaration.rename σ) := by
  cases st <;> rfl

theorem connection?_rename :
    (st.rename σ).connection? = st.connection?.map (Connection.rename σ) := by
  cases st <;> rfl

theorem port?_rename : (st.rename σ).port? = st.port?.map (Port.rename σ) := by
  cases st <;> rfl

end Statement

namespace Description
variable {D : Description} {sts : List Statement}

theorem ofStatements_rename (σ : Text → Text) (sts : List Statement) :
    ofStatements (sts.map (Statement.rename σ)) = (ofStatements sts).rename σ := by
  simp only [ofStatements_eq, rename, List.filterMap_map, List.map_filterMap, Function.comp_def,
    Statement.declaration?_rename, Statement.connection?_rename, Statement.port?_rename]

/-- Statements that make sense name only devices that are declared. -/
theorem Meaningful.mem_names (hm : (ofStatements sts).Meaningful) {t : Text}
    (ht : t ∈ sts.flatMap Statement.deviceNames) : t ∈ (ofStatements sts).names := by
  obtain ⟨st, hst, ht⟩ := List.mem_flatMap.1 ht
  rw [ofStatements_eq] at hm ⊢
  cases st with
  | device kind name parameter =>
    obtain rfl := List.mem_singleton.1 ht
    exact List.mem_map.2 ⟨_, List.mem_filterMap.2 ⟨_, hst, rfl⟩, rfl⟩
  | connection source sourcePin target targetPin =>
    have hmem : ⟨.ofSymbols source sourcePin, target.text, targetPin.text⟩ ∈
        sts.filterMap Statement.connection? := List.mem_filterMap.2 ⟨_, hst, rfl⟩
    rcases List.mem_pair.1 ht with rfl | rfl
    · exact (hm.sources _ hmem).mem_names
    · exact (hm.targets _ hmem).mem_names
  | monitor name pin =>
    obtain rfl := List.mem_singleton.1 ht
    exact (hm.monitors _ (List.mem_filterMap.2 ⟨_, hst, rfl⟩)).mem_names

theorem names_rename : (D.rename σ).names = D.names.map σ := by
  simp only [names, rename, List.map_map]
  rfl

theorem HasOutput.rename {p : Port} (h : D.HasOutput p) : (D.rename σ).HasOutput (p.rename σ) := by
  obtain ⟨d, hd, hname, hpin⟩ := h
  exact ⟨_, List.mem_map_of_mem hd, congrArg σ hname, hpin⟩

theorem HasInput.rename {device pin : Text} (h : D.HasInput device pin) :
    (D.rename σ).HasInput (σ device) pin := by
  obtain ⟨d, hd, hname, hpin⟩ := h
  exact ⟨_, List.mem_map_of_mem hd, congrArg σ hname, hpin⟩

/-- Different names for different devices. -/
abbrev Distinguishes (σ : Text → Text) (D : Description) : Prop := Set.InjOn σ {t | t ∈ D.names}

section
variable (hσ : D.Distinguishes σ) (hm : D.Meaningful)
include hσ hm

theorem Meaningful.rename : (D.rename σ).Meaningful where
  names := names_rename ▸ hm.names.map_on hσ
  parameters := List.forall_mem_map.2 hm.parameters
  sources := List.forall_mem_map.2 fun c hc => (hm.sources c hc).rename
  targets := List.forall_mem_map.2 fun c hc => (hm.targets c hc).rename
  single := by
    have htargets : (D.rename σ).targets = D.targets.map fun t => (σ t.1, t.2) := by
      simp only [Description.targets, Description.rename, List.map_map]
      rfl
    rw [htargets]
    refine hm.single.map_on fun t ht u hu heq => ?_
    obtain ⟨c, hc, rfl⟩ := List.mem_map.1 ht
    obtain ⟨c', hc', rfl⟩ := List.mem_map.1 hu
    obtain ⟨hname, hpin⟩ := Prod.mk.inj heq
    exact Prod.ext (hσ (hm.targets c hc).mem_names (hm.targets c' hc').mem_names hname) hpin
  monitors := List.forall_mem_map.2 fun p hp => (hm.monitors p hp).rename

theorem source?_rename {device : Text} (hd : device ∈ D.names) (pin : Text) :
    (D.rename σ).source? (σ device) pin = (D.source? device pin).map (Port.rename σ) := by
  ext port
  rw [source?_eq_some_iff (hm.rename hσ).single, Option.map_eq_some_iff]
  simp only [source?_eq_some_iff hm.single]
  constructor
  · intro hmem
    obtain ⟨⟨source, target, pin⟩, hc, heq⟩ := List.mem_map.1 hmem
    obtain ⟨rfl, htarget, rfl⟩ := Connection.mk.injEq .. |>.mp heq
    exact ⟨source, hσ (hm.targets _ hc).mem_names hd htarget ▸ hc, rfl⟩
  · rintro ⟨source, hc, rfl⟩
    exact List.mem_map_of_mem (f := Connection.rename σ) hc

end

end Description

/-! ### Circuits -/

theorem eraseDups_map {α β : Type} [DecidableEq α] [DecidableEq β] {f : α → β} {l : List α}
    (hf : Set.InjOn f {a | a ∈ l}) : (l.map f).eraseDups = l.eraseDups.map f := by
  induction l using List.reverseRecOn with
  | nil => rfl
  | append_singleton l a ih =>
    have hl := ih (hf.mono fun b hb => List.mem_append_left _ hb)
    have hmem : f a ∈ l.map f ↔ a ∈ l := by
      rw [List.mem_map]
      refine ⟨?_, fun ha => ⟨a, ha, rfl⟩⟩
      rintro ⟨b, hb, heq⟩
      exact hf (List.mem_append_left _ hb) (List.mem_append_right _ (List.mem_singleton_self a))
        heq ▸ hb
    rw [List.map_append, List.map_singleton, Description.eraseDups_concat,
      Description.eraseDups_concat, hl]
    by_cases ha : a ∈ l
    · rw [if_pos (hmem.2 ha), if_pos ha]
    · rw [if_neg (mt hmem.1 ha), if_neg ha, List.map_append, List.map_singleton]

/-- The ids of the devices and of the pins become those of the renamed devices and of the pins in
the other table. -/
structure Recoding.Renames (T : Recoding) (σ : Text → Text) (D : Description)
    (names names' : NameTable) : Prop where
  device : ∀ t ∈ D.names, T.device (names.idOf t) = names'.idOf (σ t)
  pin : ∀ t ∈ PinWord.inputs ++ PinWord.outputs, T.pin (names.idOf t) = names'.idOf t

namespace Description
variable {D : Description} {names names' : NameTable}

theorem exists_renames (hσ : D.Distinguishes σ) (hm : D.Meaningful) (hk : D.Known names)
    (hk' : (D.rename σ).Known names') : ∃ T : Recoding, T.Renames σ D names names' := by
  have hids : ∀ {names : NameTable} {D : Description}, D.Known names → D.Meaningful →
      (D.names.map names.idOf).Nodup := fun hk hm =>
    hm.names.map_on fun t ht u hu heq =>
      (NameTable.idOf_inj (hk.devices t ht) (hk.devices u hu)).1 heq
  obtain ⟨ρ, hρ, hmap⟩ := exists_injective_map (by simp [names_rename]) (hids hk hm)
    (hids hk' (hm.rename hσ))
  rw [names_rename, List.map_map, List.map_map, List.map_inj_left] at hmap
  refine ⟨.ofIds ρ (names.carry names') hρ (names.carry_injective names'), hmap, fun t ht => ?_⟩
  exact NameTable.carry_idOf (hk.pins t ht) (hk'.pins t ht)

variable {T : Recoding} (hT : T.Renames σ D names names')
include hT

theorem source_rename {p : Port} (h : D.HasOutput p) :
    (p.rename σ).source names' = T.source (p.source names) := by
  obtain ⟨d, hd, hname, hpin⟩ := h
  refine Source.mk.injEq .. |>.mpr ⟨?_, ?_⟩
  · exact (hT.device _ (hname ▸ List.mem_map_of_mem hd)).symm
  · show p.pin.map names'.idOf = (p.pin.map names.idOf).map T.pin
    rw [Option.map_map]
    refine Option.map_congr fun t ht => (hT.pin t ?_).symm
    rw [Option.mem_def.1 ht] at hpin
    exact List.mem_append_right _ (Declaration.mem_outputs_of_some hpin)

theorem monitor_rename {p : Port} (h : D.HasOutput p) :
    (p.rename σ).monitor names' = (p.monitor names).recode T := by
  obtain ⟨hdevice, hpin⟩ := Source.mk.injEq .. |>.mp (source_rename hT h)
  exact Monitor.mk.injEq .. |>.mpr ⟨hdevice, hpin, rfl⟩

variable (hσ : D.Distinguishes σ) (hm : D.Meaningful)
include hσ hm

theorem device_rename {d : Declaration} (hd : d ∈ D.devices) :
    (D.rename σ).device names' (d.rename σ) = (D.device names d).recode T := by
  have hname : d.name ∈ D.names := List.mem_map_of_mem hd
  refine Device.mk.injEq .. |>.mpr ⟨(hT.device _ hname).symm, rfl, ?_, ?_, rfl⟩
  · show _ = T.inputs (PinMap.putAll _ [])
    rw [T.inputs_putAll, T.inputs_nil, List.map_map]
    refine congrArg (PinMap.putAll · []) (List.map_congr_left fun pin hpin => Prod.ext ?_ ?_)
    · exact (hT.pin _ (List.mem_append_left _ (d.inputs_subset hpin))).symm
    · show ((D.rename σ).source? (σ d.name) pin).map (·.source names') =
        ((D.source? d.name pin).map (·.source names)).map T.source
      rw [source?_rename hσ hm hname, Option.map_map, Option.map_map]
      refine Option.map_congr fun p hp => source_rename hT ?_
      exact hm.sources _ ((source?_eq_some_iff hm.single).1 (Option.mem_def.1 hp))
  · show _ = T.outputs (PinMap.putAll _ [])
    rw [T.outputs_putAll, T.outputs_nil, List.map_map]
    refine congrArg (PinMap.putAll · []) (List.map_congr_left fun e he => Prod.ext ?_ rfl)
    show e.1.map names'.idOf = (e.1.map names.idOf).map T.pin
    rw [Option.map_map]
    refine Option.map_congr fun t ht => (hT.pin t ?_).symm
    have hmem : some t ∈ d.outputs.map (·.1) :=
      Option.mem_def.1 ht ▸ List.mem_map_of_mem (f := (·.1)) he
    exact List.mem_append_right _ (Declaration.mem_outputs_of_some hmem)

/-- The circuit of the renamed devices is the same under other ids. -/
theorem circuit_rename : (D.circuit names).Recodes T ((D.rename σ).circuit names') where
  devices := by
    refine Registry.mk.injEq .. |>.mpr ⟨(Pins.recode_ofNames hT.pin).symm, ?_, ?_⟩
    · simp only [circuit, rename, List.map_map]
      exact List.map_congr_left fun d hd => device_rename hT hσ hm hd
    · have hids : (D.rename σ).names.map names'.idOf = (D.names.map names.idOf).map T.device := by
        rw [names_rename, List.map_map, List.map_map]
        exact List.map_congr_left fun t ht => (hT.device t ht).symm
      show ((D.rename σ).names.map names'.idOf).zipIdx.reverse =
        ((D.names.map names.idOf).zipIdx.reverse).map _
      rw [hids, List.zipIdx_map, List.map_reverse]
      rfl
  monitors := by
    have hinj : Set.InjOn (Port.rename σ) {p | p ∈ D.monitors} := by
      intro p hp q hq heq
      obtain ⟨hdevice, hpin⟩ := Port.mk.injEq .. |>.mp heq
      exact Port.mk.injEq .. |>.mpr
        ⟨hσ (hm.monitors p hp).mem_names (hm.monitors q hq).mem_names hdevice, hpin⟩
    show ((D.monitors.map (Port.rename σ)).eraseDups).map _ = (D.monitors.eraseDups.map _).map _
    rw [eraseDups_map hinj, List.map_map, List.map_map]
    exact List.map_congr_left fun p hp =>
      monitor_rename hT (hm.monitors p (List.mem_eraseDups.1 hp))

theorem relabels_rename (hk : D.Known names) (hk' : (D.rename σ).Known names') :
    Session.Relabels σ T ⟨names, D.circuit names⟩ ⟨names', (D.rename σ).circuit names'⟩ where
  circuit := circuit_rename hT hσ hm
  pin := hT.pin
  known := by
    intro a ha
    obtain ⟨_, hdev, rfl⟩ := List.mem_map.1 ha
    obtain ⟨d, hd, rfl⟩ := List.mem_map.1 hdev
    have hname : d.name ∈ D.names := List.mem_map_of_mem hd
    exact ⟨d.name, hk.devices _ hname, rfl,
      hk'.devices _ (names_rename ▸ List.mem_map_of_mem hname), hT.device _ hname⟩

end Description

/-! ### Definitions -/

theorem Symbol.map_type_renameAll (σ : Text → Text) (dot : Bool) (xs : List Symbol) :
    (renameAll σ dot xs).map (·.type) = xs.map (·.type) := by
  induction xs generalizing dot with
  | nil => rfl
  | cons x xs ih =>
    rw [renameAll, List.map_cons, List.map_cons, ih]
    refine congrArg₂ List.cons ?_ rfl
    split <;> rfl

namespace Definition
variable {d : Definition} {names : NameTable} {built : Built} {sts : List Statement}

theorem Accepts.deviceNames_eq (h : d.Accepts names built sts) :
    built.session.deviceNames = (Description.ofStatements sts).names := by
  have hids : built.circuit.devices.ids =
      (Description.ofStatements sts).names.map built.names.idOf := by
    rw [h.circuit]
    simp [Description.circuit, Registry.ids, Description.device, Description.names]
  show built.circuit.devices.ids.map built.names.nameOf = _
  rw [hids, List.map_map]
  exact (List.map_congr_left fun t ht => NameTable.nameOf_idOf (h.known.devices t ht)).trans
    (List.map_id _)

/-- The renamed definition stands for the renamed description. -/
theorem Accepts.rename (h : d.Accepts names built sts)
    (hσ : (Description.ofStatements sts).Distinguishes σ)
    (hname : ∀ t ∈ (Description.ofStatements sts).names, (σ t).isName = true)
    (names' : NameTable) : ∃ built' sts', (d.rename σ).Accepts names' built' sts' ∧
      Description.ofStatements sts' = (Description.ofStatements sts).rename σ := by
  obtain ⟨hsentence, hnames⟩ := h.sentence.renames σ
  have hcontent : (d.rename σ).content = Symbol.renameAll σ false d.content :=
    content_rename h.valid fun t ht => hname t (h.meaningful.mem_names (hnames ▸ ht))
  have hvalid : ∀ x ∈ (d.rename σ).text.symbols.1, x.type ≠ .invalid := by
    rw [ne_invalid_iff, hcontent, ← List.forall_mem_map (P := (· ≠ SymbolType.invalid)),
      Symbol.map_type_renameAll, List.forall_mem_map]
    exact ne_invalid_iff.1 h.valid
  rw [content, content, ← Symbol.renameAll_placeless] at hcontent
  obtain ⟨sts', hsts', hplaces⟩ := hsentence.of_map_eq hcontent
  have hdescription : Description.ofStatements sts' = (Description.ofStatements sts).rename σ := by
    rw [← Description.ofStatements_placeless, hplaces, Description.ofStatements_placeless,
      Description.ofStatements_rename]
  obtain ⟨built', h'⟩ := accepts_of_sentence hvalid hsts'
    (hdescription ▸ h.meaningful.rename hσ) names'
  exact ⟨built', sts', h', hdescription⟩

/-- A definition that is built without errors is built without errors if its devices are given other
names, over whatever table, as long as different devices are given different ones. Any names will
do, also those of pins. The circuit has the same sketch under the other names, and commands by them
have the same story, cycle by cycle. Other names than those of devices are refused by both, if the
other name is not that of a device either. -/
theorem build_rename (hbuild : d.build names = .ok built) (hsuccess : built.success = true)
    (hσ : Set.InjOn σ {t | t ∈ built.session.deviceNames})
    (hname : ∀ t ∈ built.session.deviceNames, (σ t).isName = true) (names' : NameTable) :
    ∃ built', (d.rename σ).build names' = .ok built' ∧ built'.success = true ∧
      built'.session.sketch = built.session.sketch.rename σ ∧
      ∀ cs : List Command, (∀ c ∈ cs, ∀ t ∈ c.name?, ∀ u ∈ built.session.deviceNames,
          σ u = σ t → u = t) →
        built'.session.story (cs.map (Command.rename σ)) =
          (built.session.story cs).map (Moment.rename σ) := by
  obtain ⟨sts, h⟩ := exists_accepts hbuild hsuccess
  rw [h.deviceNames_eq] at hσ hname ⊢
  obtain ⟨built', sts', h', hdescription⟩ := h.rename hσ hname names'
  have hk' := hdescription ▸ h'.known
  obtain ⟨T, hT⟩ := Description.exists_renames hσ h.meaningful h.known hk'
  have hrelabels : Session.Relabels σ T built.session built'.session := by
    rw [Built.session, Built.session, h.circuit, h'.circuit, hdescription]
    exact Description.relabels_rename hT hσ h.meaningful h.known hk'
  have hr : built.session.Reachable := Session.reachable_of_build hbuild
  have hr' : built'.session.Reachable := Session.reachable_of_build h'.build
  refine ⟨built', h'.build, h'.success, hrelabels.sketch_eq hr.intact hr'.intact, fun cs hcs => ?_⟩
  exact hrelabels.story_eq hr hr' cs (h.deviceNames_eq ▸ hcs)

/-- A switch that takes the name of the pins that it is connected to, and a flip-flop that takes the
name of its own. The comment stays. -/
theorem build_rename_pinWords :
    let d : Definition := {
      text := .ofString "DEVICES: SWITCH S 0, DTYPE F; CONNECT: F.QBAR > F.DATA, S > F.CLK,
        S > F.SET, S > F.CLEAR; MONITOR: F.Q, S; !F and S! END;" }
    let σ : Text → Text := fun t => if t = .ofString "S" then .ofString "CLK" else .ofString "Q"
    (d.rename σ).text =
      .ofString "DEVICES: SWITCH CLK 0, DTYPE Q; CONNECT: Q.QBAR > Q.DATA, CLK > Q.CLK,
        CLK > Q.SET, CLK > Q.CLEAR; MONITOR: Q.Q, CLK; !F and S! END;" ∧
      ∃ built built', d.build {} = .ok built ∧ (d.rename σ).build {} = .ok built' ∧
        built'.success = true ∧ built'.session.sketch = built.session.sketch.rename σ ∧
        ∀ cs : List Command, (∀ c ∈ cs, ∀ t ∈ c.name?, t = .ofString "S") →
          built'.session.story (cs.map (Command.rename σ)) =
            (built.session.story cs).map (Moment.rename σ) := by
  intro d σ
  have htext : (d.rename σ).text =
      .ofString "DEVICES: SWITCH CLK 0, DTYPE Q; CONNECT: Q.QBAR > Q.DATA, CLK > Q.CLK,
        CLK > Q.SET, CLK > Q.CLEAR; MONITOR: Q.Q, CLK; !F and S! END;" := by
    decide +kernel
  have hbuilt : ∃ b ∈ (d.build {}).toOption, b.success = true ∧
      (∀ t ∈ b.session.deviceNames, ∀ u ∈ b.session.deviceNames, σ t = σ u → t = u) ∧
      (∀ t ∈ b.session.deviceNames, (σ t).isName = true) ∧
      ∀ u ∈ b.session.deviceNames, σ u = σ (.ofString "S") → u = .ofString "S" := by
    decide +kernel
  obtain ⟨built, hmem, hsuccess, hinj, hname, hswitch⟩ := hbuilt
  have hbuild : d.build {} = .ok built := by
    cases hb : d.build {} with
    | error f => rw [hb] at hmem; cases hmem
    | ok b => rw [hb] at hmem; exact congrArg Except.ok (Option.some.inj hmem)
  obtain ⟨built', hbuild', hsuccess', hsketch, hstory⟩ :=
    build_rename hbuild hsuccess (fun t ht u hu heq => hinj t ht u hu heq) hname {}
  refine ⟨htext, built, built', hbuild, hbuild', hsuccess', hsketch, fun cs hcs => ?_⟩
  refine hstory cs fun c hc t ht u hu heq => ?_
  rw [hcs c hc t ht] at heq ⊢
  exact hswitch u hu heq

end Definition

end GateSim
