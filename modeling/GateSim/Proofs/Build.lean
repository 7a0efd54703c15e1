import GateSim.Proofs.Description
import GateSim.Proofs.Draft

/-!
# What is built

A draft that has performed a meaningful description is its circuit, and the next statement leads to
an error exactly if it does not fit (`Description.perform_of_fits`,
`Description.perform_of_not_fits`). So a definition is built without errors exactly if it is a
sentence of the grammar that makes sense, and what is built then is the circuit that it describes.
-/

namespace GateSim

open Grammar

structure Symbol.Seen (names : NameTable) (x : Symbol) : Prop where
  named : x.type.isNamed = true
  known : x.text ∈ names.texts

theorem Symbol.Seen.id_eq {names : NameTable} {x : Symbol} (h : x.Seen names) :
    x.id names = names.idOf x.text :=
  if_pos h.named

namespace Statement

/-- What the grammar ensures of a statement whose texts have been seen. -/
structure Proper (names : NameTable) (st : Statement) : Prop where
  seen : ∀ x ∈ st.symbols, x.Seen names
  takes : ∀ kind name parameter, st = .device kind name parameter →
    kind.Takes ((parameter.map (·.text)).getD [])

theorem Proper.of_connection {names : NameTable} {source target targetPin : Symbol}
    {sourcePin : Option Symbol}
    (h : (Statement.connection source sourcePin target targetPin).Proper names) :
    source.Seen names ∧ target.Seen names ∧ targetPin.Seen names ∧
      ∀ x ∈ sourcePin, x.Seen names := by
  simpa [symbols] using h.seen

theorem Proper.of_monitor {names : NameTable} {name : Symbol} {pin : Option Symbol}
    (h : (Statement.monitor name pin).Proper names) :
    name.Seen names ∧ ∀ x ∈ pin, x.Seen names := by
  simpa [symbols] using h.seen

end Statement

namespace Description
variable {D : Description} {names : NameTable}

/-- The draft that has performed the statements of a description. -/
def draft (D : Description) (names : NameTable) : Draft where
  circuit := D.circuit names
  declared := (D.names.map names.idOf).reverse

theorem mem_texts_of_pin {device : Symbol} {pin : Option Symbol} (h : ∀ x ∈ pin, x.Seen names) :
    ∀ t ∈ (Port.ofSymbols device pin).pin, t ∈ names.texts := by
  intro t hm
  obtain ⟨x, hx, rfl⟩ := Option.map_eq_some_iff.1 hm
  exact (h x hx).known

theorem map_id_eq {pin : Option Symbol} (h : ∀ x ∈ pin, x.Seen names) :
    pin.map (·.id names) = (pin.map (·.text)).map names.idOf := by
  cases pin with
  | none => rfl
  | some x => exact congrArg some (h x rfl).id_eq

/-! ### Declarations -/

section device
variable {kind : Kind} {name : Symbol} {parameter : Option Symbol}

theorem source?_eq_none_iff {device pin : Text} :
    D.source? device pin = none ↔ (device, pin) ∉ D.targets := by
  simp only [source?, Option.map_eq_none_iff, List.find?_eq_none, targets, List.mem_map]
  simp

theorem Meaningful.source?_eq_none (h : D.Meaningful) {t : Text} (ht : t ∉ D.names) (pin : Text) :
    D.source? t pin = none := by
  rw [source?_eq_none_iff]
  intro hm
  obtain ⟨c, hc, heq⟩ := List.mem_map.1 hm
  obtain ⟨d, hd, hname, -⟩ := h.targets c hc
  exact ht (List.mem_map.2 ⟨d, hd, hname.trans (congrArg Prod.fst heq)⟩)

theorem mem_declared_iff (h : Known names D) {t : Text} (ht : t ∈ names.texts) :
    names.idOf t ∈ (D.draft names).declared ↔ t ∈ D.names := by
  rw [draft, List.mem_reverse, ← h.mem_ids_iff ht]
  simp [circuit, Registry.ids, device, Description.names]

theorem create_eq (hD : D.Meaningful) (hk : Known names D)
    (hw : (D.circuit names).devices.WellFormed) (hn : name.text ∈ names.texts)
    (ht : kind.Takes ((parameter.map (·.text)).getD []))
    (hf : D.Fits (.device kind name parameter)) :
    (D.circuit names).create kind (names.idOf name.text) ((parameter.map (·.text)).getD []) =
      (.ok (), (D.add (.device kind name parameter)).circuit names) := by
  have hfresh : (D.circuit names).devices.has (names.idOf name.text) = false :=
    Bool.eq_false_iff.2 fun hhas => hf.1 ((hk.has_iff hw hn).1 hhas)
  have hmake := make_eq D names
    (d := ⟨kind, name.text, (parameter.map (·.text)).getD []⟩) ht hf.2
    fun pin _ => hD.source?_eq_none hf.1 pin
  have hcreate := Registry.create_eq_ok_iff.2 ⟨hfresh, _, hmake, rfl⟩
  rw [Circuit.create, hcreate]
  have hdevice : (D.add (.device kind name parameter)).device names = D.device names := rfl
  simp only [circuit, hdevice]
  simp [add, Description.names, List.zipIdx_append, Registry.size]

theorem device_of_fits (hD : D.Meaningful) (hk : Known names D)
    (hw : (D.circuit names).devices.WellFormed)
    (hst : (Statement.device kind name parameter).Proper names)
    (hf : D.Fits (.device kind name parameter)) :
    (D.draft names).device names kind name parameter =
      .ok ((D.add (.device kind name parameter)).draft names, none) := by
  have hseen := hst.seen name (List.mem_cons_self ..)
  have hn := hseen.known
  have hdecl : ¬ (D.draft names).declared.contains (names.idOf name.text) = true := fun hc =>
    hf.1 ((mem_declared_iff hk hn).1 (List.contains_iff_mem.1 hc))
  simp only [Draft.device, hseen.id_eq, if_neg hdecl]
  rw [show (D.draft names).circuit = D.circuit names from rfl,
    create_eq hD hk hw hn (hst.takes _ _ _ rfl) hf]
  simp [draft, add, Description.names]

theorem device_of_not_fits (hk : Known names D) (hw : (D.circuit names).devices.WellFormed)
    (hst : (Statement.device kind name parameter).Proper names)
    (hf : ¬ D.Fits (.device kind name parameter)) :
    ∃ d f, (D.draft names).device names kind name parameter = .ok (d, some f) ∧
      f.severity = .error := by
  have hseen := hst.seen name (List.mem_cons_self ..)
  have hn := hseen.known
  simp only [Draft.device, hseen.id_eq]
  split
  · exact ⟨_, _, rfl, rfl⟩
  next hdecl =>
  have hfresh : name.text ∉ D.names := fun hm =>
    hdecl (List.contains_iff_mem.2 ((mem_declared_iff hk hn).2 hm))
  have hhas : (D.circuit names).devices.has (names.idOf name.text) = false :=
    Bool.eq_false_iff.2 fun hhas => hfresh ((hk.has_iff hw hn).1 hhas)
  obtain ⟨f, hp⟩ := State.ofParameter_of_not_accepts (hst.takes _ _ _ rfl) fun ha => hf ⟨hfresh, ha⟩
  have hcreate : (D.circuit names).create kind (names.idOf name.text)
      ((parameter.map (·.text)).getD []) = (.error (.parameter f), D.circuit names) := by
    simp [Circuit.create, Registry.create, hhas, Device.make, hp, bind, Except.bind]
  rw [show (D.draft names).circuit = D.circuit names from rfl, hcreate]
  exact ⟨_, _, rfl, rfl⟩

end device

/-! ### Names that stand for devices and pins -/

section lookup
variable {device : Symbol}

theorem undefined_eq (hk : Known names D) (hw : (D.circuit names).devices.WellFormed)
    (hx : device.Seen names) :
    (D.draft names).undefined names device =
      if device.text ∈ D.names then none else some (some (.undefinedDevice device)) := by
  have hhas : (D.draft names).circuit.devices.has (names.idOf device.text) = true ↔
      device.text ∈ D.names := hk.has_iff hw hx.known
  simp only [Draft.undefined, hx.id_eq, hhas]
  rfl

theorem noOutput_eq_none_iff (hk : Known names D) (hw : (D.circuit names).devices.WellFormed)
    {pin : Option Symbol} (hx : device.Seen names) (hp : ∀ x ∈ pin, x.Seen names)
    (hd : device.text ∈ D.names) :
    (D.draft names).noOutput names device pin = none ↔ D.HasOutput (.ofSymbols device pin) := by
  have hout : (D.draft names).circuit.devices.isOutput (names.idOf device.text)
      ((pin.map (·.text)).map names.idOf) = true ↔ D.HasOutput (.ofSymbols device pin) :=
    hk.isOutput_iff hw hx.known (mem_texts_of_pin hp)
  obtain ⟨dev, hdev⟩ := hw.exists_device?_of_has ((hk.has_iff hw hx.known).2 hd)
  simp only [Draft.noOutput, hx.id_eq, map_id_eq hp]
  rw [show (D.draft names).circuit = D.circuit names from rfl] at hout ⊢
  split
  · next h => exact ⟨fun _ => hout.1 h, fun _ => rfl⟩
  · next h => simp [hdev, mt hout.2 h]

theorem noInput_eq_none_iff (hk : Known names D) (hw : (D.circuit names).devices.WellFormed)
    {pin : Symbol} (hx : device.Seen names) (hp : pin.Seen names) (hd : device.text ∈ D.names) :
    (D.draft names).noInput names device pin = none ↔ D.HasInput device.text pin.text := by
  have hin : (D.draft names).circuit.devices.isInput (names.idOf device.text)
      (names.idOf pin.text) = true ↔ D.HasInput device.text pin.text :=
      hk.isInput_iff hw hx.known hp.known
  obtain ⟨dev, hdev⟩ := hw.exists_device?_of_has ((hk.has_iff hw hx.known).2 hd)
  simp only [Draft.noInput, hx.id_eq, hp.id_eq]
  rw [show (D.draft names).circuit = D.circuit names from rfl] at hin ⊢
  split
  · next h => exact ⟨fun _ => hin.1 h, fun _ => rfl⟩
  · next h => simp [hdev, mt hin.2 h]

theorem HasOutput.mem_names {p : Port} (h : D.HasOutput p) : p.device ∈ D.names := by
  obtain ⟨d, hd, hname, -⟩ := h
  exact List.mem_map.2 ⟨d, hd, hname⟩

theorem HasInput.mem_names {device pin : Text} (h : D.HasInput device pin) : device ∈ D.names := by
  obtain ⟨d, hd, hname, -⟩ := h
  exact List.mem_map.2 ⟨d, hd, hname⟩

theorem severity_of_noOutput {d : Draft} {pin : Option Symbol} {f : SemanticFault}
    (h : d.noOutput names device pin = some f) : f.severity = .error := by
  simp only [Draft.noOutput] at h
  split at h
  · cases h
  · obtain ⟨dev, -, rfl⟩ := Option.map_eq_some_iff.1 h
    cases pin <;> rfl

theorem severity_of_noInput {d : Draft} {pin : Symbol} {f : SemanticFault}
    (h : d.noInput names device pin = some f) : f.severity = .error := by
  simp only [Draft.noInput] at h
  split at h
  · cases h
  · obtain ⟨dev, -, rfl⟩ := Option.map_eq_some_iff.1 h
    rfl

end lookup

/-! ### Connections -/

section connection
variable {source target targetPin : Symbol} {sourcePin : Option Symbol}

theorem get?_inputs (hk : Known names D)
    (hw : (D.circuit names).devices.WellFormed) {device pin : Text} (ht : device ∈ names.texts)
    (h : D.HasInput device pin) :
    ∃ d, (D.circuit names).devices.device? (names.idOf device) = some d ∧
      d.inputs.get? (names.idOf pin) = some ((D.source? device pin).map (·.source names)) := by
  obtain ⟨d, hd, rfl, hpin⟩ := h
  refine ⟨D.device names d, hw.device?_eq_some_iff.2 ⟨List.mem_map_of_mem hd, rfl⟩, ?_⟩
  exact PinMap.get?_putAll_map (fun pin' hpin' heq => hk.inputs_inj d pin' hpin' pin hpin heq) hpin

theorem source?_add_self (h : (target.text, targetPin.text) ∉ D.targets) :
    (D.add (.connection source sourcePin target targetPin)).source? target.text targetPin.text =
      some (.ofSymbols source sourcePin) := by
  rw [← source?_eq_none_iff, source?, Option.map_eq_none_iff] at h
  simp only [source?, add, List.find?_append, h]
  simp

theorem source?_add_of_ne {device pin : Text}
    (h : ¬ (target.text = device ∧ targetPin.text = pin)) :
    (D.add (.connection source sourcePin target targetPin)).source? device pin =
      D.source? device pin := by
  simp [source?, add, List.find?_append, h]

/-- A connection puts its source in at its target. -/
theorem device_add_target (hD : D.Meaningful) (hk : Known names D)
    (hf : D.Fits (.connection source sourcePin target targetPin)) {d : Declaration}
    (hd : d ∈ D.devices) (hname : d.name = target.text) :
    (D.add (.connection source sourcePin target targetPin)).device names d =
      { D.device names d with
        inputs := (D.device names d).inputs.put (names.idOf targetPin.text)
          (some ⟨names.idOf source.text, (sourcePin.map (·.text)).map names.idOf⟩) } := by
  obtain ⟨-, ⟨d', hd', hname', hpin'⟩, hfree⟩ := hf
  obtain rfl := List.inj_on_of_nodup_map hD.names hd' hd (hname'.trans hname.symm)
  refine Device.mk.injEq .. |>.mpr ⟨rfl, rfl, Eq.symm ?_, rfl, rfl⟩
  refine PinMap.put_putAll_map (hk.inputs_inj d') hpin' ?_ fun t _ hne => ?_
  · rw [hname', source?_add_self hfree]
    rfl
  · rw [source?_add_of_ne fun h => hne h.2.symm]

theorem device_add_of_ne {d : Declaration} (hname : target.text ≠ d.name) :
    (D.add (.connection source sourcePin target targetPin)).device names d = D.device names d := by
  refine Device.mk.injEq .. |>.mpr ⟨rfl, rfl, ?_, rfl, rfl⟩
  refine congrArg (PinMap.putAll · []) (List.map_congr_left fun t _ => ?_)
  rw [source?_add_of_ne fun h => hname h.1]

theorem connect_eq (hD : D.Meaningful) (hk : Known names D)
    (hw : (D.circuit names).devices.WellFormed)
    (hst : (Statement.connection source sourcePin target targetPin).Proper names)
    (hf : D.Fits (.connection source sourcePin target targetPin)) :
    (D.circuit names).connect (names.idOf source.text) ((sourcePin.map (·.text)).map names.idOf)
        (names.idOf target.text) (names.idOf targetPin.text) =
      (.ok, (D.add (.connection source sourcePin target targetPin)).circuit names) := by
  have ⟨hout, hin, hfree⟩ := hf
  obtain ⟨hs, ht, htp, hsp⟩ := hst.of_connection
  obtain ⟨d, hd, hget⟩ := get?_inputs hk hw ht.known hin
  rw [source?_eq_none_iff.2 hfree] at hget
  have hisOutput := (hk.isOutput_iff hw hs.known (mem_texts_of_pin hsp)).2 hout
  have hconnect : (D.circuit names).devices.connect (names.idOf source.text)
      ((sourcePin.map (·.text)).map names.idOf) (names.idOf target.text)
      (names.idOf targetPin.text) = _ := hw.connect_of_free hisOutput hd hget
  rw [Circuit.connect, hconnect]
  refine Prod.mk.injEq .. |>.mpr ⟨rfl, Circuit.mk.injEq .. |>.mpr ⟨?_, rfl, rfl⟩⟩
  refine Registry.mk.injEq .. |>.mpr ⟨rfl, ?_, rfl⟩
  simp only [circuit, List.map_map]
  refine List.map_congr_left fun d hd => ?_
  show (if (D.device names d).id = names.idOf target.text then _ else _) = _
  split
  · next hid => exact (device_add_target hD hk hf hd ((hk.id_eq_iff hd ht.known).1 hid)).symm
  · next hid =>
    have hname : target.text ≠ d.name := fun h => hid ((hk.id_eq_iff hd ht.known).2 h.symm)
    exact (device_add_of_ne hname).symm

theorem connection_of_fits (hD : D.Meaningful) (hk : Known names D)
    (hw : (D.circuit names).devices.WellFormed)
    (hst : (Statement.connection source sourcePin target targetPin).Proper names)
    (hf : D.Fits (.connection source sourcePin target targetPin)) :
    (D.draft names).connection names source sourcePin target targetPin =
      .ok ((D.add (.connection source sourcePin target targetPin)).draft names, none) := by
  have hconnect := connect_eq hD hk hw hst hf
  obtain ⟨hout, hin, -⟩ := hf
  obtain ⟨hs, ht, htp, hsp⟩ := hst.of_connection
  have hus := (undefined_eq hk hw hs).trans (if_pos hout.mem_names)
  have hut := (undefined_eq hk hw ht).trans (if_pos hin.mem_names)
  have hno := (noOutput_eq_none_iff hk hw hs hsp hout.mem_names).2 hout
  have hni := (noInput_eq_none_iff hk hw ht htp hin.mem_names).2 hin
  simp only [Draft.connection, hus, hut, hno, hni, Option.or_none, hs.id_eq, ht.id_eq, htp.id_eq,
    map_id_eq hsp]
  rw [show (D.draft names).circuit = D.circuit names from rfl, hconnect]
  rfl

theorem connection_of_not_fits (hk : Known names D) (hw : (D.circuit names).devices.WellFormed)
    (hst : (Statement.connection source sourcePin target targetPin).Proper names)
    (hf : ¬ D.Fits (.connection source sourcePin target targetPin)) :
    ∃ d f, (D.draft names).connection names source sourcePin target targetPin = .ok (d, some f) ∧
      f.severity = .error := by
  obtain ⟨hs, ht, htp, hsp⟩ := hst.of_connection
  by_cases hms : source.text ∈ D.names
  case neg =>
    refine ⟨D.draft names, .undefinedDevice source, ?_, rfl⟩
    simp only [Draft.connection, undefined_eq hk hw hs, if_neg hms, Option.some_or]
  by_cases hmt : target.text ∈ D.names
  case neg =>
    refine ⟨D.draft names, .undefinedDevice target, ?_, rfl⟩
    simp only [Draft.connection, undefined_eq hk hw hs, if_pos hms, undefined_eq hk hw ht,
      if_neg hmt, Option.none_or]
  have hno := noOutput_eq_none_iff hk hw hs hsp hms
  have hni := noInput_eq_none_iff hk hw ht htp hmt
  simp only [Draft.connection, undefined_eq hk hw hs, if_pos hms, undefined_eq hk hw ht,
    if_pos hmt, Option.none_or]
  cases hout : (D.draft names).noOutput names source sourcePin with
  | some f => exact ⟨_, f, rfl, severity_of_noOutput hout⟩
  | none =>
  cases hin : (D.draft names).noInput names target targetPin with
  | some f => exact ⟨_, f, rfl, severity_of_noInput hin⟩
  | none =>
  have hout' := hno.1 hout
  have hin' := hni.1 hin
  have htaken : (target.text, targetPin.text) ∈ D.targets :=
    Decidable.not_not.1 fun hfree => hf ⟨hout', hin', hfree⟩
  obtain ⟨p, hp⟩ := Option.ne_none_iff_exists'.1 (mt source?_eq_none_iff.1 (not_not_intro htaken))
  obtain ⟨d, hd, hget⟩ := get?_inputs hk hw ht.known hin'
  rw [hp] at hget
  have hisOutput := (hk.isOutput_iff hw hs.known (mem_texts_of_pin hsp)).2 hout'
  have hconnect : (D.circuit names).devices.connect (names.idOf source.text)
      ((sourcePin.map (·.text)).map names.idOf) (names.idOf target.text)
      (names.idOf targetPin.text) = _ := Registry.connect_of_taken hisOutput hd hget
  simp only [hs.id_eq, ht.id_eq, htp.id_eq, map_id_eq hsp, Circuit.connect]
  rw [show (D.draft names).circuit = D.circuit names from rfl, hconnect]
  exact ⟨_, _, rfl, rfl⟩

end connection

/-! ### Monitors -/

section monitor
variable {name : Symbol} {pin : Option Symbol}

theorem Known.mem_texts_of_hasOutput (hk : Known names D) {p : Port} (h : D.HasOutput p) :
    p.device ∈ names.texts ∧ ∀ t ∈ p.pin, t ∈ names.texts := by
  refine ⟨hk.devices _ h.mem_names, fun t ht => ?_⟩
  obtain ⟨d, -, -, hpin⟩ := h
  rw [Option.mem_def.1 ht] at hpin
  exact hk.pins t (List.mem_append_right _ (Declaration.mem_outputs_of_some hpin))

theorem Known.port_inj (hk : Known names D) {p p' : Port} (h : D.HasOutput p)
    (h' : D.HasOutput p') (hd : names.idOf p.device = names.idOf p'.device)
    (hp : p.pin.map names.idOf = p'.pin.map names.idOf) : p = p' := by
  obtain ⟨hdev, hpin⟩ := hk.mem_texts_of_hasOutput h
  obtain ⟨hdev', hpin'⟩ := hk.mem_texts_of_hasOutput h'
  obtain ⟨device, pin⟩ := p
  obtain ⟨device', pin'⟩ := p'
  obtain rfl := (NameTable.idOf_inj hdev hdev').1 hd
  cases pin with
  | none =>
    cases pin' with
    | none => rfl
    | some t' => cases hp
  | some t =>
    cases pin' with
    | none => cases hp
    | some t' =>
      obtain rfl := (NameTable.idOf_inj (hpin t rfl) (hpin' t' rfl)).1 (Option.some.inj hp)
      rfl

theorem isMonitored_iff (hD : D.Meaningful) (hk : Known names D) {p : Port} (h : D.HasOutput p) :
    (D.circuit names).monitors.isMonitored (names.idOf p.device) (p.pin.map names.idOf) = true ↔
      p ∈ D.monitors := by
  rw [Monitors.isMonitored, Monitors.find?, List.find?_isSome]
  constructor
  · rintro ⟨m, hm, hw⟩
    obtain ⟨p', hp', rfl⟩ := List.mem_map.1 hm
    rw [List.mem_eraseDups] at hp'
    simp only [Monitor.watches, Port.monitor, Bool.and_eq_true, beq_iff_eq] at hw
    exact hk.port_inj (hD.monitors p' hp') h hw.1 hw.2 ▸ hp'
  · intro hm
    refine ⟨_, List.mem_map_of_mem (List.mem_eraseDups.2 hm), ?_⟩
    simp [Monitor.watches, Port.monitor]

theorem eraseDups_concat {α : Type} [DecidableEq α] (l : List α) (a : α) :
    (l ++ [a]).eraseDups = if a ∈ l then l.eraseDups else l.eraseDups ++ [a] := by
  rw [List.eraseDups_append]
  by_cases h : a ∈ l
  · simp [List.removeAll, h]
  · have hnew : [a].removeAll l = [a] := by simp [List.removeAll, h]
    rw [if_neg h, hnew]
    rfl

theorem monitor_of_fits (hD : D.Meaningful) (hk : Known names D)
    (hw : (D.circuit names).devices.WellFormed) (hst : (Statement.monitor name pin).Proper names)
    (hf : D.Fits (.monitor name pin)) :
    ∃ f, (D.draft names).monitor names name pin =
        .ok ((D.add (.monitor name pin)).draft names, f) ∧ ∀ x ∈ f, x.severity = .warning := by
  have hf : D.HasOutput (.ofSymbols name pin) := hf
  obtain ⟨hs, hp⟩ := hst.of_monitor
  have hu := (undefined_eq hk hw hs).trans (if_pos hf.mem_names)
  have hno := (noOutput_eq_none_iff hk hw hs hp hf.mem_names).2 hf
  have hout : (D.circuit names).devices.isOutput (names.idOf name.text)
      ((pin.map (·.text)).map names.idOf) = true := 
    (hk.isOutput_iff hw hs.known (mem_texts_of_pin hp)).2 hf
  have hmon : (D.circuit names).monitors.isMonitored (names.idOf name.text)
      ((pin.map (·.text)).map names.idOf) = true ↔ _ := isMonitored_iff hD hk hf
  simp only [Draft.monitor, hu, hno, hs.id_eq, map_id_eq hp]
  rw [show (D.draft names).circuit = D.circuit names from rfl, Circuit.monitor_of_isOutput hout]
  by_cases hm : Port.ofSymbols name pin ∈ D.monitors
  · have heq : (D.add (.monitor name pin)).draft names = D.draft names := by
      simp only [draft, circuit, add, eraseDups_concat, if_pos hm]
      rfl
    rw [if_pos (hmon.2 hm), heq]
    exact ⟨_, rfl, by rintro x ⟨⟩; rfl⟩
  · rw [if_neg (mt hmon.1 hm)]
    refine ⟨none, ?_, by simp⟩
    simp only [draft, circuit, add, eraseDups_concat, if_neg hm, List.map_append]
    rfl

theorem monitor_of_not_fits (hk : Known names D) (hw : (D.circuit names).devices.WellFormed)
    (hst : (Statement.monitor name pin).Proper names) (hf : ¬ D.Fits (.monitor name pin)) :
    ∃ d f, (D.draft names).monitor names name pin = .ok (d, some f) ∧ f.severity = .error := by
  obtain ⟨hs, hp⟩ := hst.of_monitor
  by_cases hm : name.text ∈ D.names
  case neg =>
    refine ⟨D.draft names, .undefinedDevice name, ?_, rfl⟩
    simp only [Draft.monitor, undefined_eq hk hw hs, if_neg hm]
  simp only [Draft.monitor, undefined_eq hk hw hs, if_pos hm]
  cases hno : (D.draft names).noOutput names name pin with
  | some f => exact ⟨_, f, rfl, severity_of_noOutput hno⟩
  | none => exact absurd ((noOutput_eq_none_iff hk hw hs hp hm).1 hno) hf

end monitor

/-! ### Runs of statements -/

theorem perform_of_fits {st : Statement} (hD : D.Meaningful) (hk : Known names D)
    (hw : (D.circuit names).devices.WellFormed) (hst : st.Proper names) (hf : D.Fits st) :
    ∃ f, (D.draft names).perform names st = .ok ((D.add st).draft names, f) ∧
      ∀ x ∈ f, x.severity = .warning := by
  cases st with
  | device kind name parameter => exact ⟨none, device_of_fits hD hk hw hst hf, by simp⟩
  | connection source sourcePin target targetPin =>
    exact ⟨none, connection_of_fits hD hk hw hst hf, by simp⟩
  | monitor name pin => exact monitor_of_fits hD hk hw hst hf

theorem perform_of_not_fits {st : Statement} (hk : Known names D)
    (hw : (D.circuit names).devices.WellFormed) (hst : st.Proper names) (hf : ¬ D.Fits st) :
    ∃ d f, (D.draft names).perform names st = .ok (d, some f) ∧ f.severity = .error := by
  cases st with
  | device kind name parameter => exact device_of_not_fits hk hw hst hf
  | connection source sourcePin target targetPin => exact connection_of_not_fits hk hw hst hf
  | monitor name pin => exact monitor_of_not_fits hk hw hst hf

theorem Known.add {st : Statement} (hk : Known names D) (hst : st.Proper names) :
    Known names (D.add st) := by
  refine ⟨hk.pins, fun t ht => ?_⟩
  cases st with
  | device kind name parameter =>
    rw [Description.names, Description.add, List.map_append, List.mem_append] at ht
    rcases ht with ht | ht
    · exact hk.devices t ht
    · rw [List.mem_singleton.1 ht]
      exact (hst.seen name (List.mem_cons_self ..)).known
  | connection source sourcePin target targetPin => exact hk.devices t ht
  | monitor name pin => exact hk.devices t ht

/-- The statements lead to no error exactly if each fits after those before it, and then the draft
is that of their description. -/
theorem run_statements {text : Definition} {sts : List Statement} {d : Draft} {ds : Diagnostics}
    (hD : D.Meaningful) (hk : Known names D) (hs : (D.draft names).Sound)
    (hsts : ∀ st ∈ sts, st.Proper names)
    (hr : (D.draft names).run text names (sts.map fun st => .note (.complete st)) = .ok (d, ds)) :
    (ds.hasErrors = false ↔ D.FitAll sts) ∧
      (D.FitAll sts → d = (sts.foldl Description.add D).draft names) := by
  induction sts generalizing D d ds with
  | nil =>
    cases hr
    exact ⟨⟨fun _ => trivial, fun _ => rfl⟩, fun _ => rfl⟩
  | cons st sts ih =>
    obtain ⟨hst, hsts⟩ := List.forall_mem_cons.1 hsts
    obtain ⟨d₁, f, hp, hd₁⟩ := Draft.perform_ok names hs st
    obtain ⟨d₂, ds₂, hr₂, -⟩ := Draft.run_ok text names hd₁.sound
      (sts.map fun st => .note (.complete st))
    rw [List.map_cons, Draft.run_cons (Draft.step_complete hp) hr₂] at hr
    cases hr
    by_cases hf : D.Fits st
    · obtain ⟨f', hp', hwarn⟩ := perform_of_fits hD hk hs.devices hst hf
      rw [hp] at hp'
      cases hp'
      obtain ⟨herrors, hdraft⟩ := ih (hD.add hf) (hk.add hst) hd₁.sound hsts hr₂
      refine ⟨?_, fun h => hdraft h.2⟩
      rw [Diagnostics.hasErrors_eq_false_iff] at herrors ⊢
      simp only [List.forall_mem_append, FitAll, hf, true_and, ← herrors, and_iff_right_iff_imp]
      intro _ x hx
      obtain ⟨f', hf', rfl⟩ := Option.map_eq_some_iff.1 (Option.mem_toList.1 hx)
      simp [Diagnostic.isError, Definition.diagnose, hwarn f' hf']
    · obtain ⟨d', f', hp', herr⟩ := perform_of_not_fits hk hs.devices hst hf
      rw [hp] at hp'
      cases hp'
      refine ⟨iff_of_false (fun h => ?_) fun h => hf h.1, fun h => absurd h.1 hf⟩
      rw [Diagnostics.hasErrors_eq_false_iff] at h
      have := h _ (List.mem_append_left _ (Option.mem_toList.2 rfl))
      simp [Diagnostic.isError, Definition.diagnose, herr] at this

end Description

theorem Built.success_iff {b : Built} : b.success = true ↔ b.diagnostics.hasErrors = false := by
  simp [success]

namespace Definition
variable (d : Definition) (names : NameTable)

/-- The statements of a sentence have named symbols with known texts, and parameters of their
kinds. -/
theorem proper_of_isSentence {sts : List Statement}
    (hv : ∀ x ∈ d.text.symbols.1, x.type ≠ .invalid) (h : IsSentence d.text.symbols.1 sts) :
    ∀ st ∈ sts, st.Proper (d.names names) := by
  intro st hst
  obtain ⟨s, xs, hxs, hs⟩ := h.exists_isStatement hst
  refine ⟨fun x hx => ⟨(hs.mem x hx).2, ?_⟩, ?_⟩
  · rw [names_eq hv h]
    refine NameTable.mem_insertAll.2 (Or.inr (List.mem_map.2 ⟨x, ?_, rfl⟩))
    exact List.mem_filter.2 ⟨hxs (hs.mem x hx).1, (hs.mem x hx).2⟩
  · rintro kind name parameter rfl
    cases hs with
    | @device _ k _ ys _ hk hn hp =>
      cases hp with
      | @number x ht hx hz =>
        have hmem : x ∈ d.text.symbols.1 := hxs (by simp)
        refine ⟨fun _ => Scanner.isNumber_of_mem_symbols hmem hx, fun h => ?_, fun h => ?_⟩
        · rw [ht] at h; cases h
        · simpa [Text.IsPlain, Symbol.hasLeadingZero] using hz h
      | none ht =>
        refine ⟨fun h => ?_, fun _ => rfl, fun _ hlt => ?_⟩
        · rw [ht] at h; cases h
        · exact absurd hlt (by simp)

/-- A definition is always built. It has no error exactly if no symbol is invalid, the symbols are
a sentence and the sentence makes sense. Then the texts of its statements have ids, and the circuit
is the one that they describe. -/
theorem build_correct : ∃ built, d.build names = .ok built ∧
    (built.success = true ↔ (∀ x ∈ d.text.symbols.1, x.type ≠ .invalid) ∧
      ∃ sts, IsSentence d.text.symbols.1 sts ∧ (Description.ofStatements sts).Meaningful) ∧
    (built.success = true → ∀ sts, IsSentence d.text.symbols.1 sts →
      built.names.KnowsPins ∧ (∀ st ∈ sts, ∀ x ∈ st.symbols, x.text ∈ built.names.texts) ∧
      built.circuit = (Description.ofStatements sts).circuit built.names) := by
  obtain ⟨draft, ds, hrun, hbuild⟩ := d.build_eq names
  refine ⟨_, hbuild, ?_⟩
  have hk : Description.Known (d.names names) {} := ⟨d.knowsPins_names names, fun _ h => by cases h⟩
  have hs : (Description.draft {} (d.names names)).Sound :=
    Draft.sound_empty (d.knowsPins_names names)
  have hsentence : ∀ sts, (∀ x ∈ d.text.symbols.1, x.type ≠ .invalid) →
      IsSentence d.text.symbols.1 sts →
      (ds.hasErrors = false ↔ (Description.ofStatements sts).Meaningful) ∧
      (ds.hasErrors = false → draft = (Description.ofStatements sts).draft (d.names names)) := by
    intro sts hv hsts
    rw [events_eq hv hsts] at hrun
    obtain ⟨herrors, hdraft⟩ := Description.run_statements Description.meaningful_empty hk hs
      (d.proper_of_isSentence names hv hsts) hrun
    rw [Description.fitAll_iff Description.meaningful_empty hsts.pairwise_isDevice] at herrors hdraft
    exact ⟨herrors, fun h => hdraft (herrors.1 h)⟩
  have hregular : ds.hasErrors = false → d.Regular := d.regular_of_run names hrun
  rw [Built.success_iff]
  refine ⟨⟨fun h => ?_, ?_⟩, fun h sts hsts => ?_⟩
  · obtain ⟨sts, hsts⟩ := (hregular h).exists_isSentence
    exact ⟨(hregular h).ne_invalid, sts, hsts,
      (hsentence sts (hregular h).ne_invalid hsts).1.1 h⟩
  · rintro ⟨hv, sts, hsts, hm⟩
    exact (hsentence sts hv hsts).1.2 hm
  · have hv := (hregular h).ne_invalid
    refine ⟨d.knowsPins_names names, fun st hst x hx => ?_, ?_⟩
    · exact ((d.proper_of_isSentence names hv hsts st hst).seen x hx).known
    · rw [(hsentence sts hv hsts).2 h]
      rfl

end Definition

end GateSim
