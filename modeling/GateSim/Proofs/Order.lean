import GateSim.Proofs.Mirror
import GateSim.Proofs.Rearrange

/-!
# The order of declarations

Descriptions that differ in their order only stand for circuits that mirror each other. So the order
in which a definition declares its devices does not matter, as long as no gates form a loop, although
it is the order in which gates are evaluated; and neither does the order of connections or monitors
(`Definition.build_reorders`).
-/

namespace GateSim

/-! ### Described circuits in two orders -/

namespace Description
variable {D D' : Description} {names names' : NameTable}

section
variable (hk : D.Known names)
  (hpins : ∀ t ∈ PinWord.inputs ++ PinWord.outputs, names'.idOf t = names.idOf t)
include hpins

theorem map_idOf_output {d : Declaration} {pin : Option Text} (h : pin ∈ d.outputs.map (·.1)) :
    pin.map names'.idOf = pin.map names.idOf := by
  cases pin with
  | none => rfl
  | some t =>
    exact congrArg some (hpins t (List.mem_append_right _ (Declaration.mem_outputs_of_some h)))

include hk

theorem rename_source {p : Port} (h : D.HasOutput p) :
    (p.source names).rename (names.translate names') = p.source names' := by
  have hdevice := NameTable.translate_idOf names' (hk.mem_texts_of_hasOutput h).1
  obtain ⟨d, -, -, hpin⟩ := h
  rw [Source.rename, Port.source, Port.source, hdevice, map_idOf_output hpins hpin]

theorem rename_device (h : D.SameUpToOrder D') (hm : D.Meaningful) {d : Declaration}
    (hd : d ∈ D.devices) :
    (D.device names d).rename (names.translate names') = D'.device names' d := by
  have hname := NameTable.translate_idOf names' (hk.devices d.name (List.mem_map_of_mem hd))
  have hinputs : ∀ pin ∈ d.inputs,
      (names.idOf pin, ((D.source? d.name pin).map (·.source names)).map
        (Source.rename (names.translate names'))) =
      (names'.idOf pin, (D.source? d.name pin).map (·.source names')) := by
    intro pin hpin
    rw [hpins pin (List.mem_append_left _ (d.inputs_subset hpin)), Option.map_map]
    -- what drives an input is a declared output, so its name is known
    refine congrArg _ (Option.map_congr fun p hp => ?_)
    exact rename_source hk hpins (hm.sources _ ((source?_eq_some_iff hm.single).1 hp))
  rw [h.device_eq hm]
  refine Device.mk.injEq .. |>.mpr ⟨hname, rfl, ?_, ?_, rfl⟩
  · rw [Description.device, PinMap.map_putAll, List.map_map]
    exact congrArg (PinMap.putAll · []) (List.map_congr_left hinputs)
  · refine congrArg (PinMap.putAll · []) (List.map_congr_left fun e he => ?_)
    rw [map_idOf_output hpins (List.mem_map_of_mem he)]

/-- The same devices are found in both circuits, in whatever order they are declared. -/
theorem SameUpToOrder.embeds (h : D.SameUpToOrder D') (hm : D.Meaningful) (hk' : D'.Known names')
    (hw : (D.circuit names).devices.WellFormed) (hw' : (D'.circuit names').devices.WellFormed) :
    (D.circuit names).devices.Embeds (names.translate names') (D'.circuit names').devices where
  source := hw
  target := hw'
  pins := Pins.ofNames_congr hpins
  mem := by
    intro d' hd'
    obtain ⟨d, hd, rfl⟩ := List.mem_map.1 hd'
    rw [rename_device hk hpins h hm hd]
    exact List.mem_map_of_mem (h.devices.subset hd)
  inj := by
    intro a ha b hb hab
    have hids : ∀ a ∈ (D.circuit names).devices.ids, ∃ t ∈ D.names, names.idOf t = a := by
      intro a ha
      obtain ⟨d', hd', rfl⟩ := List.mem_map.1 ha
      obtain ⟨d, hd, rfl⟩ := List.mem_map.1 hd'
      exact ⟨d.name, List.mem_map_of_mem hd, rfl⟩
    obtain ⟨t, ht, rfl⟩ := hids a ha
    obtain ⟨u, hu, rfl⟩ := hids b hb
    rw [NameTable.translate_idOf names' (hk.devices t ht),
      NameTable.translate_idOf names' (hk.devices u hu)] at hab
    exact congrArg names.idOf ((NameTable.idOf_inj (hk'.devices t (h.names.subset ht))
      (hk'.devices u (h.names.subset hu))).1 hab)

end

end Description

/-- What was built, with the names that are known then. -/
def Built.session (b : Built) : Session := ⟨b.names, b.circuit⟩

theorem Built.Rearranged.mirrors {s : Section} {b b' : Built} {D D' : Description}
    (h : b.Rearranged s b' D D') (hb : b.session.Reachable) (hb' : b'.session.Reachable) :
    b.session.Mirrors b'.session := by
  have hsame := h.rearranges.sameUpToOrder
  have hw := hb.sound.wellFormed
  have hw' := hb'.sound.wellFormed
  have hk' : D'.Known b'.names := ⟨fun t ht => (h.texts t).2 (h.known.pins t ht),
    fun t ht => (h.texts t).2 (h.known.devices t (hsame.names.symm.subset ht))⟩
  simp only [Built.session, h.circuit, h.circuit'] at hw hw'
  refine ⟨hb, hb', h.texts, h.pins, ?_, ?_⟩
  · simp only [Built.session, h.circuit, h.circuit']
    exact hsame.embeds h.known h.pins h.meaningful hk' hw hw'
  · simp only [Built.session, h.circuit, h.circuit']
    exact hsame.symm.embeds hk' (fun t ht => (h.pins t ht).symm) (hsame.meaningful h.meaningful)
      h.known hw' hw

namespace Definition

/-- The sections of a definition that is built without errors are lists of items, and the order of
the items does not matter. If the devices are declared in another order there are no errors either,
and unless gates form a loop nobody who uses names can tell the circuits apart: what is asked of them
has the same success, the devices show the same after it, and cycles of both fail if an input floats.
Connections in another order give the same circuit, and monitors in another order give it with the
monitors in another order. -/
theorem build_reorders {d : Definition} {names : NameTable} {built : Built}
    (hbuild : d.build names = .ok built) (hsuccess : built.success = true) :
    (∀ s ≠ .close, ∃ front items back, d.HasItems s front items back) ∧
    (∀ d', d.Reorders .devices d' → ∃ built', d'.build names = .ok built' ∧
      built'.success = true ∧ (built.circuit.devices.Acyclic → ∀ cs,
        (built'.session.commands cs).1 = (built.session.commands cs).1 ∧
        (∀ name, (built'.session.commands cs).2.view name =
          (built.session.commands cs).2.view name) ∧
        (built.circuit.devices.floating ≠ [] →
          ((built.session.commands cs).2.command .cycle).1 = false ∧
          ((built'.session.commands cs).2.command .cycle).1 = false))) ∧
    (∀ d', d.Reorders .connect d' → ∃ built', d'.build names = .ok built' ∧
      built'.success = true ∧ built'.names = built.names ∧ built'.circuit = built.circuit) ∧
    (∀ d', d.Reorders .monitor d' → ∃ built', d'.build names = .ok built' ∧
      built'.success = true ∧ built'.names = built.names ∧
      ∃ ms, built.circuit.monitors.Perm ms ∧
        built'.circuit = { built.circuit with monitors := ms }) := by
  refine ⟨fun s hs => ?_, fun d' hr => ?_, fun d' hr => ?_, fun d' hr => ?_⟩
  · obtain ⟨-, sts, hsts⟩ := exists_isSentence_of_build hbuild hsuccess
    exact exists_hasItems hsts hs
  · obtain ⟨built', hbuild', hsuccess', D, D', h⟩ := hr.rearranged (by decide) hbuild hsuccess
    have hreach : built.session.Reachable := Session.reachable_of_build hbuild
    have hreach' : built'.session.Reachable := Session.reachable_of_build hbuild'
    have hmirrors := h.mirrors hreach hreach'
    refine ⟨built', hbuild', hsuccess', fun ha cs => ?_⟩
    obtain ⟨hsame, hrest⟩ := hmirrors.commands ha cs
    refine ⟨hsame, hrest.view_eq, fun hf => ⟨?_, ?_⟩⟩
    · exact Session.command_cycle_of_floating hreach hf cs
    · exact Session.command_cycle_of_floating hreach' (mt hmirrors.floating_iff.1 hf) cs
  · obtain ⟨built', hbuild', hsuccess', D, D', h⟩ := hr.rearranged (by decide) hbuild hsuccess
    have hnames := h.names (by decide)
    refine ⟨built', hbuild', hsuccess', hnames, ?_⟩
    rw [h.circuit, h.circuit', hnames, h.rearranges.circuit_of_connect h.meaningful]
  · obtain ⟨built', hbuild', hsuccess', D, D', h⟩ := hr.rearranged (by decide) hbuild hsuccess
    have hnames := h.names (by decide)
    refine ⟨built', hbuild', hsuccess', hnames, ?_⟩
    rw [h.circuit, h.circuit', hnames]
    exact h.rearranges.circuit_of_monitor built.names

/-- A definition by the items of its sections. -/
def ofItems (devices connections monitors : List String) : Definition where
  text := .ofString "DEVICES: " ++ listed devices ++ .ofString ";\nCONNECT: " ++
    listed connections ++ .ofString ";\nMONITOR: " ++ listed monitors ++ .ofString ";\nEND;"
where
  listed (items : List String) : Text := (Text.ofString ", ").intercalate (items.map Text.ofString)

/-- A flip-flop that toggles, and an inverter that is declared before the one that it reads. -/
theorem build_reorders_toggle :
    let ds := ["NAND H 1", "NOR G 1", "DTYPE F", "CLOCK C 1", "SWITCH S 0"]
    let cs := ["G > H.I1", "F.Q > G.I1", "G > F.DATA", "C > F.CLK", "S > F.SET", "S > F.CLEAR"]
    let ms := ["H", "F.Q"]
    ∃ b b₁ b₂ b₃, (ofItems ds cs ms).build {} = .ok b ∧ b.circuit.devices.floating = [] ∧
      (ofItems ds.reverse cs ms).build {} = .ok b₁ ∧
      (ofItems ds cs.reverse ms).build {} = .ok b₂ ∧
      (ofItems ds cs ms.reverse).build {} = .ok b₃ ∧
      (∀ steps, (b₁.session.commands steps).1 = (b.session.commands steps).1 ∧
        ∀ name, (b₁.session.commands steps).2.view name =
          (b.session.commands steps).2.view name) ∧
      b₂.circuit = b.circuit ∧ ∃ monitors, b.circuit.monitors.Perm monitors ∧
        b₃.circuit = { b.circuit with monitors } := by
  intro ds cs ms
  let items := List.map fun t => content { text := .ofString t }
  let close := [Section.symbol .close, Section.semicolon]
  have hbuilt : ∃ b ∈ ((ofItems ds cs ms).build {}).toOption, b.success = true ∧
      b.circuit.devices.floating = [] ∧ ∀ d ∈ b.circuit.devices.devices, d.kind.isGate = true →
        ∀ e ∈ d.inputs, ∀ s ∈ e.2, b.circuit.devices.isGate s.device = true →
          40 - s.device < 40 - d.id := by
    decide +kernel
  have hmarks : ∀ item ∈ items ds ++ items cs ++ items ms, ∀ x ∈ item,
      x.type ≠ .comma ∧ x.type ≠ .semicolon := by
    decide +kernel
  have hcontent : ∀ ds' ∈ [ds, ds.reverse], ∀ cs' ∈ [cs, cs.reverse], ∀ ms' ∈ [ms, ms.reverse],
      (ofItems ds' cs' ms').content = Section.devices.list (items ds') ++
        Section.connect.list (items cs') ++ Section.monitor.list (items ms') ++ close := by
    decide +kernel
  have hperm : ∀ ts : List String, (items ts).Perm (items ts.reverse) :=
    fun ts => (List.reverse_perm ts).symm.map _
  have hd := hcontent ds (by simp) cs (by simp) ms (by simp)
  have hreorders : (ofItems ds cs ms).Reorders .devices (ofItems ds.reverse cs ms) ∧
      (ofItems ds cs ms).Reorders .connect (ofItems ds cs.reverse ms) ∧
      (ofItems ds cs ms).Reorders .monitor (ofItems ds cs ms.reverse) := by
    refine ⟨⟨[], items ds, _, Section.connect.list (items cs) ++ Section.monitor.list (items ms) ++
        close, ⟨?_, fun item hi => hmarks item (by simp [hi])⟩, hperm ds, ?_⟩,
      ⟨Section.devices.list (items ds), items cs, _, Section.monitor.list (items ms) ++ close,
        ⟨?_, fun item hi => hmarks item (by simp [hi])⟩, hperm cs, ?_⟩,
      ⟨Section.devices.list (items ds) ++ Section.connect.list (items cs), items ms, _, close,
        ⟨hd, fun item hi => hmarks item (by simp [hi])⟩, hperm ms, ?_⟩⟩
    · simp only [hd, List.append_assoc, List.nil_append]
    · simp only [hcontent ds.reverse (by simp) cs (by simp) ms (by simp), List.append_assoc,
        List.nil_append]
    · simp only [hd, List.append_assoc]
    · simp only [hcontent ds (by simp) cs.reverse (by simp) ms (by simp), List.append_assoc]
    · exact hcontent ds (by simp) cs (by simp) ms.reverse (by simp)
  have hok : ∀ {x : Except Fault Built} {b : Built}, b ∈ x.toOption → x = .ok b := by
    rintro (_ | b') b h
    · cases h
    · exact congrArg Except.ok (Option.some.inj h)
  obtain ⟨b, hb, hsuccess, hfloating, hrank⟩ := hbuilt
  have hbuild : (ofItems ds cs ms).build {} = .ok b := hok hb
  obtain ⟨-, hdevices, hconnect, hmonitor⟩ := build_reorders hbuild hsuccess
  obtain ⟨b₁, hb₁, -, hsame⟩ := hdevices _ hreorders.1
  obtain ⟨b₂, hb₂, -, -, hcircuit⟩ := hconnect _ hreorders.2.1
  obtain ⟨b₃, hb₃, -, -, hmonitors⟩ := hmonitor _ hreorders.2.2
  have hacyclic := Registry.acyclic_of_rank (40 - ·) hrank
  exact ⟨b, b₁, b₂, b₃, hbuild, hfloating, hb₁, hb₂, hb₃,
    fun steps => ⟨(hsame hacyclic steps).1, (hsame hacyclic steps).2.1⟩, hcircuit, hmonitors⟩

end Definition

end GateSim
