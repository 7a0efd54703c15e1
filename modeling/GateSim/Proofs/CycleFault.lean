import GateSim.Proofs.Engine
import GateSim.Proofs.Phases
import GateSim.Proofs.Synchronous
import GateSim.Proofs.Tables

/-!
# What makes a cycle fail

A cycle fails at the first input without a source, or else because the gates do not settle
(`Circuit.Sound.cycle_cases`). What drives an input exists, and a gate is in the state of its kind, so
nothing else can happen; and as monitored outputs exist, sampling them never fails. The devices must
have been made for names that the table knows (`Session.Named`), or there would be no name to give
for the input.
-/

namespace GateSim

/-- The input exists and has no source. -/
def Device.Floats (d : Device) (pin : NameId) : Prop := d.inputs.get? pin = some none

instance (d : Device) (pin : NameId) : Decidable (d.Floats pin) :=
  inferInstanceAs (Decidable (d.inputs.get? pin = some none))

theorem Device.mem_floating_iff {d : Device} (h : d.inputs.Ascending) {pin : NameId} :
    pin ∈ d.floating ↔ d.Floats pin := by
  rw [floating, List.mem_filterMap]
  constructor
  · rintro ⟨⟨pin', source⟩, hmem, heq⟩
    cases source <;> cases heq
    exact h.get?_of_mem hmem
  · exact fun hpin => ⟨(pin, none), PinMap.mem_of_get? hpin, rfl⟩

theorem Device.pairwise_floating {d : Device} (h : d.inputs.Ascending) :
    d.floating.Pairwise (· < ·) := by
  refine List.pairwise_filterMap.2 ((List.pairwise_map.1 h).imp fun hlt pin hpin pin' hpin' => ?_)
  obtain ⟨-, heq⟩ := Option.ite_none_right_eq_some.1 hpin
  obtain ⟨-, heq'⟩ := Option.ite_none_right_eq_some.1 hpin'
  cases heq
  cases heq'
  exact hlt

namespace Registry
variable {r : Registry}

/-- The input floats, and it comes first: those of the devices that were made before have sources, and
so have those of the device with lower ids. -/
structure FirstFloating (r : Registry) (d : Device) (pin : NameId) : Prop where
  floats : d.Floats pin
  earlier : ∃ before after, r.devices = before ++ d :: after ∧
    ∀ d' ∈ before, ∀ pin', ¬ d'.Floats pin'
  lower : ∀ pin' < pin, ¬ d.Floats pin'

theorem exists_firstFloating (h : r.WellFormed) {e : NameId × NameId} {l : List (NameId × NameId)}
    (hf : r.floating = e :: l) : ∃ d ∈ r.devices, d.id = e.1 ∧ r.FirstFloating d e.2 := by
  rw [floating, List.flatMap_def, List.flatten_eq_cons_iff] at hf
  obtain ⟨as, bs, cs, hsplit, hnil, -⟩ := hf
  obtain ⟨before, rest, hdevices, rfl, hrest⟩ := List.map_eq_append_iff.1 hsplit
  obtain ⟨d, after, rfl, hd, -⟩ := List.map_eq_cons_iff.1 hrest
  obtain ⟨pin, pins, hpins, rfl, -⟩ := List.map_eq_cons_iff.1 hd
  have hascending : ∀ d' ∈ r.devices, d'.inputs.Ascending := fun d' hd' =>
    (h.devices d' hd').inputs
  have hmem : d ∈ r.devices := hdevices ▸ List.mem_append_right _ (List.mem_cons_self ..)
  refine ⟨d, hmem, rfl, ?_, ⟨before, after, hdevices, fun d' hd' pin' hpin' => ?_⟩,
    fun pin' hlt hpin' => ?_⟩
  · exact (Device.mem_floating_iff (hascending d hmem)).1 (hpins ▸ List.mem_cons_self ..)
  · have hmem' : d' ∈ r.devices := hdevices ▸ List.mem_append_left _ hd'
    have hfloating := (Device.mem_floating_iff (hascending d' hmem')).2 hpin'
    rw [List.map_eq_nil_iff.1 (hnil _ (List.mem_map_of_mem hd'))] at hfloating
    cases hfloating
  · have hfloating := (Device.mem_floating_iff (hascending d hmem)).2 hpin'
    have hpairwise := Device.pairwise_floating (hascending d hmem)
    rw [hpins] at hfloating hpairwise
    rcases List.mem_cons.1 hfloating with rfl | hlater
    · exact Nat.lt_irrefl _ hlt
    · exact Nat.lt_asymm hlt ((List.pairwise_cons.1 hpairwise).1 pin' hlater)

theorem not_floats_of_floating (hf : r.floating = []) {d : Device} (hd : d ∈ r.devices)
    (pin : NameId) : ¬ d.Floats pin := fun hpin =>
  floating_eq_nil_iff.1 hf d hd (pin, none) (PinMap.mem_of_get? hpin) rfl

end Registry

namespace Circuit
variable {c : Circuit}

/-- A cycle fails at the first input that floats. If none does, it succeeds or the gates do not
settle. -/
theorem Sound.cycle_cases (h : c.Sound) :
    (∃ d ∈ c.devices.devices, ∃ pin, c.devices.FirstFloating d pin ∧
      c.cycle = (.error (.floating d.id pin), c)) ∨
    ((∀ d ∈ c.devices.devices, ∀ pin, ¬ d.Floats pin) ∧
      ((∃ passes c', c.cycle = (.ok passes, c')) ∨
        c.cycle = (.error (.oscillation c.devices.settleLimit), c))) := by
  obtain ⟨hw, hl⟩ := h
  cases hf : c.devices.floating with
  | cons e l =>
    obtain ⟨d, hd, hid, hfirst⟩ := Registry.exists_firstFloating hw hf
    refine Or.inl ⟨d, hd, e.2, hfirst, ?_⟩
    rw [hid]
    exact cycle_eq_error (Registry.cycle_of_floating hf)
  | nil =>
    refine Or.inr ⟨fun d hd => Registry.not_floats_of_floating hf hd, ?_⟩
    rcases Registry.phases_cases hw hf hl with ⟨passes, r, hp, -⟩ | ⟨r, hp⟩
    · refine Or.inl ⟨passes, { c with devices := r, lastPasses := passes }, ?_⟩
      rw [Circuit.cycle, EStateM.run, Registry.cycle_eq hf, hp]
    · exact Or.inr (cycle_eq_error (Registry.cycle_of_phases_error hf hp))

end Circuit

/-! ### Names of devices -/

/-- A device is made only for a name that the table knows. -/
def Operation.isNamed (names : NameTable) : Operation → Bool
  | .create _ id _ => (names.text? id).isSome
  | _ => true

namespace Session
variable {s : Session}

/-- Devices are made only for names that are known by then. -/
def isNamed (s : Session) : List Operation → Bool
  | [] => true
  | op :: ops => op.isNamed s.names && (s.perform op).2.isNamed ops

/-- The session arises from an empty circuit without damage, with a name for each device. -/
def NamedReachable (s : Session) : Prop :=
  ∃ names ops, (∀ op ∈ ops, op.isDamage = false) ∧ (start names).isNamed ops = true ∧
    ((start names).run ops).2 = s

/-- Every device has a name. -/
def Named (s : Session) : Prop :=
  ∀ id ∈ s.circuit.devices.ids, ∃ t ∈ s.names.texts, s.names.idOf t = id

theorem Named.of_ids {s' : Session} (h : s.Named) {ts : List Text}
    (hnames : s'.names = s.names.insertAll ts)
    (hids : ∀ id ∈ s'.circuit.devices.ids, id ∈ s.circuit.devices.ids ∨
      ∃ t ∈ s.names.texts, s.names.idOf t = id) : s'.Named := by
  intro id hid
  obtain ⟨t, ht, rfl⟩ : ∃ t ∈ s.names.texts, s.names.idOf t = id := by
    rcases hids id hid with hold | hnew
    · exact h id hold
    · exact hnew
  rw [hnames]
  exact ⟨t, NameTable.mem_insertAll.2 (Or.inl ht), NameTable.idOf_insertAll ts ht⟩

theorem Named.perform (h : s.Named) (hs : s.circuit.Sound) {op : Operation}
    (hop : op.isDamage = false) (hname : op.isNamed s.names = true) : (s.perform op).2.Named := by
  obtain ⟨ts, hnames⟩ := (continues_perform hs hop).names
  refine h.of_ids hnames fun id hid => ?_
  cases hkeeps : op.keepsWiring with
  | true =>
    rw [Registry.ids_eq_of_wiring_eq (wiring_perform hs hkeeps)] at hid
    exact Or.inl hid
  | false =>
    cases op with
    | create kind id' parameter =>
      rw [perform_create, Circuit.create] at hid
      split at hid
      · next hc =>
        rw [Registry.ids_create hc, List.mem_append, List.mem_singleton] at hid
        refine hid.imp_right ?_
        rintro rfl
        obtain ⟨t, ht⟩ := Option.isSome_iff_exists.1 hname
        exact ⟨t, NameTable.text?_eq_some_iff.1 ht⟩
      · exact Or.inl hid
    | connect source sourcePin target pin =>
      exact Or.inl (hs.wellFormed.ids_connect source sourcePin target pin ▸ hid)
    | eraseInput | eraseOutput | setKind => cases hop
    | _ => cases hkeeps

theorem NamedReachable.reachable (h : s.NamedReachable) : s.Reachable := by
  obtain ⟨names, ops, hops, -, rfl⟩ := h
  exact ⟨names, ops, hops, rfl⟩

theorem NamedReachable.named (h : s.NamedReachable) : s.Named := by
  obtain ⟨names, ops, hops, hnamed, rfl⟩ := h
  have hrun : ∀ s : Session, s.Named → s.circuit.Sound → s.isNamed ops = true →
      (s.run ops).2.Named := by
    clear hnamed
    induction ops with
    | nil => exact fun _ h _ _ => h
    | cons op ops ih =>
      intro s h hs hnamed
      obtain ⟨hop, hops⟩ := List.forall_mem_cons.1 hops
      obtain ⟨hname, hnamed⟩ := Bool.and_eq_true_iff.1 hnamed
      exact ih hops _ (h.perform hs hop hname) (sound_perform hs hop) hnamed
  refine hrun _ (fun id hid => ?_) (sound_start names) hnamed
  rw [circuit_start] at hid
  cases hid

/-- The fault of an input is explained by the names of its device and its pin. -/
theorem report_floating_eq (h : s.Intact) (hn : s.Named) {d : Device}
    (hd : d ∈ s.circuit.devices.devices) {pin : NameId} (hpin : d.Floats pin) :
    ∃ device word, s.names.text? d.id = some device ∧ s.names.text? pin = some word ∧
      (RunFault.floating d.id pin).report s.names = .floatingInput device word := by
  obtain ⟨device, hdevice, hid⟩ := hn d.id (List.mem_map_of_mem hd)
  have hkey : pin ∈ d.inputs.keys := List.mem_map_of_mem (PinMap.mem_of_get? hpin)
  obtain ⟨word, hword, rfl⟩ := (h.exists_word hd).1 pin hkey
  have htext := NameTable.text?_idOf (h.knowsPins word (List.mem_append_left _ hword))
  have hname := NameTable.text?_idOf hdevice
  rw [hid] at hname
  refine ⟨device, word, hname, htext, ?_⟩
  simp only [RunFault.report, RunFault.explain, NameTable.text, hname, htext]
  rfl

/-- A cycle fails at an input if and only if one floats, and at the first one, with the names of its
device and its pin if devices were made for names. If none floats, the cycle succeeds or says that the
gates have not settled within the limit. Sampling the monitored outputs does not fail. -/
theorem cycle_fault (h : s.Reachable) :
    ((∃ d ∈ s.circuit.devices.devices, ∃ pin, d.Floats pin) →
      ∃ d pin, s.circuit.devices.FirstFloating d pin ∧
        s.perform .cycle = (.cycleFailed ((RunFault.floating d.id pin).report s.names), s) ∧
        (s.NamedReachable → ∃ device word,
          s.names.text? d.id = some device ∧ s.names.text? pin = some word ∧
          s.perform .cycle = (.cycleFailed (.floatingInput device word), s))) ∧
    ((¬ ∃ d ∈ s.circuit.devices.devices, ∃ pin, d.Floats pin) →
      (∃ passes s', s.perform .cycle = (.cycled passes, s')) ∨
        s.perform .cycle = (.cycleFailed (.oscillation s.circuit.devices.settleLimit), s)) ∧
    ∃ s', s.perform .record = (.recorded none, s') := by
  have hintact := h.intact
  refine ⟨?_, ?_, ?_⟩
  · rintro ⟨d₀, hd₀, pin₀, hpin₀⟩
    rcases hintact.sound.cycle_cases with ⟨d, hd, pin, hfirst, hcycle⟩ | ⟨hnone, -⟩
    · have hperform := perform_cycle_of_error hcycle
      refine ⟨d, pin, hfirst, hperform, fun hn => ?_⟩
      obtain ⟨device, word, hdevice, hword, hreport⟩ :=
        report_floating_eq hintact hn.named hd hfirst.floats
      exact ⟨device, word, hdevice, hword, hreport ▸ hperform⟩
    · exact absurd hpin₀ (hnone d₀ hd₀ pin₀)
  · intro hnone
    rcases hintact.sound.cycle_cases with ⟨d, hd, pin, hfirst, -⟩ | ⟨-, ⟨passes, c, hok⟩ | hfail⟩
    · exact absurd ⟨d, hd, pin, hfirst.floats⟩ hnone
    · exact Or.inl ⟨passes, _, perform_cycle_of_ok hok⟩
    · exact Or.inr (perform_cycle_of_error hfail)
  · obtain ⟨c, hrecord⟩ := Circuit.exists_record hintact.sound.wellFormed hintact.monitors
    exact ⟨_, by rw [Session.perform, hrecord]⟩

/-- The second input of a gate and the first one of another are not connected. -/
def unconnected : List Operation :=
  [.intern (.ofString "S"), .intern (.ofString "G"), .intern (.ofString "X"),
    .create .switch switch (.ofString "1"), .create .nand nand (.ofString "2"),
    .create .xor xor [], .connect switch none nand Pin.i1, .connect nand none xor Pin.i2,
    .monitor xor none]
where
  switch : NameId := 22
  nand : NameId := 23
  xor : NameId := 24

/-- The gate that comes first is blamed. Once all is connected, it feeds back on itself. -/
theorem cycle_fault_unconnected :
    let s := ((start {}).run unconnected).2
    let s' := (s.run [.connect unconnected.nand none unconnected.nand Pin.i2,
      .connect unconnected.switch none unconnected.xor Pin.i1]).2
    s.perform .cycle = (.cycleFailed (.floatingInput (.ofString "G") (.ofString "I2")), s) ∧
      s'.perform .cycle = (.cycleFailed (.oscillation 26), s') ∧
      ∃ s'', s'.perform .record = (.recorded none, s'') := by
  intro s s'
  have hs : s.NamedReachable := ⟨{}, unconnected, by decide, by decide +kernel, rfl⟩
  have hs' : s'.Reachable := hs.reachable.run (by decide)
  refine ⟨?_, ?_, (cycle_fault hs').2.2⟩
  · have hfloats : ∃ d ∈ s.circuit.devices.devices, d.Floats Pin.i2 := by decide +kernel
    obtain ⟨d₀, hd₀, hpin₀⟩ := hfloats
    have hfault : (s.perform .cycle).1 =
        .cycleFailed (.floatingInput (.ofString "G") (.ofString "I2")) := by decide +kernel
    obtain ⟨d, pin, -, -, hnamed⟩ := (cycle_fault hs.reachable).1 ⟨d₀, hd₀, Pin.i2, hpin₀⟩
    obtain ⟨device, word, -, -, hcycle⟩ := hnamed hs
    rw [← hfault]
    exact hcycle.trans (by rw [hcycle])
  · have hf : s'.circuit.devices.floating = [] := by decide +kernel
    have hlimit : s'.circuit.devices.settleLimit = 26 := by decide +kernel
    have hfails : (s'.perform .cycle).1.isFailedCycle = true := by decide +kernel
    have hnone : ¬ ∃ d ∈ s'.circuit.devices.devices, ∃ pin, d.Floats pin :=
      fun ⟨d, hd, pin, hpin⟩ => Registry.not_floats_of_floating hf hd pin hpin
    rcases (cycle_fault hs').2.1 hnone with ⟨passes, s'', hok⟩ | hfail
    · rw [hok] at hfails
      cases hfails
    · rw [← hlimit]
      exact hfail

end Session

end GateSim
