import Mathlib.Data.List.TakeWhile
import GateSim.Proofs.Cold
import GateSim.Proofs.Reuse

/-!
# Runs that start over

A run has the same outcome whatever was done since the load, and the same as in an engine that has just
loaded the circuit and monitors the same outputs (`Engine.rerun`). It does not matter in which way the
monitors were set: an output is found by its name (`Engine.resolve_label`), so the names of the
monitored outputs tell which they are.
-/

namespace GateSim

namespace Engine
variable {e e' : Engine} {c c' : Circuit}

/-! ### Outputs by their names -/

/-- The name of a device is read back from the name of its output. -/
theorem deviceText_label {names : NameTable} {a : NameId} (hdot : '.'.toUInt8 ∉ names.nameOf a)
    (pin : OutputPin) : deviceText (names.label a pin) = names.nameOf a ∧
      pinText? (names.label a pin) = pin.map names.nameOf := by
  have hname : ∀ b ∈ names.nameOf a, (!b == '.'.toUInt8) = true := by
    intro b hb
    rw [Bool.not_eq_true', beq_eq_false_iff_ne]
    exact fun heq => hdot (heq ▸ hb)
  cases pin with
  | none =>
    refine ⟨List.takeWhile_eq_self_iff.2 hname, ?_⟩
    rw [pinText?, NameTable.label, List.dropWhile_eq_nil_iff.2 hname]
    rfl
  | some pin =>
    have hlabel : names.label a (some pin) = names.nameOf a ++ '.'.toUInt8 :: names.nameOf pin := by
      rw [NameTable.label, List.append_assoc]
      rfl
    rw [deviceText, pinText?, hlabel]
    refine ⟨?_, ?_⟩
    · rw [List.takeWhile_append_of_pos hname, List.takeWhile_cons_of_neg (by simp), List.append_nil]
    · rw [List.dropWhile_append_of_pos hname, List.dropWhile_cons_of_neg (by simp)]
      rfl

/-- An output is found by its name, if the name of its device has no dot. -/
theorem resolve_label (hs : Session.Intact ⟨e.names, c⟩) {d : Device}
    (hd : d ∈ c.devices.devices)
    (hknown : ∃ t ∈ e.names.texts, '.'.toUInt8 ∉ t ∧ e.names.idOf t = d.id) {pin : OutputPin}
    (hpin : pin ∈ d.outputs.keys) : e.resolve c (e.names.label d.id pin) = some (d.id, pin) := by
  have hhas : c.devices.has d.id = true :=
    hs.sound.wellFormed.has_iff.2 (List.mem_map_of_mem hd)
  obtain ⟨t, ht, hdot, heq⟩ := hknown
  have hname : e.names.nameOf d.id = t := heq ▸ NameTable.nameOf_idOf ht
  obtain ⟨hdevice, hpinText⟩ := deviceText_label (hname.symm ▸ hdot) pin
  have hfind : e.names.find? t = some d.id := heq ▸ NameTable.find?_of_mem ht
  rw [resolve_eq, hdevice, hname, hfind, Option.bind_some, if_pos hhas, hpinText]
  cases pin with
  | none => rfl
  | some pin =>
    obtain ⟨u, hu, rfl⟩ := (hs.exists_word hd).2 pin hpin
    have hknown := hs.knowsPins u (List.mem_append_right _ hu)
    rw [Option.map_some, resolvePin, NameTable.nameOf_idOf hknown, NameTable.find?_of_mem hknown]
    rfl

namespace Loaded

theorem resolve_label (h : Loaded e e' c c') {d : Device} (hd : d ∈ c.devices.devices)
    {pin : OutputPin} (hpin : pin ∈ d.outputs.keys) :
    e.resolve c (e.names.label d.id pin) = some (d.id, pin) := by
  obtain ⟨t, ⟨ht, -, hdot⟩, heq⟩ := h.twin.known d.id (List.mem_map_of_mem hd)
  exact Engine.resolve_label h.intact hd ⟨t, ht, hdot, heq⟩ hpin

/-- The monitored outputs are found by their names. -/
theorem resolve_monitoredNames (h : Loaded e e' c c') :
    e.monitoredNames.filterMap (e.resolve c) = c.monitors.map fun m => (m.device, m.pin) := by
  simp only [monitoredNames, h.circuit, Monitors.names, List.filterMap_map]
  rw [← List.filterMap_eq_map]
  refine List.filterMap_congr fun m hm => ?_
  obtain ⟨d, hd, hid, hpin⟩ := h.intact.monitors m hm
  have hresolve := h.resolve_label hd hpin
  rw [hid] at hresolve
  exact hresolve

end Loaded

/-- Engines that differ in values and monitors only start over alike if they monitor the same. -/
theorem Keeps.cold_eq_of_monitoredNames (h : e.Keeps Circuit.wiring e') (ht : e.Twin e)
    (ht' : e'.Twin e') (hm : e'.monitoredNames = e.monitoredNames) : e'.cold = e.cold := by
  have hsome := h.isSome
  rcases ht.cases with ⟨hc, -⟩ | ⟨c, c₁, hl⟩ <;> rcases ht'.cases with ⟨hc', -⟩ | ⟨c', c₁', hl'⟩
  · rw [cold, cold, h.names, hc, hc']
  · rw [hc, hl'.circuit] at hsome
    cases hsome
  · rw [hl.circuit, hc'] at hsome
    cases hsome
  · have hw : c'.devices.wiring = c.devices.wiring := h.eq hl.circuit hl'.circuit
    rw [cold, cold, h.names, hl.circuit, hl'.circuit, Option.map_some, Option.map_some]
    refine congrArg (fun c => (e.names, some c)) (hl.intact.sound.cold_eq hw ?_)
    have hhas : c'.devices.has = c.devices.has := by
      funext a
      rw [Registry.has, Registry.has, Registry.places_eq_of_wiring_eq hw]
    have hresolve : e'.resolve c' = e.resolve c := by
      funext signal
      rw [resolve_eq, resolve_eq, hhas, h.names]
    refine Monitors.reset_eq_of_outputs ?_
    rw [← hl.resolve_monitoredNames, ← hl'.resolve_monitoredNames, hresolve, hm]

/-! ### Runs -/

/-- The devices and monitors that runs start from are twins. -/
def ColdTwin (p q : NameTable × Option Circuit) : Prop :=
  Option.Rel (fun c c' => Session.Twin ⟨p.1, c⟩ ⟨q.1, c'⟩) p.2 q.2

theorem started_twin_iff : e.started.Twin e'.started ↔
    e.started.Regular ∧ e'.started.Regular ∧ ColdTwin e.cold e'.cold := by
  have hcircuits : Option.Rel (fun c c' => Session.Twin ⟨e.names, c⟩ ⟨e'.names, c'⟩)
      e.started.circuit e'.started.circuit ↔ ColdTwin e.cold e'.cold := by
    rw [ColdTwin, started, started, cold, cold]
    cases e.circuit <;> cases e'.circuit
    · exact iff_of_true .none .none
    · exact iff_of_false (by rintro ⟨⟩) (by rintro ⟨⟩)
    · exact iff_of_false (by rintro ⟨⟩) (by rintro ⟨⟩)
    · constructor <;> rintro ⟨h⟩ <;>
        exact .some ⟨h.pins, h.known, h.copies.devices, h.copies.monitors⟩
  rw [← hcircuits]
  exact ⟨fun h => ⟨h.regular, h.regular', h.circuits⟩, fun h => ⟨h.1, h.2.1, h.2.2⟩⟩

/-- What is left of two runs is the same: the state and the message, the outputs and the hidden state
of each device, and the samples of each monitor. -/
structure SameOutcome (r r' : Engine) : Prop where
  state : r'.state = r.state
  message : r'.message = r.message
  view : ∀ name, r'.view name = r.view name
  histories : r'.histories = r.histories
  signals : r'.signals = r.signals

/-- Runs from twins have the same outcome. -/
theorem Twin.sameOutcome_run (h : e.started.Twin e'.started) (n : Nat) :
    SameOutcome (e.run n) (e'.run n) := by
  rcases h.cases with ⟨hc, hc'⟩ | ⟨c, c', hl⟩
  · have he : e.circuit = none := Option.map_eq_none_iff.1 hc
    have he' : e'.circuit = none := Option.map_eq_none_iff.1 hc'
    simp only [Engine.run, he, he']
    refine ⟨rfl, rfl, fun name => ?_, ?_, ?_⟩ <;>
      simp only [Engine.view, Engine.histories, Engine.signals, Engine.monitoredNames,
        Engine.unloaded, Engine.fail, he, he', Option.bind_none, Option.map_none]
  · have hsome : ∀ {e : Engine} {c : Circuit}, e.started.circuit = some c →
        e.circuit.isSome = true := by
      intro e c hc
      obtain ⟨c₀, hc₀, -⟩ := Option.map_eq_some_iff.1 hc
      rw [hc₀]
      rfl
    rw [run_eq (hsome hl.circuit), run_eq (hsome hl.circuit')]
    obtain ⟨hstep, hstate, hmessage⟩ := h.simulate n
    exact ⟨hstate, hmessage, hstep.twin.view, hstep.twin.histories, hstep.twin.signals⟩

/-- After a load, what a run starts from depends on which monitors there are, and not on the calls that
have set them. -/
theorem Regular.cold_settings (h : e.Regular) (d : Definition) {settings settings' : List Call}
    (hs : ∀ k ∈ settings, k.isLoad = false) (hs' : ∀ k ∈ settings', k.isLoad = false)
    (hm : (settings'.foldl Engine.call (e.load d).2).monitoredNames =
      (settings.foldl Engine.call (e.load d).2).monitoredNames) :
    (settings'.foldl Engine.call (e.load d).2).cold =
      (settings.foldl Engine.call (e.load d).2).cold := by
  obtain ⟨-, hsame, hmessage⟩ := h.load_same h d
  have hproper := (h.load d).proper
  have hkeeps := (keeps_calls hproper hs).symm.trans (keeps_calls hproper hs')
  exact hkeeps.cold_eq_of_monitoredNames (hsame.calls hmessage settings).2.1.twin
    (hsame.calls hmessage settings').2.1.twin hm

/-- A run has the same outcome whatever was done since the load: that of a run in an engine, new or
not, that has just loaded the same and monitors the same outputs then. There is a way to set these
monitors, and any other has the same effect. -/
theorem rerun {e e' : Engine} (h : e.Reachable) (h' : e'.Reachable) (d : Definition)
    {calls : List Call} (hcalls : ∀ k ∈ calls, k.isLoad = false) :
    let used := calls.foldl call (e.load d).2
    let fresh := fun settings : List Call => settings.foldl call (e'.load d).2
    (∃ settings, (∀ k ∈ settings, k.isMonitoring = true) ∧
      (fresh settings).monitoredNames = used.monitoredNames) ∧
    ∀ settings, (∀ k ∈ settings, k.isMonitoring = true) →
      (fresh settings).monitoredNames = used.monitoredNames →
      ∀ n, SameOutcome (used.run n) ((fresh settings).run n) := by
  intro used fresh
  obtain ⟨-, hsame, hmessage⟩ := h.regular.load_same h'.regular d
  have hload := h.regular.load d
  have hload' := h'.regular.load d
  -- both engines set the monitors that were set and removed in `calls`
  let ms := calls.filter (·.isMonitoring)
  have hms : ∀ k ∈ ms, k.isMonitoring = true := fun k hk => (List.mem_filter.1 hk).2
  have hcold : (ms.foldl call (e.load d).2).cold = used.cold :=
    cold_calls hload.proper hload.proper rfl hcalls
  have htwin : (ms.foldl call (e.load d).2).Twin (fresh ms) := (hsame.calls hmessage ms).2.1.twin
  have hnames : (fresh ms).monitoredNames = used.monitoredNames :=
    htwin.monitoredNames.trans (monitoredNames_of_cold hcold)
  refine ⟨⟨ms, hms, hnames⟩, fun settings hs hm n => ?_⟩
  have hfresh : (fresh settings).cold = (fresh ms).cold := h'.regular.cold_settings d
    (fun k hk => Call.isLoad_of_isMonitoring (hms k hk))
    (fun k hk => Call.isLoad_of_isMonitoring (hs k hk)) (hm.trans hnames.symm)
  obtain ⟨-, -, hstart⟩ := started_twin_iff.1 htwin.started.twin
  rw [hcold, ← hfresh] at hstart
  exact (started_twin_iff.2 ⟨(hload.calls calls).started, (hload'.calls settings).started,
    hstart⟩).sameOutcome_run n

/-- A gate that feeds back on itself when its clock and its switch are HIGH. -/
def switchedRing : Text :=
  .ofString "DEVICES: SWITCH S 0, CLOCK C 2, NAND G 3;" ++
  .ofString "CONNECT: S > G.I1, C > G.I2, G > G.I3; MONITOR: G; END;"

/-- The cycles fail that come after the switch is set. A run sets it back and so does not fail. -/
theorem rerun_switchedRing :
    let s := Text.ofString "S"
    let g := Text.ofString "G"
    let calls := [Call.run 2, .setSwitch s 1, .cycle, .cycle, .removeMonitor g, .addMonitor s]
    let used := calls.foldl call (load {} { text := switchedRing }).2
    let fresh := [Call.addMonitor s, .removeMonitor g].foldl call (load {} { text := switchedRing }).2
    used.state = .error ∧ (used.run 3).state = .halted ∧
      (used.run 3).histories = [(s, [false, false, false])] ∧
      SameOutcome (used.run 3) (fresh.run 3) := by
  intro s g calls used fresh
  have hr : Reachable {} := ⟨[], rfl⟩
  have hcalls : ∀ k ∈ calls, k.isLoad = false := by decide
  have hsettings : ∀ k ∈ [Call.addMonitor s, .removeMonitor g], k.isMonitoring = true := by decide
  have heval : fresh.monitoredNames = used.monitoredNames ∧ used.state = .error ∧
      (used.run 3).state = .halted ∧
      (used.run 3).histories = [(s, [false, false, false])] := by decide +kernel
  exact ⟨heval.2.1, heval.2.2.1, heval.2.2.2,
    (rerun hr hr { text := switchedRing } hcalls).2 _ hsettings heval.1 3⟩

end Engine

end GateSim
