import GateSim.Proofs.Calls
import GateSim.Proofs.Mirror
import GateSim.Proofs.Tables

/-!
# Engines with twins of circuits

The circuits of two engines are twins (`Engine.Twin`): then nobody who uses names can tell what their
devices and monitors show, and a name stands for the same output in both or for none in both
(`Engine.Loaded.resolve_cases`). Cycles of such circuits succeed alike, and fail with the same report
(`Circuit.step_twin`).
-/

namespace GateSim

namespace Monitors
variable (ρ : NameId → NameId) (ms : Monitors)

theorem maxHistory_rename : maxHistory (ms.map (Monitor.rename ρ)) = ms.maxHistory :=
  List.foldl_map ..

theorem traces_rename : traces (ms.map (Monitor.rename ρ)) = ms.traces := by
  rw [traces, traces, maxHistory_rename, List.map_map]
  rfl

end Monitors

/-- What a switch is set to. -/
def State.setting? : State → Option Signal
  | .switch _ setting => some setting
  | _ => none

namespace Session

/-- A pin without a pin word for a name is not an output. -/
theorem Intact.isOutput_eq_false {s : Session} (hs : s.Intact) {t : Text} {a p : NameId}
    (ht : t ∉ PinWord.outputs) (hp : s.names.find? t = some p) :
    s.circuit.devices.isOutput a (some p) = false := by
  by_cases hmem : t ∈ s.names.texts
  case neg => rw [NameTable.find?_of_not_mem hmem] at hp; cases hp
  rw [NameTable.find?_of_mem hmem] at hp
  cases hp
  refine Bool.eq_false_iff.2 fun hout => ?_
  obtain ⟨d, hd, -, hkey⟩ := hs.sound.wellFormed.isOutput_iff.1 hout
  obtain ⟨word, hword, heq⟩ := (hs.exists_word hd).2 _ hkey
  have hknown := hs.knowsPins word (List.mem_append_right _ hword)
  exact ht ((NameTable.idOf_inj hmem hknown).1 heq ▸ hword)

/-- Only outputs are monitored. -/
theorem Intact.isMonitored_eq_false {s : Session} (hs : s.Intact) {a : NameId} {pin : OutputPin}
    (h : s.circuit.devices.isOutput a pin = false) :
    s.circuit.monitors.isMonitored a pin = false := by
  refine Bool.eq_false_iff.2 fun hm => Bool.eq_false_iff.1 h ?_
  obtain ⟨m, hfind⟩ := Option.isSome_iff_exists.1 hm
  have hwatches := List.find?_some hfind
  simp only [Monitor.watches, Bool.and_eq_true, beq_iff_eq] at hwatches
  obtain ⟨d, hd, hid, hkey⟩ := hs.monitors m (List.mem_of_find?_eq_some hfind)
  exact hs.sound.wellFormed.isOutput_iff.2 ⟨d, hd, hid.trans hwatches.1, hwatches.2 ▸ hkey⟩

namespace Twin
variable {s s' : Session} (h : s.Twin s') (hs : s.Intact) (hs' : s'.Intact)
include h hs hs'

/-- A name stands for the same device in both, or for none in both. -/
theorem find?_cases (t : Text) :
    (∃ a, s.names.find? t = some a ∧ s'.names.find? t = some (s.names.carry s'.names a)) ∨
      (∀ a, s.names.find? t = some a → s.circuit.devices.has a = false) ∧
        ∀ a, s'.names.find? t = some a → s'.circuit.devices.has a = false := by
  by_cases ht : t ∈ s.names.texts <;> by_cases ht' : t ∈ s'.names.texts
  · refine Or.inl ⟨s.names.idOf t, NameTable.find?_of_mem ht, ?_⟩
    rw [NameTable.find?_of_mem ht', NameTable.carry_idOf ht ht']
  · refine Or.inr ⟨fun a ha => ?_, fun a ha => ?_⟩
    · rw [NameTable.find?_of_mem ht] at ha
      cases ha
      exact Bool.eq_false_iff.2 fun hhas =>
        ht' (h.mem_ids (hs.sound.wellFormed.has_iff.1 hhas) ht)
    · rw [NameTable.find?_of_not_mem ht'] at ha
      cases ha
  · refine Or.inr ⟨fun a ha => ?_, fun a ha => ?_⟩
    · rw [NameTable.find?_of_not_mem ht] at ha
      cases ha
    · rw [NameTable.find?_of_mem ht'] at ha
      cases ha
      exact Bool.eq_false_iff.2 fun hhas =>
        ht (h.mem_ids' (hs'.sound.wellFormed.has_iff.1 hhas) ht')
  · refine Or.inr ⟨fun a ha => ?_, fun a ha => ?_⟩
    · rw [NameTable.find?_of_not_mem ht] at ha
      cases ha
    · rw [NameTable.find?_of_not_mem ht'] at ha
      cases ha

/-- The devices of a name are the same but for their ids. -/
theorem device?_find? (t : Text) :
    (s'.names.find? t).bind s'.circuit.devices.device? =
      ((s.names.find? t).bind s.circuit.devices.device?).map
        (Device.rename (s.names.carry s'.names)) := by
  have hnone : ∀ {s : Session}, s.Intact →
      (∀ a, s.names.find? t = some a → s.circuit.devices.has a = false) →
      (s.names.find? t).bind s.circuit.devices.device? = none := by
    intro s hs hhas
    refine Option.bind_eq_none_iff.2 fun a ha => ?_
    have hw := hs.sound.wellFormed
    exact hw.device?_eq_none fun hid => Bool.eq_false_iff.1 (hhas a ha) (hw.has_iff.2 hid)
  rcases h.find?_cases hs hs' t with ⟨a, ha, ha'⟩ | ⟨ha, ha'⟩
  · rw [ha, ha', Option.bind_some, Option.bind_some, h.copies.devices,
      Registry.device?_rename (s.names.carry_injective s'.names)]
  · rw [hnone hs ha, hnone hs' ha']
    rfl

theorem report_floating {d : Device} (hd : d ∈ s.circuit.devices.devices) {pin : NameId}
    (hpin : pin ∈ d.inputs.keys) :
    (RunFault.floating (s.names.carry s'.names d.id) pin).report s'.names =
      (RunFault.floating d.id pin).report s.names := by
  obtain ⟨t, ht, rfl⟩ := (hs.exists_word hd).1 pin hpin
  simp only [RunFault.report, RunFault.explain, h.text_carry (List.mem_map_of_mem hd),
    h.text_pin hs hs' (List.mem_append_left _ ht)]

end Twin

end Session

namespace Circuit
variable {names names' : NameTable} {c c' : Circuit}

/-- A recorded cycle fails only if the cycle does. -/
theorem cycle_of_step_error {c₁ : Circuit} {f : RunFault} (h : Session.Reachable ⟨names, c⟩)
    (hs : c.step = (.error f, c₁)) : Registry.cycle c.devices = .error f c.devices := by
  rcases hc : c.cycle with ⟨g | passes, c₂⟩
  · rw [step, hc] at hs
    cases hs
    exact cycle_devices_of_error hc
  · have hperform : (Session.perform ⟨names, c⟩ .cycle).2 = ⟨names, c₂⟩ :=
      congrArg Prod.snd (Session.perform_cycle_of_ok hc)
    have h₂ : Session.Reachable ⟨names, c₂⟩ := h.of_perform rfl hperform
    obtain ⟨c₃, hr⟩ := exists_record h₂.sound.wellFormed h₂.intact.monitors
    simp only [step, hc, hr] at hs
    cases hs

/-- Cycles of twins succeed alike, and fail with the same report. -/
theorem step_twin (h : Session.Twin ⟨names, c⟩ ⟨names', c'⟩) (hr : Session.Reachable ⟨names, c⟩)
    (hr' : Session.Reachable ⟨names', c'⟩) :
    (∃ passes c₁ c₁', c.step = (.ok passes, c₁) ∧ c'.step = (.ok passes, c₁') ∧
      c₁.Copies (names.carry names') c₁') ∨
    ∃ f f', c.step = (.error f, c) ∧ c'.step = (.error f', c') ∧
      f'.report names' = f.report names := by
  obtain ⟨hresult, hcopies⟩ := h.copies.step (names.carry_injective names')
  dsimp only at hresult hcopies
  rcases c.step_cases hr with ⟨passes, c₁, hstep, -⟩ | ⟨f, hstep⟩ <;>
  rcases c'.step_cases hr' with ⟨passes', c₁', hstep', -⟩ | ⟨f', hstep'⟩ <;>
    rw [hstep, hstep'] at hresult hcopies <;> cases hresult
  · exact Or.inl ⟨passes, c₁, c₁', hstep, hstep', hcopies⟩
  · refine Or.inr ⟨f, _, hstep, hstep', ?_⟩
    have hsound := hr.sound
    rcases Registry.fault_of_cycle hsound.wellFormed hsound.latched
      (cycle_of_step_error hr hstep) with ⟨d, hd, pin, hpin, rfl⟩ | rfl
    · exact h.report_floating hr.intact hr'.intact hd hpin
    · rfl

end Circuit

namespace Engine

/-- What is seen of a device: the values of its outputs, by their names, and its hidden state. -/
def view (e : Engine) (name : Text) : Option (List (Option Text × Signal) × State) :=
  e.circuit.bind fun c => Session.view ⟨e.names, c⟩ name

/-- The monitored outputs by their names, with the samples of each. -/
def histories (e : Engine) : List (Text × List Signal) :=
  e.monitoredNames.zip ((e.circuit.map (·.monitors)).getD [] |>.map Monitor.history)

/-! ### Names of outputs -/

/-- What stands before the first dot. -/
def deviceText (signal : Text) : Text := signal.takeWhile fun b => !b == '.'.toUInt8

/-- What stands after the first dot, if there is one. -/
def pinText? (signal : Text) : Option Text :=
  match signal.dropWhile fun b => !b == '.'.toUInt8 with
  | [] => none
  | _ :: pin => some pin

/-- An output of a device, by the name of its pin if it has one. -/
def resolvePin (names : NameTable) (a : NameId) : Option Text → Option (NameId × OutputPin)
  | none => some (a, none)
  | some t => (names.find? t).map fun pin => (a, some pin)

theorem resolve_eq (e : Engine) (c : Circuit) (signal : Text) :
    e.resolve c signal = (e.names.find? (deviceText signal)).bind fun a =>
      if c.devices.has a = true then resolvePin e.names a (pinText? signal) else none := by
  simp only [resolve, bind, deviceText, pinText?]
  refine Option.bind_congr fun a _ => ?_
  cases c.devices.has a with
  | false => rfl
  | true =>
    cases signal.dropWhile fun b => !b == '.'.toUInt8 with
    | nil => rfl
    | cons b pin =>
      show ((e.names.find? pin).bind fun pin => some (a, some pin)) = (e.names.find? pin).map _
      cases e.names.find? pin <;> rfl

/-- The circuits of the engines are twins, if there are any. -/
structure Twin (e e' : Engine) : Prop where
  regular : e.Regular
  regular' : e'.Regular
  circuits : Option.Rel (fun c c' => Session.Twin ⟨e.names, c⟩ ⟨e'.names, c'⟩) e.circuit e'.circuit

/-- Both circuits, where one is loaded. -/
structure Loaded (e e' : Engine) (c c' : Circuit) : Prop where
  circuit : e.circuit = some c
  circuit' : e'.circuit = some c'
  twin : Session.Twin ⟨e.names, c⟩ ⟨e'.names, c'⟩
  reachable : Session.Reachable ⟨e.names, c⟩
  reachable' : Session.Reachable ⟨e'.names, c'⟩

namespace Loaded
variable {e e' : Engine} {c c' : Circuit} (h : Loaded e e' c c')
include h

theorem copies : c.Copies (e.names.carry e'.names) c' := h.twin.copies

theorem intact : Session.Intact ⟨e.names, c⟩ := h.reachable.intact

theorem intact' : Session.Intact ⟨e'.names, c'⟩ := h.reachable'.intact

theorem device?_find? (name : Text) :
    (e'.names.find? name).bind c'.devices.device? =
      ((e.names.find? name).bind c.devices.device?).map (Device.rename (e.names.carry e'.names)) :=
  h.twin.device?_find? h.intact h.intact' name

theorem nameOf_pin {d : Device} (hd : d ∈ c.devices.devices) {pin : OutputPin}
    (hpin : pin ∈ d.outputs.keys) : pin.map e'.names.nameOf = pin.map e.names.nameOf := by
  cases pin with
  | none => rfl
  | some pin =>
    obtain ⟨t, ht, rfl⟩ := (h.intact.exists_word hd).2 pin hpin
    exact congrArg some (h.twin.nameOf_pin h.intact h.intact' (List.mem_append_right _ ht))

/-- The name of a pin stands for the same pin in both, or for no output in both. -/
theorem resolvePin_cases (a : NameId) (t : Option Text) :
    (∃ pin, resolvePin e.names a t = some (a, pin) ∧
      resolvePin e'.names (e.names.carry e'.names a) t = some (e.names.carry e'.names a, pin)) ∨
    (∀ p, resolvePin e.names a t = some p → c.devices.isOutput p.1 p.2 = false) ∧
      ∀ p, resolvePin e'.names (e.names.carry e'.names a) t = some p →
        c'.devices.isOutput p.1 p.2 = false := by
  cases t with
  | none => exact Or.inl ⟨none, rfl, rfl⟩
  | some t =>
    by_cases ht : t ∈ PinWord.outputs
    · have hword : t ∈ PinWord.inputs ++ PinWord.outputs := List.mem_append_right _ ht
      have hpin : e.names.find? t = some (e.names.idOf t) :=
        NameTable.find?_of_mem (h.intact.knowsPins t hword)
      have hpin' : e'.names.find? t = some (e.names.idOf t) := by
        rw [NameTable.find?_of_mem (h.intact'.knowsPins t hword)]
        exact congrArg some (h.twin.pins t hword)
      refine Or.inl ⟨some (e.names.idOf t), ?_, ?_⟩
      · rw [resolvePin, hpin]
        rfl
      · rw [resolvePin, hpin']
        rfl
    · refine Or.inr ⟨fun p hp => ?_, fun p hp => ?_⟩
      · obtain ⟨i, hi, rfl⟩ := Option.map_eq_some_iff.1 hp
        exact h.intact.isOutput_eq_false ht hi
      · obtain ⟨i, hi, rfl⟩ := Option.map_eq_some_iff.1 hp
        exact h.intact'.isOutput_eq_false ht hi

/-- A name stands for the same output in both, or for no output in both. -/
theorem resolve_cases (signal : Text) :
    (∃ a pin, e.resolve c signal = some (a, pin) ∧
      e'.resolve c' signal = some (e.names.carry e'.names a, pin)) ∨
    (∀ p, e.resolve c signal = some p → c.devices.isOutput p.1 p.2 = false) ∧
      ∀ p, e'.resolve c' signal = some p → c'.devices.isOutput p.1 p.2 = false := by
  have hnone : ∀ {e : Engine} {c : Circuit},
      (∀ a, e.names.find? (deviceText signal) = some a → c.devices.has a = false) →
      e.resolve c signal = none := by
    intro e c hhas
    rw [resolve_eq]
    exact Option.bind_eq_none_iff.2 fun a ha => if_neg (Bool.eq_false_iff.1 (hhas a ha))
  rcases h.twin.find?_cases h.intact h.intact' (deviceText signal) with ⟨a, ha, ha'⟩ | ⟨ha, ha'⟩
  case inr =>
    refine Or.inr ⟨fun p hp => ?_, fun p hp => ?_⟩
    · rw [hnone ha] at hp
      cases hp
    · rw [hnone ha'] at hp
      cases hp
  have hhas : c'.devices.has (e.names.carry e'.names a) = c.devices.has a := by
    rw [h.copies.devices, Registry.has_rename (e.names.carry_injective e'.names)]
  dsimp only at ha ha'
  simp only [resolve_eq, ha, ha', Option.bind_some, hhas]
  cases c.devices.has a with
  | false =>
    refine Or.inr ⟨fun p hp => ?_, fun p hp => ?_⟩ <;> cases hp
  | true =>
    simp only [if_true]
    rcases h.resolvePin_cases a (pinText? signal) with ⟨pin, hpin⟩ | hno
    · exact Or.inl ⟨a, pin, hpin⟩
    · exact Or.inr hno

end Loaded

namespace Twin
variable {e e' : Engine} (h : e.Twin e')
include h

theorem cases : (e.circuit = none ∧ e'.circuit = none) ∨ ∃ c c', Loaded e e' c c' := by
  have hproper := h.regular.proper
  have hproper' := h.regular'.proper
  have hcircuits := h.circuits
  cases hc : e.circuit <;> cases hc' : e'.circuit <;> rw [hc, hc'] at hcircuits <;> cases hcircuits
  · exact Or.inl ⟨rfl, rfl⟩
  · next c c' htwin => exact Or.inr ⟨c, c', hc, hc', htwin, hproper c hc, hproper' c' hc'⟩

/-! ### What is shown -/

theorem outputNames : e'.outputNames = e.outputNames := by
  rcases h.cases with ⟨hc, hc'⟩ | ⟨c, c', hl⟩
  · simp only [Engine.outputNames, hc, hc']
  · simp only [Engine.outputNames, hl.circuit, hl.circuit', hl.copies.devices, Registry.rename,
      List.flatMap_map]
    refine List.flatMap_congr fun d hd => List.map_congr_left fun entry hentry => ?_
    exact hl.twin.label_carry hl.intact hl.intact' hd (List.mem_map_of_mem hentry)

theorem switchNames : e'.switchNames = e.switchNames := by
  rcases h.cases with ⟨hc, hc'⟩ | ⟨c, c', hl⟩
  · simp only [Engine.switchNames, hc, hc']
  · simp only [Engine.switchNames, hl.circuit, hl.circuit', hl.copies.devices,
      Registry.idsOf_rename, List.map_map]
    refine List.map_congr_left fun a ha => hl.twin.nameOf_carry ?_
    obtain ⟨d, hd, rfl⟩ := List.mem_map.1 ha
    exact List.mem_map_of_mem (List.mem_filter.1 hd).1

theorem monitoredNames : e'.monitoredNames = e.monitoredNames := by
  rcases h.cases with ⟨hc, hc'⟩ | ⟨c, c', hl⟩
  · simp only [Engine.monitoredNames, hc, hc']
  · simp only [Engine.monitoredNames, hl.circuit, hl.circuit', hl.copies.monitors, Monitors.names,
      List.map_map]
    exact List.map_congr_left fun m hm => hl.twin.monitor_name hl.intact hl.intact' hm

theorem signals : e'.signals = e.signals := by
  have hnames := h.monitoredNames
  rcases h.cases with ⟨hc, hc'⟩ | ⟨c, c', hl⟩
  · simp only [Engine.signals, hc, hc']
  · simp only [Engine.monitoredNames, hl.circuit, hl.circuit', hl.copies.monitors] at hnames
    simp only [Engine.signals, hl.circuit, hl.circuit', hnames, hl.copies.monitors,
      Monitors.traces_rename]

theorem histories : e'.histories = e.histories := by
  rw [Engine.histories, Engine.histories, h.monitoredNames]
  rcases h.cases with ⟨hc, hc'⟩ | ⟨c, c', hl⟩
  · rw [hc, hc']
  · rw [hl.circuit, hl.circuit', Option.map_some, Option.map_some, hl.copies.monitors,
      Option.getD_some, Option.getD_some, List.map_map]
    rfl

theorem setting? (name : Text) : e'.setting? name = e.setting? name := by
  have hsetting : ∀ (r : Registry) (o : Option NameId),
      o.bind r.setting? = (o.bind r.device?).bind fun d => d.state.setting? := by
    intro r o
    cases o with
    | none => rfl
    | some a =>
      rw [Option.bind_some, Option.bind_some, Registry.setting?]
      cases r.device? a with
      | none => rfl
      | some d => cases hs : d.state <;> simp [hs, State.setting?]
  rcases h.cases with ⟨hc, hc'⟩ | ⟨c, c', hl⟩
  · simp only [Engine.setting?, hc, hc']
    rfl
  · simp only [Engine.setting?, hl.circuit, hl.circuit', bind, Option.bind_some, hsetting,
      hl.device?_find?, Option.bind_map]
    rfl

theorem view (name : Text) : e'.view name = e.view name := by
  rcases h.cases with ⟨hc, hc'⟩ | ⟨c, c', hl⟩
  · simp only [Engine.view, hc, hc', Option.bind_none]
  · simp only [Engine.view, hl.circuit, hl.circuit', Option.bind_some, Session.view,
      hl.device?_find?, Option.map_map]
    refine Option.map_congr fun d hd => Prod.ext (List.map_congr_left fun entry hentry => ?_) rfl
    obtain ⟨a, -, ha⟩ := Option.bind_eq_some_iff.1 hd
    obtain ⟨hmem, -⟩ := hl.intact.sound.wellFormed.device?_eq_some_iff.1 ha
    exact Prod.ext (hl.nameOf_pin hmem (List.mem_map_of_mem hentry)) rfl

theorem output? (signal : Text) : e'.output? signal = e.output? signal := by
  have hnone : ∀ {r : Registry} {p : NameId × OutputPin}, r.isOutput p.1 p.2 = false →
      r.output? p.1 p.2 = none := by
    intro r p hp
    rw [Registry.isOutput, Option.any_eq_false] at hp
    exact Option.bind_eq_none_iff.2 fun d hd =>
      Option.not_isSome_iff_eq_none.1 (Bool.eq_false_iff.1 (hp d hd))
  have heq : ∀ {e : Engine} {c : Circuit}, e.circuit = some c →
      e.output? signal = (e.resolve c signal).bind fun p => c.devices.output? p.1 p.2 := by
    intro e c hc
    rw [Engine.output?, hc]
    rfl
  rcases h.cases with ⟨hc, hc'⟩ | ⟨c, c', hl⟩
  · simp only [Engine.output?, hc, hc']
    rfl
  · rw [heq hl.circuit, heq hl.circuit']
    rcases hl.resolve_cases signal with ⟨a, pin, ha, ha'⟩ | ⟨ha, ha'⟩
    · rw [ha, ha', Option.bind_some, Option.bind_some, hl.copies.devices]
      exact Registry.output?_rename (e.names.carry_injective e'.names) ..
    · rw [Option.bind_eq_none_iff.2 fun p hp => hnone (ha p hp),
        Option.bind_eq_none_iff.2 fun p hp => hnone (ha' p hp)]

theorem isMonitored (signal : Text) : e'.isMonitored signal = e.isMonitored signal := by
  rcases h.cases with ⟨hc, hc'⟩ | ⟨c, c', hl⟩
  · simp only [Engine.isMonitored, hc, hc']
  · simp only [Engine.isMonitored, hl.circuit, hl.circuit']
    rcases hl.resolve_cases signal with ⟨a, pin, ha, ha'⟩ | ⟨ha, ha'⟩
    · rw [ha, ha', Option.any_some, Option.any_some, hl.copies.monitors]
      exact Monitors.isMonitored_rename (e.names.carry_injective e'.names) ..
    · rw [(Option.any_eq_false _ _).2 fun p hp => hl.intact.isMonitored_eq_false (ha p hp),
        (Option.any_eq_false _ _).2 fun p hp => hl.intact'.isMonitored_eq_false (ha' p hp)]

/-! ### What calls do -/

/-- Whatever else is done to the engines. -/
theorem of_eq {r r' : Engine} (hn : r.names = e.names) (hc : r.circuit = e.circuit)
    (hn' : r'.names = e'.names) (hc' : r'.circuit = e'.circuit) : r.Twin r' := by
  refine ⟨⟨h.regular.proper.of_eq hn hc, hn ▸ h.regular.names⟩,
    ⟨h.regular'.proper.of_eq hn' hc', hn' ▸ h.regular'.names⟩, ?_⟩
  rw [hn, hn', hc, hc']
  exact h.circuits

/-- What is done to both circuits alike, if the wiring stays. -/
theorem of_keeps {r r' : Engine} (hr : r.Regular) (hr' : r'.Regular)
    (hk : e.Keeps Circuit.wiring r) (hk' : e'.Keeps Circuit.wiring r')
    (hcopies : Option.Rel (Circuit.Copies (e.names.carry e'.names)) r.circuit r'.circuit) :
    r.Twin r' := by
  refine ⟨hr, hr', ?_⟩
  rw [hk.names, hk'.names]
  cases hc : r.circuit <;> cases hc' : r'.circuit <;> rw [hc, hc'] at hcopies <;> cases hcopies
  · exact .none
  · next c c' hcopies =>
    rcases h.cases with ⟨hnone, -⟩ | ⟨c₀, c₀', hl⟩
    · have hsome := hk.isSome
      rw [hc, hnone] at hsome
      cases hsome
    · have hids : c.devices.ids = c₀.devices.ids :=
        Registry.ids_eq_of_wiring_eq (hk.eq hl.circuit hc)
      exact .some (hl.twin.of_ids hids hcopies)

theorem of_call {k : Call} (hk : k.isLoad = false) (hcopies : Option.Rel
    (Circuit.Copies (e.names.carry e'.names)) (e.call k).circuit (e'.call k).circuit) :
    (e.call k).Twin (e'.call k) :=
  h.of_keeps (h.regular.call k) (h.regular'.call k) (keeps_call h.regular.proper hk)
    (keeps_call h.regular'.proper hk) hcopies

end Twin

end Engine

end GateSim
