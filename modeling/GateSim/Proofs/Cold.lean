import GateSim.Proofs.Calls

/-!
# Cold circuits

A run starts from cold devices and from empty monitors. What it starts from (`Engine.cold`) depends on
the wiring of the circuit and on which outputs are monitored, and calls other than those that set and
remove monitors leave both alone (`Engine.cold_call`). So of all calls since the load, only these two
matter to a run (`Engine.cold_calls`).
-/

namespace GateSim

/-! ### Cold devices -/

namespace Device
variable {pins : Pins} {d : Device}

/-- A reset sets every output, so that nothing is left of the values before. -/
theorem reset_eq (h : d.WellFormed pins) : d.reset pins =
    { d with state := d.state.reset, outputs := PinMap.putAll (d.state.startOutputs pins) [] } := by
  rw [reset_eq_start]
  refine congrArg (fun outputs => { d with state := d.state.reset, outputs }) ?_
  refine (h.outputs.putAll _).ext (PinMap.Ascending.nil.putAll _) fun pin => ?_
  rw [PinMap.get?_putAll, PinMap.get?_putAll, PinMap.get?_nil]
  cases hpin : (d.state.startOutputs pins).reverse.lookup pin with
  | some v => rfl
  | none =>
    have hstart : pin ∉ d.state.outputPins pins := by
      have hkeys := PinMap.get?_eq_none_iff.1 hpin
      rwa [PinMap.keys, List.map_reverse, List.mem_reverse] at hkeys
    exact PinMap.get?_eq_none_iff.2 fun hkey => hstart ((h.mem_outputs pin).1 hkey)

theorem reset_wiring (h : d.WellFormed pins) : d.wiring.reset pins = d.reset pins := by
  rw [reset_eq h, reset_eq (wellFormed_wiring.2 h)]
  simp only [wiring, State.reset_reset, State.startOutputs_reset]

end Device

namespace Registry
variable {r r' : Registry} {a : NameId} {pin : OutputPin}

theorem WellFormed.coldStart_wiring (h : r.WellFormed) : r.wiring.coldStart = r.coldStart := by
  simp only [coldStart, wiring, List.map_map]
  congr 1
  exact List.map_congr_left fun d hd => Device.reset_wiring (h.devices d hd)

/-- Devices that are wired alike are alike when they are cold. -/
theorem WellFormed.coldStart_eq (h : r.WellFormed) (hw : r'.wiring = r.wiring) :
    r'.coldStart = r.coldStart := by
  rw [← (h.of_wiring_eq hw).coldStart_wiring, hw, h.coldStart_wiring]

theorem WellFormed.isOutput_of_wiring_eq (h : r.WellFormed) (hw : r'.wiring = r.wiring) :
    r'.isOutput a pin = r.isOutput a pin := by
  have hmono : ∀ {r r' : Registry}, r.WellFormed → r'.WellFormed → r'.wiring = r.wiring →
      r'.isOutput a pin = true → r.isOutput a pin = true := by
    intro r r' h h' hw hout
    obtain ⟨d', hd', rfl, hkey⟩ := h'.isOutput_iff.1 hout
    obtain ⟨d, hd, heq⟩ := exists_mem_of_wiring_eq hw hd'
    obtain ⟨hid, -, -, hkeys, -⟩ := Device.wiring_eq_iff.1 heq
    exact h.isOutput_iff.2 ⟨d, hd, hid, hkeys ▸ hkey⟩
  have h' := h.of_wiring_eq hw
  exact Bool.eq_iff_iff.2 ⟨hmono h h' hw, hmono h' h hw.symm⟩

end Registry

/-! ### Empty monitors -/

namespace Monitors
variable {r : Registry} (ms : Monitors) (a : NameId) (pin : OutputPin)

theorem reset_reset : ms.reset.reset = ms.reset := by
  rw [reset, reset, List.map_map]
  rfl

theorem reset_record (r : Registry) : (record r ms).2.reset = ms.reset := by
  induction ms with
  | nil => rfl
  | cons m ms ih =>
    rw [record]
    cases r.output? m.device m.pin with
    | none => rfl
    | some v => exact congrArg (m.reset :: ·) ih

/-- Nothing is left of monitors but their outputs. -/
theorem reset_eq_of_outputs {ms ms' : Monitors}
    (h : (ms'.map fun m => (m.device, m.pin)) = ms.map fun m => (m.device, m.pin)) :
    ms'.reset = ms.reset := by
  have hreset : ∀ ms : Monitors, ms.reset =
      (ms.map fun m => (m.device, m.pin)).map fun p => { device := p.1, pin := p.2 } := fun ms => by
    rw [List.map_map]
    rfl
  rw [hreset, hreset, h]

theorem names_reset (names : NameTable) : ms.reset.names names = ms.names names := by
  rw [Monitors.names, reset, List.map_map]
  rfl

theorem isMonitored_reset : ms.reset.isMonitored a pin = ms.isMonitored a pin := by
  rw [isMonitored, isMonitored, find?, reset, List.find?_map, Option.isSome_map]
  rfl

/-- A monitor is set on a cold output as on one that is not. -/
theorem insert_reset (h : r.WellFormed) : insert r.coldStart ms.reset a pin =
    ((insert r ms a pin).1, (insert r ms a pin).2.reset) := by
  have hhas : r.coldStart.has a = r.has a := rfl
  have hout : r.coldStart.isOutput a pin = r.isOutput a pin :=
    h.isOutput_of_wiring_eq h.wiring_coldStart
  simp only [insert, hhas, hout, isMonitored_reset]
  split
  · rfl
  split
  · rfl
  split
  · rfl
  · rw [reset, reset, List.map_append]
    rfl

theorem erase_reset : erase ms.reset a pin = ((erase ms a pin).1, (erase ms a pin).2.reset) := by
  simp only [erase, isMonitored_reset]
  cases ms.isMonitored a pin
  · rfl
  · exact congrArg (MonitorStatus.ok, ·) (List.eraseP_map ..)

end Monitors

/-! ### What a run starts from -/

namespace Circuit
variable {c c' : Circuit}

/-- The circuit as a run starts with it. How many passes the last cycle took does not matter to it. -/
def cold (c : Circuit) : Circuit where
  devices := c.devices.coldStart
  monitors := c.monitors.reset

theorem Sound.cold_eq (h : c.Sound) (hw : c'.devices.wiring = c.devices.wiring)
    (hm : c'.monitors.reset = c.monitors.reset) : c'.cold = c.cold := by
  rw [cold, cold, h.wellFormed.coldStart_eq hw, hm]

theorem reset_step (c : Circuit) : c.step.2.monitors.reset = c.monitors.reset := by
  have hcycle : c.cycle.2.monitors = c.monitors := by
    rw [cycle]
    split <;> rfl
  have hrecord : ∀ c : Circuit, c.record.2.monitors.reset = c.monitors.reset := fun c =>
    c.monitors.reset_record c.devices
  rw [step]
  rcases hc : c.cycle with ⟨f | passes, c₁⟩ <;> rw [hc] at hcycle
  · exact congrArg Monitors.reset hcycle
  · have hreset := (hrecord c₁).trans (congrArg Monitors.reset hcycle)
    rcases hr : c₁.record with ⟨f | _, c₂⟩ <;> rw [hr] at hreset <;> simp only [hr] <;> exact hreset

theorem reset_setSwitch (c : Circuit) (a : NameId) (v : Signal) :
    (c.setSwitch a v).2.monitors.reset = c.monitors.reset := by
  unfold setSwitch
  cases c.devices.setSwitch a v <;> rfl

theorem lasting_cold : Lasting cold where
  step := fun c h => h.cold_eq (wiring_step h) c.reset_step
  coldStart := fun _ h => h.cold_eq h.wellFormed.wiring_coldStart rfl
  resetMonitors := fun c h => h.cold_eq rfl c.monitors.reset_reset
  setSwitch := fun c h a v => h.cold_eq (wiring_setSwitch h a v) (c.reset_setSwitch a v)

theorem Sound.cold_monitor (h : c.Sound) (a : NameId) (pin : OutputPin) :
    (c.monitor a pin).2.cold = (c.cold.monitor a pin).2 := by
  simp only [monitor, cold, Monitors.insert_reset _ _ _ h.wellFormed]

theorem cold_unmonitor (c : Circuit) (a : NameId) (pin : OutputPin) :
    (c.unmonitor a pin).2.cold = (c.cold.unmonitor a pin).2 := by
  simp only [unmonitor, cold, Monitors.erase_reset]

end Circuit

namespace Engine
variable {e e' : Engine} {c c' : Circuit}

/-- What a run starts from. -/
def cold (e : Engine) : NameTable × Option Circuit := (e.names, e.circuit.map Circuit.cold)

theorem Keeps.cold_eq (h : e.Keeps Circuit.cold e') : e'.cold = e.cold :=
  Prod.ext h.names h.circuit

theorem cold_call (h : e.Proper) {k : Call} (hload : k.isLoad = false)
    (hk : k.isMonitoring = false) : (e.call k).cold = e.cold :=
  (keeps_of_lasting Circuit.lasting_cold h hload hk).cold_eq

theorem cold_adjust (h : c.Sound) (names : NameTable) (k : Call) :
    (adjust names k c).cold = adjust names k c.cold := by
  have hresolve : ∀ signal, resolve { names } c.cold signal = resolve { names } c signal :=
    fun _ => rfl
  cases k with
  | addMonitor signal =>
    simp only [adjust, hresolve]
    cases resolve { names } c signal with
    | none => rfl
    | some p => exact h.cold_monitor p.1 p.2
  | removeMonitor signal =>
    simp only [adjust, hresolve]
    cases resolve { names } c signal with
    | none => rfl
    | some p => exact c.cold_unmonitor p.1 p.2
  | _ => rfl

/-- What a run starts from after a monitor was set or removed depends on nothing else than what it
started from before. -/
theorem cold_call_monitoring (h : e.Proper) {k : Call} (hk : k.isMonitoring = true) :
    (e.call k).cold = (e.cold.1, e.cold.2.map (adjust e.cold.1 k)) := by
  obtain ⟨hnames, -, hcircuit⟩ := e.call_monitoring hk
  rw [cold, hnames, hcircuit, cold, Option.map_map, Option.map_map]
  exact congrArg (e.names, ·) (Option.map_congr fun c hc => cold_adjust (h.sound hc) e.names k)

/-- Only the calls that set and remove monitors matter to a later run. -/
theorem cold_calls (h : e.Proper) (h' : e'.Proper) (heq : e'.cold = e.cold) {calls : List Call}
    (hcalls : ∀ k ∈ calls, k.isLoad = false) :
    ((calls.filter (·.isMonitoring)).foldl call e').cold = (calls.foldl call e).cold := by
  induction calls generalizing e e' with
  | nil => exact heq
  | cons k calls ih =>
    obtain ⟨hload, hcalls⟩ := List.forall_mem_cons.1 hcalls
    cases hk : k.isMonitoring with
    | true =>
      rw [List.filter_cons_of_pos hk]
      refine ih (h.call k) (h'.call k) ?_ hcalls
      rw [cold_call_monitoring h hk, cold_call_monitoring h' hk, heq]
    | false =>
      rw [List.filter_cons_of_neg (Bool.not_eq_true _ ▸ hk)]
      exact ih (h.call k) h' (heq.trans (cold_call h hload hk).symm) hcalls

theorem monitoredNames_of_cold (h : e'.cold = e.cold) : e'.monitoredNames = e.monitoredNames := by
  have hnames : ∀ e : Engine, e.monitoredNames =
      (e.cold.2.map fun c => c.monitors.names e.cold.1).getD [] := by
    intro e
    cases hc : e.circuit with
    | none => simp only [monitoredNames, cold, hc]; rfl
    | some c =>
      simp only [monitoredNames, cold, hc, Option.map_some, Option.getD_some]
      exact (Monitors.names_reset _ _).symm
  rw [hnames, hnames, h]

end Engine

end GateSim
