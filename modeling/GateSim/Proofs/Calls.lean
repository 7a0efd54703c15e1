import GateSim.Proofs.Engine
import GateSim.Proofs.Tables

/-!
# What calls keep

A call of an engine that loads nothing keeps the names and the diagnostics, and does nothing to the
circuit but simulate it, start it over, set switches and adjust monitors. So it keeps all that these
keep (`Engine.keeps_of_lasting`, `Engine.call_monitoring`): the wiring, first of all
(`Engine.keeps_calls`). A load puts a circuit over a standard table in place, whatever there was before
(`Engine.Regular`).
-/

namespace GateSim

namespace Circuit
variable {c : Circuit}

/-- What stays of a circuit in cycles, when it is started over and when its switches are set. -/
structure Lasting {α : Type} (F : Circuit → α) : Prop where
  step : ∀ c : Circuit, c.Sound → F c.step.2 = F c
  coldStart : ∀ c : Circuit, c.Sound → F c.coldStart = F c
  resetMonitors : ∀ c : Circuit, c.Sound → F c.resetMonitors = F c
  setSwitch : ∀ c : Circuit, c.Sound → ∀ id v, F (c.setSwitch id v).2 = F c

theorem devices_record (c : Circuit) : c.record.2.devices = c.devices := rfl

theorem wiring_step (h : c.Sound) : c.step.2.devices.wiring = c.devices.wiring := by
  rw [step]
  rcases hc : c.cycle with ⟨f | passes, c₁⟩
  · rw [cycle_error hc]
  · have hw : c₁.devices.wiring = c.devices.wiring :=
      (Registry.consistent_cycle h.wellFormed h.latched (cycle_eq_ok hc)).1
    have hrecord := devices_record c₁
    rcases hr : c₁.record with ⟨f | _, c₂⟩ <;> rw [hr] at hrecord <;> simp only [hr] <;>
      exact (congrArg Registry.wiring hrecord).trans hw

theorem wiring_setSwitch (h : c.Sound) (id : NameId) (v : Signal) :
    (c.setSwitch id v).2.devices.wiring = c.devices.wiring := by
  rw [setSwitch]
  cases hs : c.devices.setSwitch id v with
  | none => rfl
  | some r => exact h.wellFormed.wiring_setSwitch hs

/-- What making and connecting devices settles. -/
def wiring (c : Circuit) : Registry := c.devices.wiring

theorem lasting_wiring : Lasting wiring where
  step := fun _ h => wiring_step h
  coldStart := fun _ h => h.wellFormed.wiring_coldStart
  resetMonitors := fun _ _ => rfl
  setSwitch := fun _ h => wiring_setSwitch h

end Circuit

namespace Engine

/-- The call may put another circuit in place. -/
def Call.isLoad : Call → Bool
  | .load _ | .loadFile .. => true
  | _ => false

/-- The call sets or removes a monitor. -/
def Call.isMonitoring : Call → Bool
  | .addMonitor _ | .removeMonitor _ => true
  | _ => false

theorem Call.isLoad_of_isMonitoring {k : Call} (h : k.isMonitoring = true) : k.isLoad = false := by
  cases k with
  | load | loadFile => cases h
  | _ => rfl

/-- What is left alone by a call: the names, the diagnostics, and something of the circuit. -/
structure Keeps {α : Type} (F : Circuit → α) (e e' : Engine) : Prop where
  names : e'.names = e.names
  diagnostics : e'.diagnostics = e.diagnostics
  circuit : e'.circuit.map F = e.circuit.map F

variable {α : Type} {F : Circuit → α} {e e' e'' : Engine} {c c' : Circuit}

namespace Keeps

theorem of_eq (hn : e'.names = e.names) (hd : e'.diagnostics = e.diagnostics)
    (hc : e'.circuit = e.circuit) : e.Keeps F e' :=
  ⟨hn, hd, by rw [hc]⟩

theorem refl (F : Circuit → α) (e : Engine) : e.Keeps F e := ⟨rfl, rfl, rfl⟩

theorem symm (h : e.Keeps F e') : e'.Keeps F e :=
  ⟨h.names.symm, h.diagnostics.symm, h.circuit.symm⟩

theorem trans (h : e.Keeps F e') (h' : e'.Keeps F e'') : e.Keeps F e'' :=
  ⟨h'.names.trans h.names, h'.diagnostics.trans h.diagnostics, h'.circuit.trans h.circuit⟩

theorem of_circuit (hn : e'.names = e.names) (hd : e'.diagnostics = e.diagnostics)
    (hc : e.circuit = some c) (hc' : e'.circuit = some c') (hF : F c' = F c) : e.Keeps F e' :=
  ⟨hn, hd, by rw [hc, hc', Option.map_some, Option.map_some, hF]⟩

theorem isSome (h : e.Keeps F e') : e'.circuit.isSome = e.circuit.isSome := by
  have hc := congrArg Option.isSome h.circuit
  simpa using hc

theorem exists_circuit (h : e.Keeps F e') (hc : e.circuit = some c) :
    ∃ c', e'.circuit = some c' :=
  Option.isSome_iff_exists.1 (h.isSome.trans (Option.isSome_of_eq_some hc))

theorem eq (h : e.Keeps F e') (hc : e.circuit = some c) (hc' : e'.circuit = some c') :
    F c' = F c := by
  have heq := h.circuit
  rw [hc, hc', Option.map_some, Option.map_some] at heq
  exact Option.some.inj heq

end Keeps

theorem Proper.sound (h : e.Proper) (hc : e.circuit = some c) : c.Sound := (h c hc).sound

/-! ### Calls that leave the monitors where they are -/

section
variable (hF : Circuit.Lasting F) (h : e.Proper)
include hF h

theorem keeps_cycle : e.Keeps F e.cycle.2 := by
  rw [Engine.cycle]
  split
  · exact .of_eq rfl rfl rfl
  · next c hc =>
    have hstep := hF.step c (h.sound hc)
    rcases hs : c.step with ⟨f | passes, c'⟩ <;> rw [hs] at hstep
    · exact .of_circuit rfl rfl hc rfl hstep
    · exact .of_circuit rfl rfl hc rfl hstep

theorem keeps_cycles (n : Nat) : e.Keeps F (cycles n e) := by
  induction n generalizing e with
  | zero => exact .of_eq rfl rfl rfl
  | succ n ih =>
    have hkeeps := keeps_cycle hF h
    have hproper := h.cycle
    rw [cycles]
    rcases hcycle : e.cycle with ⟨_ | _, e'⟩ <;> rw [hcycle] at hkeeps hproper
    · exact hkeeps
    · exact hkeeps.trans (ih hproper)

theorem keeps_simulate (n : Nat) : e.Keeps F (e.simulate n) := by
  have hclear : e.Keeps F { e with message := [] } := .of_eq rfl rfl rfl
  exact hclear.trans (keeps_cycles hF h.clear n)

theorem keeps_coldStart : e.Keeps F e.coldStart := by
  cases hc : e.circuit with
  | none => exact ⟨rfl, rfl, by rw [Engine.coldStart, hc]; rfl⟩
  | some c =>
    exact .of_circuit rfl rfl hc (by rw [Engine.coldStart, hc]; rfl) (hF.coldStart c (h.sound hc))

theorem keeps_started : e.Keeps F e.started := by
  cases hc : e.circuit with
  | none => exact ⟨rfl, rfl, by rw [started, hc]; rfl⟩
  | some c =>
    have hs := h.sound hc
    exact .of_circuit rfl rfl hc (by rw [started, hc]; rfl)
      ((hF.resetMonitors c.coldStart hs.coldStart).trans (hF.coldStart c hs))

theorem keeps_run (n : Nat) : e.Keeps F (e.run n) := by
  cases hc : e.circuit with
  | none =>
    simp only [run, hc]
    exact .of_eq rfl rfl rfl
  | some c =>
    rw [run_eq (Option.isSome_of_eq_some hc)]
    exact (keeps_started hF h).trans (keeps_simulate hF h.started n)

theorem keeps_resume (n : Nat) : e.Keeps F (e.resume n) := by
  unfold resume
  split
  · exact .of_eq rfl rfl rfl
  split
  · exact keeps_simulate hF h n
  · exact .of_eq rfl rfl rfl

theorem keeps_of_responds {k : Call} {result : Bool × Engine} (hr : e.Responds k result)
    (hk : k.isMonitoring = false) : e.Keeps F result.2 := by
  cases hr with
  | unloaded | refused => exact .of_eq rfl rfl rfl
  | @switched _ value c _ a hc hset =>
    have hsets := hF.setSwitch c (h.sound hc) a (value == 1)
    rw [hset] at hsets
    exact .of_circuit rfl rfl hc rfl hsets
  | added | removed => cases hk

theorem keeps_of_lasting {k : Call} (hload : k.isLoad = false) (hk : k.isMonitoring = false) :
    e.Keeps F (e.call k) := by
  cases k with
  | load | loadFile => cases hload
  | addMonitor | removeMonitor => cases hk
  | run n => exact keeps_run hF h n
  | resume n => exact keeps_resume hF h n
  | cycle => exact keeps_cycle hF h
  | coldStart => exact keeps_coldStart hF h
  | setSwitch name value => exact keeps_of_responds hF h (e.responds_setSwitch name value) hk

end

/-! ### Calls that set and remove monitors -/

theorem devices_adjust (names : NameTable) (k : Call) (c : Circuit) :
    (adjust names k c).devices = c.devices := by
  cases k with
  | addMonitor signal | removeMonitor signal =>
    simp only [adjust]
    cases resolve { names } c signal <;> rfl
  | _ => rfl

theorem Responds.adjusts {k : Call} {result : Bool × Engine} (hr : e.Responds k result)
    (hk : k.isMonitoring = true) :
    result.2.names = e.names ∧ result.2.diagnostics = e.diagnostics ∧
      result.2.circuit = e.circuit.map (adjust e.names k) := by
  cases hr with
  | unloaded hc => exact ⟨rfl, rfl, by rw [hc]; exact hc⟩
  | refused hc _ hsame => exact ⟨rfl, rfl, by rw [hc, Option.map_some, hsame]; exact hc⟩
  | switched => cases hk
  | added hc hp hm => exact ⟨rfl, rfl, by rw [hc, Option.map_some, adjust_addMonitor hp, hm]⟩
  | removed hc hp hm => exact ⟨rfl, rfl, by rw [hc, Option.map_some, adjust_removeMonitor hp, hm]⟩

theorem call_monitoring (e : Engine) {k : Call} (hk : k.isMonitoring = true) :
    (e.call k).names = e.names ∧ (e.call k).diagnostics = e.diagnostics ∧
      (e.call k).circuit = e.circuit.map (adjust e.names k) := by
  cases k with
  | addMonitor signal => exact (e.responds_addMonitor signal).adjusts hk
  | removeMonitor signal => exact (e.responds_removeMonitor signal).adjusts hk
  | _ => cases hk

/-! ### Calls that load nothing -/

theorem keeps_call (h : e.Proper) {k : Call} (hload : k.isLoad = false) :
    e.Keeps Circuit.wiring (e.call k) := by
  cases hk : k.isMonitoring with
  | false => exact keeps_of_lasting Circuit.lasting_wiring h hload hk
  | true =>
    obtain ⟨hnames, hdiagnostics, hcircuit⟩ := e.call_monitoring hk
    refine ⟨hnames, hdiagnostics, ?_⟩
    rw [hcircuit, Option.map_map]
    exact Option.map_congr fun c _ => congrArg Registry.wiring (devices_adjust e.names k c)

theorem keeps_calls (h : e.Proper) {calls : List Call} (hcalls : ∀ k ∈ calls, k.isLoad = false) :
    e.Keeps Circuit.wiring (calls.foldl call e) := by
  induction calls generalizing e with
  | nil => exact .refl _ e
  | cons k calls ih =>
    obtain ⟨hk, hcalls⟩ := List.forall_mem_cons.1 hcalls
    exact (keeps_call h hk).trans (ih (h.call k) hcalls)

/-! ### Any calls -/

/-- The engine has a proper circuit, if one at all, and has seen nothing or the standard names. -/
structure Regular (e : Engine) : Prop where
  proper : e.Proper
  names : e.names = {} ∨ e.names.Standard

theorem names_load (e : Engine) (d : Definition) : (e.load d).2.names = d.names e.names := by
  obtain ⟨draft, ds, -, hbuild⟩ := d.build_eq e.names
  unfold load
  simp only [hbuild]
  split <;> rfl

theorem Regular.load (h : e.Regular) (d : Definition) : (e.load d).2.Regular :=
  ⟨Proper.load e d, Or.inr (e.names_load d ▸ NameTable.standard_names d h.names)⟩

theorem Regular.call (h : e.Regular) (k : Call) : (e.call k).Regular := by
  by_cases hk : k.isLoad = false
  · exact ⟨h.proper.call k, (keeps_call h.proper hk).names ▸ h.names⟩
  · cases k with
    | load d => exact h.load d
    | loadFile path contents =>
      cases contents with
      | none => exact ⟨h.proper.call _, h.names⟩
      | some text => exact h.load _
    | _ => exact absurd rfl hk

theorem Regular.calls (h : e.Regular) (calls : List Call) :
    (calls.foldl Engine.call e).Regular := by
  induction calls generalizing e with
  | nil => exact h
  | cons k calls ih => exact ih (h.call k)

theorem Regular.started (h : e.Regular) : e.started.Regular := ⟨h.proper.started, h.names⟩

theorem Reachable.regular (h : e.Reachable) : e.Regular := by
  obtain ⟨calls, rfl⟩ := h
  refine Regular.calls ⟨fun c hc => ?_, Or.inl rfl⟩ calls
  cases hc

end Engine

end GateSim
