import GateSim.Proofs.Twins

/-!
# Calls of engines with twins of circuits

A call of both engines has the same outcome, and leaves twins of circuits again (`Engine.InStep`).
Only a monitor on a signal that is no output may be refused in other words, since what the signal says
after its dot may be a name to one of the engines.
-/

namespace GateSim

namespace Engine

/-- A name that stands for no device is not that of a switch. -/
theorem setSwitch_of_absent {e : Engine} {c : Circuit} {name : Text} {value : Int}
    (hc : e.circuit = some c) (hs : Session.Intact ⟨e.names, c⟩) (hv : ¬ (value ≠ 0 ∧ value ≠ 1))
    (hhas : ∀ a, e.names.find? name = some a → c.devices.has a = false) :
    e.setSwitch name value = (false, e.refuse (.ofString "Invalid switch: " ++ name)) := by
  simp only [Engine.setSwitch, hc, if_neg hv]
  split
  · next c₁ heq =>
    obtain ⟨a, ha, hset⟩ := Option.map_eq_some_iff.1 heq
    have hw := hs.sound.wellFormed
    have hid : a ∉ c.devices.ids := fun hid => Bool.eq_false_iff.1 (hhas a ha) (hw.has_iff.2 hid)
    rw [Circuit.setSwitch, hw.setSwitch_eq_none hid] at hset
    cases hset
  · rfl

/-- The words for a signal that is no output. -/
def refusals (signal : Text) : List Text :=
  [.ofString "Unknown signal: " ++ signal, signal ++ .ofString " is not an output"]

theorem addMonitor_of_not_output {e : Engine} {c : Circuit} {signal : Text}
    (hc : e.circuit = some c)
    (hno : ∀ p, e.resolve c signal = some p → c.devices.isOutput p.1 p.2 = false) :
    ∃ m ∈ refusals signal, e.addMonitor signal = (false, e.refuse m) := by
  cases hr : e.resolve c signal with
  | none => exact ⟨_, List.mem_cons_self .., by simp only [Engine.addMonitor, hc, hr]⟩
  | some p =>
    refine ⟨_, List.mem_cons_of_mem _ (List.mem_cons_self ..), ?_⟩
    simp only [Engine.addMonitor, hc, hr, Circuit.monitor, Monitors.insert, hno p hr]
    cases c.devices.has p.1 <;> rfl

theorem removeMonitor_of_not_output {e : Engine} {c : Circuit} {signal : Text}
    (hc : e.circuit = some c) (hs : Session.Intact ⟨e.names, c⟩)
    (hno : ∀ p, e.resolve c signal = some p → c.devices.isOutput p.1 p.2 = false) :
    e.removeMonitor signal = (false, e.refuse (signal ++ .ofString " is not monitored")) := by
  cases hr : e.resolve c signal with
  | none => simp only [Engine.removeMonitor, hc, hr]
  | some p =>
    have hm : c.monitors.isMonitored p.1 p.2 = false := hs.isMonitored_eq_false (hno p hr)
    simp only [Engine.removeMonitor, hc, hr, Circuit.unmonitor, Monitors.erase, hm]
    rfl

/-- What is done to both engines has the same outcome, as far as they agreed before. A message is left
in both or in none. -/
structure InStep (e e' r r' : Engine) : Prop where
  twin : r.Twin r'
  state : e'.state = e.state → r'.state = r.state
  statistics : e'.statistics = e.statistics → r'.statistics = r.statistics
  hasRun : e'.hasRun = e.hasRun → r'.hasRun = r.hasRun
  diagnostics : e'.diagnostics = e.diagnostics → r'.diagnostics = r.diagnostics
  message : r'.message = r.message ∨ r.message = e.message ∧ r'.message = e'.message

theorem InStep.trans {e e' r r' q q' : Engine} (h : InStep e e' r r') (h' : InStep r r' q q') :
    InStep e e' q q' where
  twin := h'.twin
  state := h'.state ∘ h.state
  statistics := h'.statistics ∘ h.statistics
  hasRun := h'.hasRun ∘ h.hasRun
  diagnostics := h'.diagnostics ∘ h.diagnostics
  message := h'.message.elim Or.inl fun hq => h.message.imp
    (fun hr => by rw [hq.1, hq.2, hr]) fun hr => ⟨hq.1.trans hr.1, hq.2.trans hr.2⟩

/-- Only the circuits change. -/
theorem InStep.of_circuits {e e' : Engine} {c c' : Option Circuit}
    (h : Twin { e with circuit := c } { e' with circuit := c' }) :
    InStep e e' { e with circuit := c } { e' with circuit := c' } where
  twin := h
  state := fun hs => hs
  statistics := fun hs => hs
  hasRun := fun hs => hs
  diagnostics := fun hs => hs
  message := Or.inr ⟨rfl, rfl⟩

namespace Twin
variable {e e' : Engine} (h : e.Twin e')
include h

theorem fail (message : Text) : InStep e e' (e.fail message) (e'.fail message) where
  twin := h.of_eq rfl rfl rfl rfl
  state := fun _ => rfl
  statistics := fun hs => hs
  hasRun := fun hs => hs
  diagnostics := fun hs => hs
  message := Or.inl rfl

theorem refuse (message : Text) : InStep e e' (e.refuse message) (e'.refuse message) where
  twin := h.of_eq rfl rfl rfl rfl
  state := fun hs => hs
  statistics := fun hs => hs
  hasRun := fun hs => hs
  diagnostics := fun hs => hs
  message := Or.inl rfl

theorem cycle : e'.cycle.1 = e.cycle.1 ∧ InStep e e' e.cycle.2 e'.cycle.2 ∧
    (e.cycle.1 = false → e'.cycle.2.state = e.cycle.2.state) := by
  rcases h.cases with ⟨hc, hc'⟩ | ⟨c, c', hl⟩
  · simp only [Engine.cycle, hc, hc', true_and]
    exact ⟨h.fail _, fun _ => rfl⟩
  have htwin := h.of_call (k := .cycle) rfl
  simp only [call] at htwin
  rcases Circuit.step_twin hl.twin hl.reachable hl.reachable' with
    ⟨passes, c₁, c₁', hstep, hstep', hcopies⟩ | ⟨f, f', hstep, hstep', hreport⟩
  · simp only [Engine.cycle, hl.circuit, hl.circuit', hstep, hstep', true_and] at htwin ⊢
    exact ⟨⟨htwin (.some hcopies), fun hs => hs, fun hs => by rw [hs], fun hs => hs, fun hs => hs,
      Or.inr ⟨rfl, rfl⟩⟩, fun hfalse => absurd hfalse (by decide)⟩
  · simp only [Engine.cycle, hl.circuit, hl.circuit', hstep, hstep', hreport, true_and]
    rw [← hl.circuit, ← hl.circuit']
    exact ⟨h.fail _, fun _ => rfl⟩

/-- Both series of cycles end in the same state, whatever the states before. -/
theorem cycles (n : Nat) : InStep e e' (cycles n e) (cycles n e') ∧
    (Engine.cycles n e').state = (Engine.cycles n e).state := by
  induction n generalizing e e' with
  | zero =>
    exact ⟨⟨h.of_eq rfl rfl rfl rfl, fun _ => rfl, fun hs => hs, fun hs => hs, fun hs => hs,
      Or.inr ⟨rfl, rfl⟩⟩, rfl⟩
  | succ n ih =>
    obtain ⟨hsame, hstep, hstate⟩ := h.cycle
    rw [Engine.cycles, Engine.cycles]
    rcases he : e.cycle with ⟨_ | _, r⟩ <;> rcases he' : e'.cycle with ⟨b, r'⟩ <;>
      rw [he, he'] at hsame hstep hstate <;> cases hsame
    · exact ⟨hstep, hstate rfl⟩
    · obtain ⟨hrest, hend⟩ := ih hstep.twin
      exact ⟨hstep.trans hrest, hend⟩

/-- Cycles in succession, of which earlier messages are gone. -/
theorem simulate (n : Nat) : InStep e e' (e.simulate n) (e'.simulate n) ∧
    (e'.simulate n).state = (e.simulate n).state ∧
    (e'.simulate n).message = (e.simulate n).message := by
  have hclear : Twin { e with message := [] } { e' with message := [] } := h.of_eq rfl rfl rfl rfl
  obtain ⟨hstep, hstate⟩ := hclear.cycles n
  have hmessage : (e'.simulate n).message = (e.simulate n).message := by
    rcases hstep.message with hm | ⟨hm, hm'⟩
    · exact hm
    · exact hm'.trans hm.symm
  exact ⟨⟨hstep.twin, hstep.state, hstep.statistics, hstep.hasRun, hstep.diagnostics,
    Or.inl hmessage⟩, hstate, hmessage⟩

theorem started : InStep e e' e.started e'.started := by
  have hcopies : Option.Rel (Circuit.Copies (e.names.carry e'.names)) e.started.circuit
      e'.started.circuit := by
    rcases h.cases with ⟨hc, hc'⟩ | ⟨c, c', hl⟩
    · rw [Engine.started, Engine.started, hc, hc']
      exact .none
    · rw [Engine.started, Engine.started, hl.circuit, hl.circuit']
      have hinj := e.names.carry_injective e'.names
      exact .some ((hl.copies.coldStart hinj).resetMonitors hinj)
  have htwin := h.of_keeps h.regular.started h.regular'.started
    (keeps_started Circuit.lasting_wiring h.regular.proper)
    (keeps_started Circuit.lasting_wiring h.regular'.proper) hcopies
  refine ⟨htwin, fun hs => hs, fun hs => ?_, fun _ => rfl, fun hs => hs, Or.inr ⟨rfl, rfl⟩⟩
  show { e'.statistics with runs := e'.statistics.runs + 1 } = _
  rw [hs]
  rfl

theorem run (n : Nat) : InStep e e' (e.run n) (e'.run n) := by
  rcases h.cases with ⟨hc, hc'⟩ | ⟨c, c', hl⟩
  · simp only [Engine.run, hc, hc']
    exact h.fail _
  · rw [run_eq (by rw [hl.circuit]; rfl), run_eq (by rw [hl.circuit']; rfl)]
    exact h.started.trans (h.started.twin.simulate n).1

theorem resume (hr : e'.hasRun = e.hasRun) (n : Nat) :
    InStep e e' (e.resume n) (e'.resume n) := by
  rcases h.cases with ⟨hc, hc'⟩ | ⟨c, c', hl⟩
  · simp only [Engine.resume, hc, hc']
    exact h.fail _
  · simp only [Engine.resume, hl.circuit, hl.circuit', hr, Option.isNone_some, Bool.false_eq_true,
      if_false]
    cases e.hasRun with
    | false => exact h.fail _
    | true => exact (h.simulate n).1

theorem coldStart : InStep e e' e.coldStart e'.coldStart := by
  have hcopies : Option.Rel (Circuit.Copies (e.names.carry e'.names)) e.coldStart.circuit
      e'.coldStart.circuit := by
    rcases h.cases with ⟨hc, hc'⟩ | ⟨c, c', hl⟩
    · rw [Engine.coldStart, Engine.coldStart, hc, hc']
      exact .none
    · rw [Engine.coldStart, Engine.coldStart, hl.circuit, hl.circuit']
      exact .some (hl.copies.coldStart (e.names.carry_injective e'.names))
  exact .of_circuits (h.of_call (k := .coldStart) rfl hcopies)

theorem setSwitch (name : Text) (value : Int) :
    (e'.setSwitch name value).1 = (e.setSwitch name value).1 ∧
      InStep e e' (e.setSwitch name value).2 (e'.setSwitch name value).2 := by
  rcases h.cases with ⟨hc, hc'⟩ | ⟨c, c', hl⟩
  · simp only [Engine.setSwitch, hc, hc', true_and]
    exact h.fail _
  by_cases hv : value ≠ 0 ∧ value ≠ 1
  · simp only [Engine.setSwitch, hl.circuit, hl.circuit', if_pos hv, true_and]
    exact h.refuse _
  rcases hl.twin.find?_cases hl.intact hl.intact' name with ⟨a, ha, ha'⟩ | ⟨ha, ha'⟩
  case inr =>
    rw [setSwitch_of_absent hl.circuit hl.intact hv ha,
      setSwitch_of_absent hl.circuit' hl.intact' hv ha']
    exact ⟨rfl, h.refuse _⟩
  have htwin := h.of_call (k := .setSwitch name value) rfl
  simp only [call, Engine.setSwitch, hl.circuit, hl.circuit', if_neg hv] at htwin ⊢
  obtain ⟨hresult, hcopies⟩ :=
    hl.copies.setSwitch (e.names.carry_injective e'.names) a (value == 1)
  dsimp only at ha ha'
  simp only [ha, ha', Option.map_some] at htwin ⊢
  rcases hset : c.setSwitch a (value == 1) with ⟨_ | _, c₁⟩ <;>
    rcases hset' : c'.setSwitch (e.names.carry e'.names a) (value == 1) with ⟨b, c₁'⟩ <;>
    rw [hset, hset'] at hresult hcopies <;> cases hresult
  · exact ⟨rfl, h.refuse _⟩
  · simp only [hset, hset'] at htwin
    exact ⟨rfl, .of_circuits (htwin (.some hcopies))⟩

/-- A monitor is set in both or in none. If there is no such output, each engine may put this in its
own words. -/
theorem addMonitor (signal : Text) :
    ((e'.addMonitor signal).1 = (e.addMonitor signal).1 ∧
      InStep e e' (e.addMonitor signal).2 (e'.addMonitor signal).2) ∨
    ∃ m ∈ refusals signal, ∃ m' ∈ refusals signal,
      e.addMonitor signal = (false, e.refuse m) ∧ e'.addMonitor signal = (false, e'.refuse m') := by
  rcases h.cases with ⟨hc, hc'⟩ | ⟨c, c', hl⟩
  · simp only [Engine.addMonitor, hc, hc', true_and]
    exact Or.inl (h.fail _)
  rcases hl.resolve_cases signal with ⟨a, pin, ha, ha'⟩ | ⟨hno, hno'⟩
  case inr =>
    obtain ⟨m, hm, heq⟩ := addMonitor_of_not_output hl.circuit hno
    obtain ⟨m', hm', heq'⟩ := addMonitor_of_not_output hl.circuit' hno'
    exact Or.inr ⟨m, hm, m', hm', heq, heq'⟩
  have htwin := h.of_call (k := .addMonitor signal) rfl
  obtain ⟨hresult, hcopies⟩ := hl.copies.monitor (e.names.carry_injective e'.names) a pin
  simp only [call, Engine.addMonitor, hl.circuit, hl.circuit', ha, ha'] at htwin ⊢
  rcases hset : c.monitor a pin with ⟨status, c₁⟩
  rcases hset' : c'.monitor (e.names.carry e'.names a) pin with ⟨status', c₁'⟩
  rw [hset, hset'] at hresult hcopies
  obtain rfl : status' = status := hresult
  simp only [hset, hset'] at htwin
  cases status' with
  | ok => exact Or.inl ⟨rfl, .of_circuits (htwin (.some hcopies))⟩
  | _ => exact Or.inl ⟨rfl, h.refuse _⟩

theorem removeMonitor (signal : Text) :
    (e'.removeMonitor signal).1 = (e.removeMonitor signal).1 ∧
      InStep e e' (e.removeMonitor signal).2 (e'.removeMonitor signal).2 := by
  rcases h.cases with ⟨hc, hc'⟩ | ⟨c, c', hl⟩
  · simp only [Engine.removeMonitor, hc, hc', true_and]
    exact h.fail _
  rcases hl.resolve_cases signal with ⟨a, pin, ha, ha'⟩ | ⟨hno, hno'⟩
  case inr =>
    rw [removeMonitor_of_not_output hl.circuit hl.intact hno,
      removeMonitor_of_not_output hl.circuit' hl.intact' hno']
    exact ⟨rfl, h.refuse _⟩
  have htwin := h.of_call (k := .removeMonitor signal) rfl
  obtain ⟨hresult, hcopies⟩ := hl.copies.unmonitor (e.names.carry_injective e'.names) a pin
  simp only [call, Engine.removeMonitor, hl.circuit, hl.circuit', ha, ha'] at htwin ⊢
  rcases hset : c.unmonitor a pin with ⟨status, c₁⟩
  rcases hset' : c'.unmonitor (e.names.carry e'.names a) pin with ⟨status', c₁'⟩
  rw [hset, hset'] at hresult hcopies
  obtain rfl : status' = status := hresult
  simp only [hset, hset'] at htwin
  cases status' with
  | ok => exact ⟨rfl, .of_circuits (htwin (.some hcopies))⟩
  | _ => exact ⟨rfl, h.refuse _⟩

end Twin

end Engine

end GateSim
