import GateSim.Engine
import GateSim.Proofs.Invariant

/-!
# Engines

The circuit of an engine is one of a session, since every call does to it what operations without
damage do (`Engine.Reachable.session`). So a cycle of an engine either succeeds, its samples
included, or changes nothing but state and message (`Engine.cycle_cases`). A run that is resumed
makes up for the cycle that stopped it, if one did: it fails again, in the same way. What comes of a
call that sets a switch or sets or removes a monitor is said once (`Engine.Responds`).
-/

namespace GateSim

namespace Monitors
variable {r : Registry} {ms : Monitors}

theorem record_of_exist (hw : r.WellFormed) (h : ms.Exist r) : (record r ms).1 = none := by
  induction ms with
  | nil => rfl
  | cons m ms ih =>
    obtain ⟨⟨d, hd, hid, hpin⟩, hms⟩ := List.forall_mem_cons.1 h
    obtain ⟨v, hv⟩ := Option.isSome_iff_exists.1 (PinMap.contains_iff.2 hpin)
    have hout : r.output? m.device m.pin = some v := by rw [← hid, hw.output?_of_mem hd, hv]
    unfold record
    rw [hout]
    exact ih hms

theorem insert_cases (ms : Monitors) (a : NameId) (pin : OutputPin) (r : Registry) :
    (insert r ms a pin).1 = .ok ∨ (insert r ms a pin).2 = ms := by
  unfold insert
  split
  · exact Or.inr rfl
  split
  · exact Or.inr rfl
  split
  · exact Or.inr rfl
  · exact Or.inl rfl

theorem erase_cases (ms : Monitors) (a : NameId) (pin : OutputPin) :
    (erase ms a pin).1 = .ok ∨ (erase ms a pin).2 = ms := by
  unfold erase
  split
  · exact Or.inl rfl
  · exact Or.inr rfl

end Monitors

namespace Circuit
variable {c : Circuit} {names : NameTable}

theorem exists_record (hw : c.devices.WellFormed) (hm : c.monitors.Exist c.devices) :
    ∃ c', c.record = (.ok (), c') := by
  rcases hr : Monitors.record c.devices c.monitors with ⟨fault, ms⟩
  have hfault : fault = none := by
    rw [← Monitors.record_of_exist hw hm, hr]
  exact ⟨{ c with monitors := ms }, by simp only [record, hr, hfault]⟩

/-- A cycle succeeds and all monitored outputs are sampled, or the circuit is left as it was. -/
theorem step_cases (h : Session.Reachable ⟨names, c⟩) :
    (∃ passes c', c.step = (.ok passes, c') ∧ Session.Reachable ⟨names, c'⟩) ∨
      ∃ f, c.step = (.error f, c) := by
  rcases hc : c.cycle with ⟨f | passes, c₁⟩
  · refine Or.inr ⟨f, ?_⟩
    rw [step, hc, cycle_error hc]
  · have hperform : Session.perform ⟨names, c⟩ .cycle = (.cycled passes, ⟨names, c₁⟩) :=
      Session.perform_cycle_of_ok hc
    have h₁ : Session.Reachable ⟨names, c₁⟩ := h.of_perform rfl (congrArg Prod.snd hperform)
    obtain ⟨c₂, hr⟩ := exists_record h₁.intact.sound.wellFormed h₁.intact.monitors
    have hperform₂ : (Session.perform ⟨names, c₁⟩ .record).2 = ⟨names, c₂⟩ := by
      rw [Session.perform, hr]
    refine Or.inl ⟨passes, c₂, ?_, h₁.of_perform rfl hperform₂⟩
    simp only [step, hc, hr]

/-- A monitor is set, or the circuit stays as it is. -/
theorem monitor_cases (c : Circuit) (a : NameId) (pin : OutputPin) :
    (c.monitor a pin).1 = .ok ∨ (c.monitor a pin).2 = c :=
  (c.monitors.insert_cases a pin c.devices).imp_right (congrArg fun monitors => { c with monitors })

theorem unmonitor_cases (c : Circuit) (a : NameId) (pin : OutputPin) :
    (c.unmonitor a pin).1 = .ok ∨ (c.unmonitor a pin).2 = c :=
  (c.monitors.erase_cases a pin).imp_right (congrArg fun monitors => { c with monitors })

end Circuit

namespace Engine

/-- What can be asked of an engine that changes it. A file that cannot be read has no contents. -/
inductive Call
  | load (d : Definition)
  | loadFile (path : Text) (contents : Option Text)
  | run (n : Nat)
  | resume (n : Nat)
  | cycle
  | coldStart
  | setSwitch (name : Text) (value : Int)
  | addMonitor (signal : Text)
  | removeMonitor (signal : Text)

def call (e : Engine) : Call → Engine
  | .load d => (e.load d).2
  | .loadFile path contents => (e.loadFile path contents).2
  | .run n => e.run n
  | .resume n => e.resume n
  | .cycle => e.cycle.2
  | .coldStart => e.coldStart
  | .setSwitch name value => (e.setSwitch name value).2
  | .addMonitor signal => (e.addMonitor signal).2
  | .removeMonitor signal => (e.removeMonitor signal).2

/-- The engine arises from calls. -/
def Reachable (e : Engine) : Prop := ∃ calls : List Call, calls.foldl call {} = e

/-- The circuit that is loaded, if there is one, arises in a session with the names of the engine. -/
def Proper (e : Engine) : Prop := ∀ c, e.circuit = some c → Session.Reachable ⟨e.names, c⟩

variable {e e' : Engine} {c : Circuit}

theorem Proper.of_eq (h : e.Proper) (hn : e'.names = e.names) (hc : e'.circuit = e.circuit) :
    e'.Proper := by
  intro c hc'
  rw [hn]
  exact h c (hc ▸ hc')

theorem Proper.with_circuit (h : Session.Reachable ⟨e.names, c⟩) (hn : e'.names = e.names)
    (hc : e'.circuit = some c) : e'.Proper := by
  intro c' hc'
  rw [hc] at hc'
  cases hc'
  rwa [hn]

/-! ### Cycles -/

/-- A cycle succeeds and leaves message and mark of a run alone, or it leaves a message and nothing
else. -/
theorem cycle_cases (h : e.Proper) (hc : e.circuit = some c) :
    (∃ c' statistics, Session.Reachable ⟨e.names, c'⟩ ∧
      e.cycle = (true, { e with circuit := some c', statistics })) ∨
    ∃ message, e.cycle = (false, e.fail message) := by
  rcases c.step_cases (h c hc) with ⟨passes, c', hstep, hc'⟩ | ⟨f, hstep⟩
  · refine Or.inl ⟨c', ⟨e.statistics.cycles + 1, e.statistics.passes + passes, e.statistics.runs⟩,
      hc', ?_⟩
    simp only [cycle, hc, hstep]
  · refine Or.inr ⟨(f.report e.names).description, ?_⟩
    simp only [cycle, hc, hstep]
    rw [← hc]

/-- The state that the engine was in plays no part. -/
theorem cycle_with_state (e : Engine) (s : EngineState) :
    cycle { e with state := s } =
      (e.cycle.1, if e.cycle.1 then { e.cycle.2 with state := s } else e.cycle.2) := by
  obtain ⟨state, statistics, message, hasRun, names, circuit, diagnostics⟩ := e
  cases circuit with
  | none => rfl
  | some c => rcases hstep : c.step with ⟨f | passes, c'⟩ <;> simp [cycle, hstep, fail]

theorem cycles_with_state (n : Nat) (e : Engine) (s : EngineState) :
    cycles n { e with state := s } = cycles n e := by
  induction n generalizing e with
  | zero => rfl
  | succ n ih =>
    rw [cycles, cycles, cycle_with_state]
    rcases e.cycle with ⟨_ | _, e'⟩
    · rfl
    · exact ih e'

/-- Cycles keep what they need. -/
theorem cycles_keep (h : e.Proper) (hc : e.circuit.isSome = true) (n : Nat) :
    (cycles n e).Proper ∧ (cycles n e).circuit.isSome = true ∧ (cycles n e).hasRun = e.hasRun := by
  induction n generalizing e with
  | zero => exact ⟨h.of_eq rfl rfl, hc, rfl⟩
  | succ n ih =>
    obtain ⟨c, hc'⟩ := Option.isSome_iff_exists.1 hc
    rcases cycle_cases h hc' with ⟨c', statistics, hr, heq⟩ | ⟨message, heq⟩
    · rw [cycles, heq]
      exact ih (Proper.with_circuit hr rfl rfl) rfl
    · rw [cycles, heq]
      exact ⟨h.of_eq rfl rfl, hc, rfl⟩

/-- Cycles that go on after others make up one series with them. The cycle that stopped the first
ones, if one did, has left everything as it was, so it is tried again and stops the others too. -/
theorem simulate_cycles (h : e.Proper) (hc : e.circuit.isSome = true) (hm : e.message = [])
    (m : Nat) {n : Nat} (hn : 1 ≤ n) : (cycles m e).simulate n = cycles (m + n) e := by
  have hclear : { e with message := [] } = e := by rw [← hm]
  induction m generalizing e with
  | zero =>
    rw [Nat.zero_add]
    show cycles n { e with state := .halted, message := [] } = cycles n e
    rw [← cycles_with_state n e .halted, hm]
  | succ m ih =>
    obtain ⟨c, hc'⟩ := Option.isSome_iff_exists.1 hc
    obtain ⟨k, rfl⟩ : ∃ k, n = k + 1 := ⟨n - 1, by omega⟩
    have hsum : m + 1 + (k + 1) = (m + (k + 1)) + 1 := by omega
    rw [hsum, cycles, cycles]
    rcases cycle_cases h hc' with ⟨c', statistics, hr, heq⟩ | ⟨message, heq⟩
    · rw [heq]
      exact ih (Proper.with_circuit hr rfl rfl) rfl hm (by rw [← hm])
    · rw [heq]
      show cycles (k + 1) { e with state := .error, message := [] } = e.fail message
      have hagain : cycles (k + 1) { e with state := .error, message := [] } = cycles (k + 1) e := by
        rw [← cycles_with_state (k + 1) e .error, hm]
      rw [hagain, cycles, heq]

theorem Proper.clear (h : e.Proper) : Proper { e with message := [] } := h

theorem simulate_simulate (h : e.Proper) (hc : e.circuit.isSome = true) (m : Nat) {n : Nat}
    (hn : 1 ≤ n) : (e.simulate m).simulate n = e.simulate (m + n) :=
  simulate_cycles h.clear hc rfl m hn

theorem simulate_keep (h : e.Proper) (hc : e.circuit.isSome = true) (n : Nat) :
    (e.simulate n).Proper ∧ (e.simulate n).circuit.isSome = true ∧
      (e.simulate n).hasRun = e.hasRun :=
  cycles_keep h.clear hc n

theorem resume_eq (hc : e.circuit.isSome = true) (hr : e.hasRun = true) (n : Nat) :
    e.resume n = e.simulate n := by
  obtain ⟨c, hc'⟩ := Option.isSome_iff_exists.1 hc
  simp [resume, hc', hr]

/-! ### Requests -/

/-- What a call does to the monitors of a circuit. -/
def adjust (names : NameTable) : Call → Circuit → Circuit
  | .addMonitor signal, c => (resolve { names } c signal).elim c fun p => (c.monitor p.1 p.2).2
  | .removeMonitor signal, c => (resolve { names } c signal).elim c fun p => (c.unmonitor p.1 p.2).2
  | _, c => c

section
variable {signal : Text} {p : NameId × OutputPin}

theorem adjust_addMonitor (hp : e.resolve c signal = some p) :
    adjust e.names (.addMonitor signal) c = (c.monitor p.1 p.2).2 := by
  show (e.resolve c signal).elim c (fun p => (c.monitor p.1 p.2).2) = _
  rw [hp, Option.elim_some]

theorem adjust_removeMonitor (hp : e.resolve c signal = some p) :
    adjust e.names (.removeMonitor signal) c = (c.unmonitor p.1 p.2).2 := by
  show (e.resolve c signal).elim c (fun p => (c.unmonitor p.1 p.2).2) = _
  rw [hp, Option.elim_some]

end

/-- What a call comes to that sets a switch, or sets or removes a monitor: there is no circuit, it is
refused with a message, or the circuit is changed. -/
inductive Responds (e : Engine) : Call → Bool × Engine → Prop
  | unloaded {k : Call} (hc : e.circuit = none) : Responds e k (false, e.unloaded)
  | refused {k : Call} {c : Circuit} {message : Text} (hc : e.circuit = some c)
      (hm : message ≠ []) (hsame : adjust e.names k c = c) : Responds e k (false, e.refuse message)
  | switched {name : Text} {value : Int} {c c' : Circuit} {a : NameId} (hc : e.circuit = some c)
      (hset : c.setSwitch a (value == 1) = (true, c')) :
      Responds e (.setSwitch name value) (true, { e with circuit := some c' })
  | added {signal : Text} {c c' : Circuit} {p : NameId × OutputPin} (hc : e.circuit = some c)
      (hp : e.resolve c signal = some p) (hm : c.monitor p.1 p.2 = (.ok, c')) :
      Responds e (.addMonitor signal) (true, { e with circuit := some c' })
  | removed {signal : Text} {c c' : Circuit} {p : NameId × OutputPin} (hc : e.circuit = some c)
      (hp : e.resolve c signal = some p) (hm : c.unmonitor p.1 p.2 = (.ok, c')) :
      Responds e (.removeMonitor signal) (true, { e with circuit := some c' })

theorem responds_setSwitch (e : Engine) (name : Text) (value : Int) :
    e.Responds (.setSwitch name value) (e.setSwitch name value) := by
  unfold Engine.setSwitch
  split
  · next hc => exact .unloaded hc
  next c hc =>
  split
  · exact .refused hc (List.cons_ne_nil _ _) rfl
  split
  · next c' hset =>
    obtain ⟨a, -, heq⟩ := Option.map_eq_some_iff.1 hset
    exact .switched hc heq
  · exact .refused hc (List.cons_ne_nil _ _) rfl

theorem responds_addMonitor (e : Engine) (signal : Text) :
    e.Responds (.addMonitor signal) (e.addMonitor signal) := by
  unfold Engine.addMonitor
  split
  · next hc => exact .unloaded hc
  next c hc =>
  split
  · next hp => exact .refused hc (List.cons_ne_nil _ _) (congrArg (Option.elim · c _) hp)
  next a pin hp =>
  have hsame := c.monitor_cases a pin
  split
  · next c' hm => exact .added hc hp hm
  · next hm =>
    refine .refused hc (List.append_ne_nil_of_right_ne_nil _ (by decide)) ?_
    rw [adjust_addMonitor hp]
    exact hsame.resolve_left fun hok => by rw [hm] at hok; cases hok
  · next status c' hok hpresent hm =>
    refine .refused hc (List.append_ne_nil_of_right_ne_nil _ (by decide)) ?_
    rw [adjust_addMonitor hp]
    exact hsame.resolve_left fun hstatus => hok (by rw [← hstatus, hm])

theorem responds_removeMonitor (e : Engine) (signal : Text) :
    e.Responds (.removeMonitor signal) (e.removeMonitor signal) := by
  unfold Engine.removeMonitor
  split
  · next hc => exact .unloaded hc
  next c hc =>
  split
  · next hp =>
    exact .refused hc (List.append_ne_nil_of_right_ne_nil _ (by decide))
      (congrArg (Option.elim · c _) hp)
  next a pin hp =>
  split
  · next c' hm => exact .removed hc hp hm
  · next status c' hok hm =>
    refine .refused hc (List.append_ne_nil_of_right_ne_nil _ (by decide)) ?_
    rw [adjust_removeMonitor hp]
    exact (c.unmonitor_cases a pin).resolve_left fun hstatus => hok (by rw [← hstatus, hm])

/-! ### Calls -/

theorem Proper.load (e : Engine) (d : Definition) : (e.load d).2.Proper := by
  obtain ⟨draft, ds, -, hbuild⟩ := d.build_eq e.names
  have hr := Session.reachable_of_build hbuild
  unfold Engine.load
  simp only [hbuild]
  split
  · exact Proper.with_circuit hr rfl rfl
  · intro c hc
    cases hc

theorem Proper.loadFile (e : Engine) (path : Text) (contents : Option Text) :
    (e.loadFile path contents).2.Proper := by
  cases contents with
  | none =>
    intro c hc
    cases hc
  | some text => exact Proper.load e _

theorem Proper.cycle (h : e.Proper) : e.cycle.2.Proper := by
  cases hc : e.circuit with
  | none =>
    unfold Engine.cycle
    rw [hc]
    exact h.of_eq rfl rfl
  | some c =>
    rcases cycle_cases h hc with ⟨c', statistics, hr, heq⟩ | ⟨message, heq⟩
    · rw [heq]
      exact Proper.with_circuit hr rfl rfl
    · rw [heq]
      exact h.of_eq rfl rfl

theorem Proper.coldStart (h : e.Proper) : e.coldStart.Proper := by
  intro c hc
  obtain ⟨c₀, hc₀, rfl⟩ := Option.map_eq_some_iff.1 hc
  exact (h c₀ hc₀).of_perform (show Operation.coldStart.isDamage = false from rfl) rfl

/-- The engine right before the cycles of a run. -/
def started (e : Engine) : Engine :=
  { e with
    circuit := e.circuit.map (·.coldStart.resetMonitors)
    statistics := { e.statistics with runs := e.statistics.runs + 1 }
    hasRun := true }

theorem run_eq (hc : e.circuit.isSome = true) (n : Nat) : e.run n = e.started.simulate n := by
  obtain ⟨c, hc'⟩ := Option.isSome_iff_exists.1 hc
  simp only [run, started, hc', Option.map_some]

theorem isSome_started (hc : e.circuit.isSome = true) : e.started.circuit.isSome = true := by
  obtain ⟨c, hc'⟩ := Option.isSome_iff_exists.1 hc
  simp [started, hc']

theorem Proper.started (h : e.Proper) : e.started.Proper := by
  intro c hc
  obtain ⟨c₀, hc₀, rfl⟩ := Option.map_eq_some_iff.1 hc
  have hcold := (h c₀ hc₀).of_perform (show Operation.coldStart.isDamage = false from rfl) rfl
  exact hcold.of_perform (show Operation.resetMonitors.isDamage = false from rfl) rfl

theorem Proper.run (h : e.Proper) (n : Nat) : (e.run n).Proper := by
  cases hc : e.circuit with
  | none =>
    unfold Engine.run
    rw [hc]
    exact h.of_eq rfl rfl
  | some c =>
    have hsome := Option.isSome_of_eq_some hc
    rw [run_eq hsome]
    exact (simulate_keep h.started (isSome_started hsome) n).1

theorem Proper.resume (h : e.Proper) (n : Nat) : (e.resume n).Proper := by
  unfold Engine.resume
  split
  · exact h.of_eq rfl rfl
  next hc =>
  split
  · exact (simulate_keep h (Option.isSome_iff_ne_none.2 (by simpa using hc)) n).1
  · exact h.of_eq rfl rfl

theorem Proper.of_responds (h : e.Proper) {k : Call} {result : Bool × Engine}
    (hr : e.Responds k result) : result.2.Proper := by
  cases hr with
  | unloaded | refused => exact h.of_eq rfl rfl
  | @switched _ value c c' a hc hset =>
    have hperform :
        (Session.perform ⟨e.names, c⟩ (.setSwitch a (value == 1))).2 = ⟨e.names, c'⟩ := by
      rw [Session.perform, hset]
    exact Proper.with_circuit ((h c hc).of_perform rfl hperform) rfl rfl
  | @added _ c c' p hc _ hm =>
    have hperform : (Session.perform ⟨e.names, c⟩ (.monitor p.1 p.2)).2 = ⟨e.names, c'⟩ := by
      rw [Session.perform, hm]
    exact Proper.with_circuit ((h c hc).of_perform rfl hperform) rfl rfl
  | @removed _ c c' p hc _ hm =>
    have hperform : (Session.perform ⟨e.names, c⟩ (.unmonitor p.1 p.2)).2 = ⟨e.names, c'⟩ := by
      rw [Session.perform, hm]
    exact Proper.with_circuit ((h c hc).of_perform rfl hperform) rfl rfl

theorem Proper.call (h : e.Proper) (k : Call) : (e.call k).Proper := by
  cases k with
  | load d => exact Proper.load e d
  | loadFile path contents => exact Proper.loadFile e path contents
  | run n => exact h.run n
  | resume n => exact h.resume n
  | cycle => exact h.cycle
  | coldStart => exact h.coldStart
  | setSwitch name value => exact h.of_responds (e.responds_setSwitch name value)
  | addMonitor signal => exact h.of_responds (e.responds_addMonitor signal)
  | removeMonitor signal => exact h.of_responds (e.responds_removeMonitor signal)

theorem Reachable.proper (h : e.Reachable) : e.Proper := by
  obtain ⟨calls, rfl⟩ := h
  have hcalls : ∀ e : Engine, e.Proper → (calls.foldl Engine.call e).Proper := by
    induction calls with
    | nil => exact fun _ h => h
    | cons k calls ih => exact fun e h => ih _ (h.call k)
  refine hcalls {} fun c hc => ?_
  cases hc

/-- A run that is resumed makes up one longer run, and so does one that is resumed twice, even if a
cycle fails on the way. -/
theorem run_resume (h : e.Reachable) (hc : e.circuit.isSome = true) (m : Nat) {n : Nat}
    (hn : 1 ≤ n) : (e.run m).resume n = e.run (m + n) ∧
      (e.hasRun = true → (e.resume m).resume n = e.resume (m + n)) := by
  have hp := h.proper
  have hs := isSome_started hc
  obtain ⟨-, hsome, hrun⟩ := simulate_keep hp.started hs m
  refine ⟨?_, fun hr => ?_⟩
  · rw [run_eq hc, run_eq hc, resume_eq hsome (hrun.trans rfl)]
    exact simulate_simulate hp.started hs m hn
  · obtain ⟨-, hsome', hrun'⟩ := simulate_keep hp hc m
    rw [resume_eq hc hr, resume_eq hc hr, resume_eq hsome' (hrun'.trans hr)]
    exact simulate_simulate hp hc m hn

/-- A gate that feeds back on itself when its clock is HIGH, which is so from the second cycle on. -/
def clockedRing : Text :=
  .ofString "DEVICES: CLOCK C 2, NAND G 2; CONNECT: C > G.I1, G > G.I2; MONITOR: G; END;"

theorem run_resume_clockedRing :
    let e := [Call.load { text := clockedRing }, .run 1].foldl call {}
    (e.run 2).resume 3 = e.run 5 ∧ (e.resume 2).resume 1 = e.resume 3 ∧
      (e.run 5).state = .error ∧ (e.run 5).statistics.cycles = 2 := by
  intro e
  have hr : e.Reachable := ⟨_, rfl⟩
  have heval : (e.circuit.isSome = true ∧ e.hasRun = true) ∧
      (e.run 5).state = .error ∧ (e.run 5).statistics.cycles = 2 := by decide +kernel
  obtain ⟨⟨hc, hrun⟩, hfive⟩ := heval
  exact ⟨(run_resume hr hc 2 (by decide)).1, (run_resume hr hc 2 (by decide)).2 hrun, hfive⟩

end Engine
end GateSim
