import Mathlib.Algebra.GroupWithZero.Nat
import GateSim.Proofs.Calls
import GateSim.Proofs.Loading
import GateSim.Proofs.Phases

/-!
# Statistics

What an engine has counted since the last load: the runs that were started, the cycles that were
completed, and the passes that these took. The cycles of a call can be told from the circuit alone
(`Engine.completed`), as those that lead from one circuit to the next until one fails
(`Circuit.trail`). Each takes at least one pass and at most as many as two settlings may take.
-/

namespace GateSim

/-! ### Passes -/

namespace Registry
variable {r r' : Registry} {passes : Nat}

theorem passes_of_settle (h : r.WellFormed) (hf : r.floating = [])
    (hs : settle r = .ok passes r') : 1 ≤ passes ∧ passes ≤ r.settleLimit := by
  rcases settle_eq h hf with ⟨k, hk, -, -, heq⟩ | ⟨-, heq⟩ <;> rw [heq] at hs <;> cases hs
  omega

/-- A cycle settles once or twice. -/
theorem passes_of_cycle (h : r.WellFormed) (hl : r.Latched) (hc : cycle r = .ok passes r') :
    1 ≤ passes ∧ passes ≤ 2 * r.settleLimit := by
  have hf := floating_of_cycle hc
  have hwa := wiring_advance h
  have ha := h.of_wiring_eq hwa
  have hfa := floating_advance h hf
  obtain ⟨p, r₁, h₁, q, h₂⟩ := (cycle_ok_iff h hf hl).1 ⟨passes, hc⟩
  obtain ⟨hw₁, hf₁, -, -⟩ := settled_of_settle ha hfa (latched_advance hl) h₁
  have hlimit : r.advance.settleLimit = r.settleLimit := settleLimit_of_wiring_eq hwa
  have hlimit₁ : r₁.clocked.settleLimit = r.settleLimit := by
    rw [settleLimit_of_wiring_eq (wiring_clocked hw₁),
      settleLimit_of_wiring_eq (wiring_settle ha hfa h₁), hlimit]
  have hp := passes_of_settle ha hfa h₁
  have hq := passes_of_settle (hw₁.of_wiring_eq (wiring_clocked hw₁)) (floating_clocked hw₁ hf₁) h₂
  rw [hlimit] at hp
  rw [hlimit₁] at hq
  have hpasses : passes = p ∨ passes = p + q := by
    rw [cycle_eq hf, phases_eq h₁ hw₁ hf₁] at hc
    by_cases hb : r₁.devices.any r₁.latches = true
    · rw [if_pos hb, Change.bind_ok h₂] at hc
      cases hc
      exact Or.inr rfl
    · rw [if_neg hb] at hc
      cases hc
      exact Or.inl rfl
  omega

end Registry

namespace Circuit
variable {c c' : Circuit}

theorem lastPasses_of_step {passes : Nat} (hs : c.step = (.ok passes, c')) :
    c'.lastPasses = passes ∧ Registry.cycle c.devices = .ok passes c'.devices := by
  rw [step] at hs
  rcases hc : c.cycle with ⟨f | passes₁, c₁⟩ <;> rw [hc] at hs
  · cases hs
  have hrecord : c₁.record.2.lastPasses = c₁.lastPasses ∧ c₁.record.2.devices = c₁.devices :=
    ⟨rfl, rfl⟩
  rcases hr : c₁.record with ⟨f | _, c₂⟩ <;> rw [hr] at hrecord <;> simp only [hr] at hs <;> cases hs
  have hpasses : c₁.lastPasses = passes := by
    unfold cycle at hc
    split at hc <;> cases hc
    rfl
  exact ⟨hrecord.1.trans hpasses, hrecord.2 ▸ cycle_eq_ok hc⟩

/-- The circuits that cycles lead to, one after the other, up to the first cycle that fails. -/
def trail : Nat → Circuit → List Circuit
  | 0, _ => []
  | n + 1, c =>
    match c.step with
    | (.ok _, c) => c :: trail n c
    | (.error _, _) => []

/-- Each cycle took at least one pass, and no more than two settlings may take. -/
theorem passes_of_trail {names : NameTable} (h : Session.Reachable ⟨names, c⟩) (n : Nat) :
    ∀ c' ∈ trail n c, 1 ≤ c'.lastPasses ∧ c'.lastPasses ≤ 2 * c.devices.settleLimit := by
  induction n generalizing c with
  | zero => exact fun c' hc' => absurd hc' List.not_mem_nil
  | succ n ih =>
    rcases c.step_cases h with ⟨passes, c₁, hstep, h₁⟩ | ⟨f, hstep⟩
    · simp only [trail, hstep]
      obtain ⟨hpasses, hcycle⟩ := lastPasses_of_step hstep
      have hsound : c.Sound := h.sound
      have hwiring := wiring_step hsound
      rw [hstep] at hwiring
      refine List.forall_mem_cons.2 ⟨?_, fun c' hc' => ?_⟩
      · rw [hpasses]
        exact Registry.passes_of_cycle hsound.wellFormed hsound.latched hcycle
      · rw [← Registry.settleLimit_of_wiring_eq hwiring]
        exact ih h₁ c' hc'
    · simp only [trail, hstep]
      exact fun c' hc' => absurd hc' List.not_mem_nil

end Circuit

/-- The statistics after some more runs were started and cycles have led to these circuits. -/
def Statistics.add (s : Statistics) (runs : Nat) (done : List Circuit) : Statistics where
  cycles := s.cycles + done.length
  passes := s.passes + (done.map (·.lastPasses)).sum
  runs := s.runs + runs

theorem Statistics.add_zero (s : Statistics) : s.add 0 [] = s := rfl

theorem Statistics.add_add (s : Statistics) (m n : Nat) (done done' : List Circuit) :
    (s.add m done).add n done' = s.add (m + n) (done ++ done') := by
  simp [add, Nat.add_assoc]

namespace Engine
variable {e : Engine} {c : Circuit}

/-! ### Cycles -/

theorem cycle_of_step_ok (hc : e.circuit = some c) {passes : Nat} {c' : Circuit}
    (hs : c.step = (.ok passes, c')) : e.cycle = (true, { e with
      circuit := some c', statistics := e.statistics.add 0 [c'] }) := by
  simp only [cycle, hc, hs, Statistics.add, (Circuit.lastPasses_of_step hs).1, List.length_singleton,
    List.map_singleton, List.sum_singleton, Nat.add_zero]

theorem cycle_of_step_failed (hc : e.circuit = some c) {f : RunFault} {c' : Circuit}
    (hs : c.step = (.error f, c')) :
    e.cycle.1 = false ∧ e.cycle.2.statistics = e.statistics ∧ e.cycle.2.state = .error := by
  simp only [cycle, hc, hs, fail, and_self]

/-- Cycles count those that lead somewhere. All do, or the one after them fails. -/
theorem statistics_cycles (hc : e.circuit = some c) (n : Nat) :
    (cycles n e).statistics = e.statistics.add 0 (c.trail n) ∧
      (((cycles n e).state = .halted ∧ (c.trail n).length = n) ∨
        ((cycles n e).state = .error ∧ (c.trail n).length < n ∧
          (cycles (c.trail n).length e).state = .halted ∧
          (cycles (c.trail n).length e).cycle.1 = false)) := by
  induction n generalizing e c with
  | zero => exact ⟨rfl, Or.inl ⟨rfl, rfl⟩⟩
  | succ n ih =>
    rcases hs : c.step with ⟨f | passes, c'⟩
    · obtain ⟨hfailed, hstatistics, hstate⟩ := cycle_of_step_failed hc hs
      have hcycles : cycles (n + 1) e = e.cycle.2 := by
        rw [cycles]
        rcases hcycle : e.cycle with ⟨_ | _, e'⟩
        · rfl
        · rw [hcycle] at hfailed
          cases hfailed
      have htrail : c.trail (n + 1) = [] := by simp only [Circuit.trail, hs]
      rw [hcycles, htrail, Statistics.add_zero]
      refine ⟨hstatistics, Or.inr ⟨hstate, Nat.succ_pos n, rfl, ?_⟩⟩
      show (cycle { e with state := .halted }).1 = false
      rw [cycle_with_state, hfailed]
    · have hcycle := cycle_of_step_ok hc hs
      have htrail : c.trail (n + 1) = c' :: c'.trail n := by simp only [Circuit.trail, hs]
      obtain ⟨hstatistics, hstate⟩ := ih (e := { e with
        circuit := some c', statistics := e.statistics.add 0 [c'] }) rfl
      rw [htrail, List.length_cons, cycles, cycles, hcycle]
      refine ⟨hstatistics.trans (Statistics.add_add ..), ?_⟩
      rcases hstate with ⟨hhalted, hlength⟩ | ⟨herror, hlt, hbefore⟩
      · exact Or.inl ⟨hhalted, by rw [hlength]⟩
      · exact Or.inr ⟨herror, Nat.succ_lt_succ hlt, hbefore⟩

/-- What is counted of the cycles that are asked for: all of them, or those before one that fails. -/
def Counts (e : Engine) (go : Nat → Engine) (n : Nat) : Prop :=
  ((go n).state = .halted ∧ (go n).statistics.cycles = e.statistics.cycles + n) ∨
    ((go n).state = .error ∧ ∃ k < n, (go n).statistics.cycles = e.statistics.cycles + k ∧
      (go k).state = .halted ∧ (go k).cycle.1 = false)

theorem counts_simulate (hc : e.circuit = some c) (n : Nat) : e.Counts e.simulate n := by
  obtain ⟨hstatistics, hstate⟩ := statistics_cycles (e := { e with message := [] }) hc n
  have hcycles : (e.simulate n).statistics.cycles = e.statistics.cycles + (c.trail n).length :=
    congrArg Statistics.cycles hstatistics
  rcases hstate with ⟨hhalted, hlength⟩ | ⟨herror, hlt, hbefore⟩
  · exact Or.inl ⟨hhalted, by rw [hcycles, hlength]⟩
  · exact Or.inr ⟨herror, _, hlt, hcycles, hbefore⟩

theorem counts_run (hc : e.circuit = some c) (n : Nat) : e.Counts e.run n := by
  have hrun : e.run = e.started.simulate := funext (run_eq (Option.isSome_of_eq_some hc))
  have hstarted : e.started.circuit = some c.coldStart.resetMonitors := by
    rw [started, hc, Option.map_some]
  rw [hrun]
  exact counts_simulate hstarted n

theorem counts_resume (hc : e.circuit = some c) (hr : e.hasRun = true) (n : Nat) :
    e.Counts e.resume n := by
  have hresume : e.resume = e.simulate := funext (resume_eq (Option.isSome_of_eq_some hc) hr)
  rw [hresume]
  exact counts_simulate hc n

/-! ### Calls -/

/-- The call starts a run. -/
def Call.isRun : Call → Bool
  | .run _ => true
  | _ => false

/-- The call starts a run or goes on with one. -/
def Call.isRunOrResume : Call → Bool
  | .run _ | .resume _ => true
  | _ => false

def Call.isCycle : Call → Bool
  | .cycle => true
  | _ => false

/-- The circuits right after each cycle that is completed in a call. -/
def completed (e : Engine) : Call → List Circuit
  | .run n => e.circuit.elim [] (·.coldStart.resetMonitors.trail n)
  | .resume n => if e.hasRun then e.circuit.elim [] (·.trail n) else []
  | .cycle => e.circuit.elim [] (·.trail 1)
  | _ => []

/-- The circuits right after each cycle that is completed in calls one after the other. -/
def completedIn (e : Engine) : List Call → List Circuit
  | [] => []
  | k :: calls => e.completed k ++ (e.call k).completedIn calls

theorem Responds.exists_eq {k : Call} {result : Bool × Engine} (hr : e.Responds k result)
    (hc : e.circuit = some c) :
    ∃ c' message, result.2 = { e with circuit := some c', message } := by
  cases hr with
  | unloaded hnone =>
    rw [hc] at hnone
    cases hnone
  | refused => exact ⟨c, _, by rw [refuse, ← hc]⟩
  | switched | added | removed => exact ⟨_, _, rfl⟩

/-- What is neither a load nor a simulation changes nothing but the circuit and the message. -/
theorem call_of_request (hc : e.circuit = some c) {k : Call} (hload : k.isLoad = false)
    (hrun : k.isRunOrResume = false) (hcycle : k.isCycle = false) :
    ∃ c' message, e.call k = { e with circuit := some c', message } := by
  cases k with
  | load | loadFile => cases hload
  | run | resume => cases hrun
  | cycle => cases hcycle
  | coldStart => exact ⟨c.coldStart, e.message, by rw [call, Engine.coldStart, hc]; rfl⟩
  | setSwitch name value => exact (e.responds_setSwitch name value).exists_eq hc
  | addMonitor signal => exact (e.responds_addMonitor signal).exists_eq hc
  | removeMonitor signal => exact (e.responds_removeMonitor signal).exists_eq hc

theorem statistics_call (hc : e.circuit = some c) {k : Call} (hload : k.isLoad = false) :
    (e.call k).statistics = e.statistics.add k.isRun.toNat (e.completed k) := by
  have hsome := Option.isSome_of_eq_some hc
  cases k with
  | load | loadFile => cases hload
  | run n =>
    have hstarted : e.started.circuit = some c.coldStart.resetMonitors := by
      rw [started, hc, Option.map_some]
    have hrun := (statistics_cycles (e := { e.started with message := [] }) hstarted n).1
    rw [call, run_eq hsome, completed, hc]
    exact hrun.trans (Statistics.add_add e.statistics 1 0 [] _)
  | resume n =>
    rw [call, completed, hc]
    cases hr : e.hasRun with
    | true =>
      rw [resume_eq hsome hr]
      exact (statistics_cycles (e := { e with message := [] }) hc n).1
    | false => simp [resume, hc, hr, fail, Call.isRun, Statistics.add_zero]
  | cycle =>
    rw [call, completed, hc, Option.elim_some]
    rcases hs : c.step with ⟨f | passes, c'⟩
    · rw [(cycle_of_step_failed hc hs).2.1]
      simp only [Circuit.trail, hs]
      rfl
    · rw [cycle_of_step_ok hc hs]
      simp only [Circuit.trail, hs]
      rfl
  | coldStart | setSwitch | addMonitor | removeMonitor =>
    obtain ⟨c', message, heq⟩ := call_of_request hc hload rfl rfl
    rw [heq]
    rfl

theorem passes_of_completed (h : e.Proper) (hc : e.circuit = some c) (k : Call) :
    ∀ c' ∈ e.completed k, 1 ≤ c'.lastPasses ∧ c'.lastPasses ≤ 2 * c.devices.settleLimit := by
  have hreachable := h c hc
  cases k with
  | run n =>
    have hcold := hreachable.of_perform (show Operation.coldStart.isDamage = false from rfl) rfl
    have hreset := hcold.of_perform (show Operation.resetMonitors.isDamage = false from rfl) rfl
    have hlimit : c.coldStart.resetMonitors.devices.settleLimit = c.devices.settleLimit :=
      Registry.settleLimit_of_wiring_eq hreachable.sound.wellFormed.wiring_coldStart
    rw [completed, hc, Option.elim_some, ← hlimit]
    exact Circuit.passes_of_trail hreset n
  | resume n =>
    rw [completed, hc]
    split
    · exact Circuit.passes_of_trail hreachable n
    · exact fun c' hc' => absurd hc' List.not_mem_nil
  | cycle =>
    rw [completed, hc]
    exact Circuit.passes_of_trail hreachable 1
  | _ => exact fun c' hc' => absurd hc' List.not_mem_nil

theorem countP_cons_eq (p : Call → Bool) (k : Call) (calls : List Call) :
    (k :: calls).countP p = (p k).toNat + calls.countP p := by
  rw [List.countP_cons, Nat.add_comm]
  cases p k <;> rfl

/-- Calls that load nothing count the runs among them and the cycles that are completed in them. -/
theorem statistics_calls (h : e.Proper) (hc : e.circuit = some c) {calls : List Call}
    (hcalls : ∀ k ∈ calls, k.isLoad = false) :
    (calls.foldl call e).statistics =
        e.statistics.add (calls.countP Call.isRun) (e.completedIn calls) ∧
      ∀ c' ∈ e.completedIn calls,
        1 ≤ c'.lastPasses ∧ c'.lastPasses ≤ 2 * c.devices.settleLimit := by
  induction calls generalizing e c with
  | nil => exact ⟨rfl, fun c' hc' => absurd hc' List.not_mem_nil⟩
  | cons k calls ih =>
    obtain ⟨hload, hcalls⟩ := List.forall_mem_cons.1 hcalls
    have hkeeps := keeps_call h hload
    obtain ⟨c₁, hc₁⟩ := hkeeps.exists_circuit hc
    obtain ⟨hstatistics, hpasses⟩ := ih (h.call k) hc₁ hcalls
    rw [Registry.settleLimit_of_wiring_eq (hkeeps.eq hc hc₁)] at hpasses
    refine ⟨?_, List.forall_mem_append.2 ⟨passes_of_completed h hc k, hpasses⟩⟩
    rw [List.foldl_cons, hstatistics, statistics_call hc hload, Statistics.add_add, completedIn,
      countP_cons_eq]

/-! ### Since the last load -/

/-- The engine right after a load that has succeeded. -/
structure Fresh (e : Engine) : Prop where
  circuit : e.circuit.isSome = true
  state : e.state = .ready
  statistics : e.statistics = {}
  hasRun : e.hasRun = false

theorem fresh_load {d : Definition} (hc : (e.load d).2.circuit.isSome = true) :
    (e.load d).2.Fresh := by
  obtain ⟨built, -, ⟨-, heq⟩ | ⟨-, heq⟩⟩ := e.load_cases d <;> rw [heq] at hc ⊢
  · exact ⟨rfl, rfl, rfl, rfl⟩
  · cases hc

theorem fresh_of_isLoad {k : Call} (hk : k.isLoad = true) (hc : (e.call k).circuit.isSome = true) :
    (e.call k).Fresh := by
  cases k with
  | load d => exact fresh_load hc
  | loadFile path contents =>
    cases contents with
    | none => cases hc
    | some text => exact fresh_load hc
  | _ => cases hk

/-- If a circuit is loaded, a load has brought it, and no other load came later. -/
theorem exists_load {calls : List Call} (hc : (calls.foldl call {}).circuit.isSome = true) :
    ∃ before load after, calls = before ++ load :: after ∧ load.isLoad = true ∧
      (∀ k ∈ after, k.isLoad = false) ∧ ((before.foldl call {}).call load).Fresh := by
  induction calls using List.reverseRecOn with
  | nil => cases hc
  | append_singleton calls k ih =>
    rw [List.foldl_concat] at hc
    cases hk : k.isLoad with
    | true =>
      exact ⟨calls, k, [], rfl, hk, fun k hk => absurd hk List.not_mem_nil, fresh_of_isLoad hk hc⟩
    | false =>
      have hproper : (calls.foldl call {}).Proper := Reachable.proper ⟨calls, rfl⟩
      obtain ⟨before, load, after, rfl, hload, hafter, hfresh⟩ :=
        ih ((keeps_call hproper hk).isSome ▸ hc)
      refine ⟨before, load, after ++ [k], by simp, hload, ?_, hfresh⟩
      exact List.forall_mem_append.2 ⟨hafter, by simpa using hk⟩

theorem sum_le_of_forall {l : List Circuit} {m : Nat}
    (h : ∀ c ∈ l, 1 ≤ c.lastPasses ∧ c.lastPasses ≤ m) :
    l.length ≤ (l.map (·.lastPasses)).sum ∧ (l.map (·.lastPasses)).sum ≤ m * l.length := by
  induction l with
  | nil => exact ⟨Nat.le_refl _, Nat.le_refl _⟩
  | cons c l ih =>
    obtain ⟨⟨hlow, hhigh⟩, hl⟩ := List.forall_mem_cons.1 h
    obtain ⟨hsum, hsum'⟩ := ih hl
    rw [List.map_cons, List.sum_cons, List.length_cons, Nat.mul_succ]
    omega

/-- In every engine with a circuit, the statistics are about the time since the load that brought it:
how many runs were started, how many cycles completed, and how many passes these took, one at least
and no more than twice the limit each. Of the cycles of another run, or of one that is resumed, all
are counted or those before one that fails. -/
theorem statistics_exact (calls : List Call) {c : Circuit}
    (hc : (calls.foldl call {}).circuit = some c) :
    ∃ before load after, calls = before ++ load :: after ∧ load.isLoad = true ∧
      (∀ k ∈ after, k.isLoad = false) ∧
      let e := calls.foldl call {}
      let done := ((before.foldl call {}).call load).completedIn after
      e.statistics.runs = after.countP Call.isRun ∧ e.statistics.cycles = done.length ∧
      e.statistics.passes = (done.map (·.lastPasses)).sum ∧
      e.statistics.cycles ≤ e.statistics.passes ∧
      e.statistics.passes ≤ 2 * c.devices.settleLimit * e.statistics.cycles ∧
      ∀ n, e.Counts e.run n ∧ (e.hasRun = true → e.Counts e.resume n) := by
  obtain ⟨before, load, after, rfl, hload, hafter, hfresh⟩ :=
    exists_load (Option.isSome_of_eq_some hc)
  refine ⟨before, load, after, rfl, hload, hafter, ?_⟩
  intro e done
  have he : e = after.foldl call ((before.foldl call {}).call load) := by
    rw [← List.foldl_cons, ← List.foldl_append]
  have hproper : ((before.foldl call {}).call load).Proper := Reachable.proper ⟨before ++ [load], by
    rw [List.foldl_concat]⟩
  obtain ⟨c₀, hc₀⟩ := Option.isSome_iff_exists.1 hfresh.circuit
  obtain ⟨hstatistics, hpasses⟩ := statistics_calls hproper hc₀ hafter
  have hlimit : c.devices.settleLimit = c₀.devices.settleLimit :=
    Registry.settleLimit_of_wiring_eq ((keeps_calls hproper hafter).eq hc₀ (he ▸ hc))
  have hsum := sum_le_of_forall hpasses
  rw [← he, hfresh.statistics] at hstatistics
  have hruns : e.statistics.runs = after.countP Call.isRun := by
    rw [hstatistics]
    exact Nat.zero_add _
  have hcycles : e.statistics.cycles = done.length := by
    rw [hstatistics]
    exact Nat.zero_add _
  have htotal : e.statistics.passes = (done.map (·.lastPasses)).sum := by
    rw [hstatistics]
    exact Nat.zero_add _
  refine ⟨hruns, hcycles, htotal, ?_, ?_, fun n => ⟨counts_run hc n, fun hr => counts_resume hc hr n⟩⟩
  · rw [hcycles, htotal]
    exact hsum.1
  · rw [hcycles, htotal, hlimit]
    exact hsum.2

/-- The second cycle since a cold start fails, be it in a run or when one is resumed. -/
theorem statistics_exact_clockedRing :
    let ring := Call.load { text := clockedRing }
    let calls := [ring, .run 1, ring, .cycle, .run 3, .run 1, .resume 5]
    let e := calls.foldl call {}
    e.statistics = { cycles := 3, passes := 6, runs := 2 } ∧ e.state = .error ∧ e.hasRun = true ∧
      ∃ before load after, calls = before ++ load :: after ∧ load.isLoad = true ∧
        (∀ k ∈ after, k.isLoad = false) ∧
        let done := ((before.foldl call {}).call load).completedIn after
        e.statistics.runs = after.countP Call.isRun ∧ e.statistics.cycles = done.length ∧
        e.statistics.passes = (done.map (·.lastPasses)).sum ∧
        e.Counts e.run 3 ∧ e.Counts e.resume 5 := by
  intro ring calls e
  have heval : e.circuit.isSome = true ∧
      e.statistics = { cycles := 3, passes := 6, runs := 2 } ∧ e.state = .error ∧
      e.hasRun = true := by decide +kernel
  obtain ⟨hsome, hstatistics, hstate, hrun⟩ := heval
  obtain ⟨c, hc⟩ := Option.isSome_iff_exists.1 hsome
  obtain ⟨before, load, after, hcalls, hload, hafter, hruns, hcycles, hpasses, -, -, hcounts⟩ :=
    statistics_exact calls hc
  exact ⟨hstatistics, hstate, hrun, before, load, after, hcalls, hload, hafter, hruns, hcycles,
    hpasses, (hcounts 3).1, (hcounts 5).2 hrun⟩

end Engine

end GateSim
