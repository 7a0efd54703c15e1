import GateSim.Proofs.Coherence
import GateSim.Proofs.Samples
import GateSim.Proofs.Statistics

/-!
# Readiness

When an engine is READY (`Engine.ready_iff`): from a load that has succeeded until a run is started
or resumed, or a cycle fails. Cycles that are asked for one by one leave it so, although they count
and are sampled. The chronicle of calls has a snapshot for each cycle that was completed in them
(`Engine.snapshots_chronicle`), so no monitor has sampled more than that.
-/

namespace GateSim

namespace Chronicle

/-- What happened before an output was last sampled anew does not matter. -/
theorem since_append_suffix (log log' : Chronicle) {o : Occurrence} {p : Source}
    (ho : o.opens p = true) : since (log ++ o :: log') p <:+ log' := by
  induction log' using List.reverseRecOn with
  | nil => rw [since_concat, if_pos ho]
  | append_singleton log' o' ih =>
    rw [← List.cons_append, ← List.append_assoc, since_concat]
    split
    · exact List.nil_suffix
    · obtain ⟨earlier, hlog⟩ := ih
      exact ⟨earlier, by rw [← List.append_assoc, hlog]⟩

end Chronicle

namespace Engine
variable {e : Engine} {c : Circuit}

/-! ### Snapshots -/

theorem snapshots_chronicleOfCycles (hc : e.circuit = some c) (n : Nat) :
    (chronicleOfCycles n e).snapshots = (c.trail n).map (·.devices) := by
  induction n generalizing e c with
  | zero => rfl
  | succ n ih =>
    rw [chronicleOfCycles]
    rcases hs : c.step with ⟨f | passes, c'⟩
    · have hfailed := (cycle_of_step_failed hc hs).1
      rcases hcycle : e.cycle with ⟨_ | _, e'⟩
      · simp only [Circuit.trail, hs]
        rfl
      · rw [hcycle] at hfailed
        cases hfailed
    · simp only [cycle_of_step_ok hc hs, Circuit.trail, hs, Chronicle.snapshots_append, List.map_cons]
      rw [ih rfl]
      rfl

theorem snapshots_chronicleOf (hc : e.circuit = some c) {k : Call} (hload : k.isLoad = false) :
    (e.chronicleOf k).snapshots = (e.completed k).map (·.devices) := by
  have hsome := Option.isSome_of_eq_some hc
  cases k with
  | load | loadFile => cases hload
  | run n =>
    have hstarted : e.started.circuit = some c.coldStart.resetMonitors := by
      rw [started, hc, Option.map_some]
    rw [chronicleOf, if_pos hsome, completed, hc, Option.elim_some]
    exact snapshots_chronicleOfCycles (e := { e.started with message := [] }) hstarted n
  | resume n =>
    have hcleared := snapshots_chronicleOfCycles (e := { e with message := [] }) hc n
    rw [chronicleOf, completed, hsome, Bool.true_and]
    split
    · rw [hcleared, hc, Option.elim_some]
    · rfl
  | cycle =>
    rw [chronicleOf, completed, hc, Option.elim_some]
    exact snapshots_chronicleOfCycles hc 1
  | coldStart | setSwitch => rfl
  | addMonitor signal | removeMonitor signal =>
    rw [chronicleOf]
    split
    · cases e.outputOf signal <;> rfl
    · rfl

/-- Each completed cycle leaves a snapshot. -/
theorem snapshots_chronicle (h : e.Proper) (hc : e.circuit = some c) {calls : List Call}
    (hcalls : ∀ k ∈ calls, k.isLoad = false) :
    (e.chronicle calls).snapshots = (e.completedIn calls).map (·.devices) := by
  induction calls generalizing e c with
  | nil => rfl
  | cons k calls ih =>
    obtain ⟨hload, hcalls⟩ := List.forall_mem_cons.1 hcalls
    obtain ⟨c', hc'⟩ := (keeps_call h hload).exists_circuit hc
    rw [chronicle, Chronicle.snapshots_append, snapshots_chronicleOf hc hload,
      ih (h.call k) hc' hcalls, completedIn, List.map_append]

theorem chronicle_append (e : Engine) (calls calls' : List Call) :
    e.chronicle (calls ++ calls') = e.chronicle calls ++ (calls.foldl call e).chronicle calls' := by
  induction calls generalizing e with
  | nil => rfl
  | cons k calls ih =>
    rw [List.cons_append, chronicle, chronicle, ih, List.append_assoc, List.foldl_cons]

theorem chronicleOf_of_isLoad {k : Call} (hk : k.isLoad = true) :
    e.chronicleOf k =
      (e.call k).circuit.toList.map fun c => .loaded (c.monitors.map Monitor.output) := by
  cases k with
  | load | loadFile => rfl
  | _ => cases hk

/-- A monitor has sampled no more often than cycles were completed since the load. -/
theorem length_history_le {before after : List Call} {load : Call} (hload : load.isLoad = true)
    (hafter : ∀ k ∈ after, k.isLoad = false)
    (hc : ((before ++ load :: after).foldl call {}).circuit = some c) :
    ∀ m ∈ c.monitors,
      m.history.length ≤ (((before.foldl call {}).call load).completedIn after).length := by
  intro m hm
  have hfollow := follows_chronicle (before ++ load :: after) c hc
  rw [List.foldl_append, List.foldl_cons] at hc
  have hproper : ((before.foldl call {}).call load).Proper := (Reachable.proper ⟨before, rfl⟩).call _
  obtain ⟨c₀, hc₀⟩ := (keeps_calls hproper hafter).symm.exists_circuit hc
  rw [chronicle_append, chronicle, chronicleOf_of_isLoad hload, hc₀] at hfollow
  have hsuffix := Chronicle.since_append_suffix (chronicle {} before)
    (((before.foldl call {}).call load).chronicle after)
    (o := .loaded (c₀.monitors.map Monitor.output)) (p := m.output) rfl
  have hlength := congrArg List.length (hfollow.histories m hm)
  rw [List.length_map, List.length_map] at hlength
  have hle := (hsuffix.filterMap Occurrence.snapshot?).length_le
  have hsnapshots := congrArg List.length (snapshots_chronicle hproper hc₀ hafter)
  rw [List.length_map] at hsnapshots
  exact hlength.le.trans (hle.trans hsnapshots.le)

/-! ### Calls -/

theorem length_completed_le (e : Engine) {k : Call} (hk : k.isRunOrResume = false) :
    (e.completed k).length ≤ k.isCycle.toNat := by
  cases k with
  | run | resume => cases hk
  | cycle =>
    rw [completed]
    cases e.circuit with
    | none => exact Nat.zero_le _
    | some c =>
      simp only [Option.elim_some, Circuit.trail]
      split
      · exact Nat.le_refl _
      · exact Nat.zero_le _
  | _ => exact Nat.le_refl _

theorem length_completedIn_le (e : Engine) {calls : List Call}
    (hcalls : ∀ k ∈ calls, k.isRunOrResume = false) :
    (e.completedIn calls).length ≤ calls.countP Call.isCycle := by
  induction calls generalizing e with
  | nil => exact Nat.le_refl _
  | cons k calls ih =>
    obtain ⟨hk, hcalls⟩ := List.forall_mem_cons.1 hcalls
    have hfirst := e.length_completed_le hk
    have hrest := ih (e.call k) hcalls
    rw [completedIn, List.length_append, countP_cons_eq]
    omega

theorem state_of_run_or_resume (hc : e.circuit = some c) {k : Call} (hk : k.isRunOrResume = true) :
    (e.call k).state = .halted ∨ (e.call k).state = .error := by
  cases k with
  | run n => exact (counts_run hc n).imp And.left And.left
  | resume n =>
    cases hr : e.hasRun with
    | true => exact (counts_resume hc hr n).imp And.left And.left
    | false => simp [call, resume, hc, hr, fail]
  | _ => cases hk

/-- After a call that loads nothing, an engine is READY if it was before, and if the call starts or
resumes no run and completes its cycle, if it asks for one. -/
theorem ready_call_iff (hc : e.circuit = some c) {k : Call} (hload : k.isLoad = false) :
    (e.call k).state = .ready ↔ e.state = .ready ∧ k.isRunOrResume = false ∧
      (e.completed k).length = k.isCycle.toNat := by
  cases hk : k.isRunOrResume with
  | true =>
    have hstate := state_of_run_or_resume hc hk
    refine iff_of_false (fun h => ?_) fun h => Bool.noConfusion h.2.1
    rw [h] at hstate
    rcases hstate with hstate | hstate <;> cases hstate
  | false =>
    cases hcycle : k.isCycle with
    | false =>
      obtain ⟨c', message, heq⟩ := call_of_request hc hload hk hcycle
      have hnone := e.length_completed_le hk
      rw [hcycle] at hnone
      rw [heq]
      simpa using fun _ => hnone
    | true =>
      obtain rfl : k = .cycle := by cases k <;> first | rfl | cases hcycle
      rw [call, completed, hc, Option.elim_some, Circuit.trail]
      rcases hs : c.step with ⟨f | passes, c'⟩
      · rw [(cycle_of_step_failed hc hs).2.2]
        simp
      · rw [cycle_of_step_ok hc hs]
        simp [Circuit.trail]

theorem ready_calls_iff (h : e.Proper) (hc : e.circuit = some c) {calls : List Call}
    (hcalls : ∀ k ∈ calls, k.isLoad = false) :
    (calls.foldl call e).state = .ready ↔ e.state = .ready ∧
      (∀ k ∈ calls, k.isRunOrResume = false) ∧
      (e.completedIn calls).length = calls.countP Call.isCycle := by
  induction calls generalizing e c with
  | nil => simp [completedIn]
  | cons k calls ih =>
    obtain ⟨hload, hcalls⟩ := List.forall_mem_cons.1 hcalls
    obtain ⟨c', hc'⟩ := (keeps_call h hload).exists_circuit hc
    rw [List.foldl_cons, ih (h.call k) hc' hcalls, ready_call_iff hc hload, List.forall_mem_cons,
      completedIn, List.length_append, countP_cons_eq]
    constructor
    · rintro ⟨⟨hready, hk, hfirst⟩, hrest, hlength⟩
      exact ⟨hready, ⟨hk, hrest⟩, by rw [hfirst, hlength]⟩
    · rintro ⟨hready, ⟨hk, hrest⟩, hlength⟩
      -- no call completes more cycles than it asks for
      have hfirst := e.length_completed_le hk
      have hlater := (e.call k).length_completedIn_le hrest
      exact ⟨⟨hready, hk, by omega⟩, hrest, by omega⟩

theorem hasRun_call (hc : e.circuit = some c) {k : Call} (hload : k.isLoad = false)
    (hk : k.isRunOrResume = false) : (e.call k).hasRun = e.hasRun := by
  cases hcycle : k.isCycle with
  | false =>
    obtain ⟨c', message, heq⟩ := call_of_request hc hload hk hcycle
    rw [heq]
  | true =>
    obtain rfl : k = .cycle := by cases k <;> first | rfl | cases hcycle
    rw [call]
    unfold cycle
    split
    · rfl
    split <;> rfl

theorem hasRun_calls (h : e.Proper) (hc : e.circuit = some c) {calls : List Call}
    (hcalls : ∀ k ∈ calls, k.isLoad = false) (hruns : ∀ k ∈ calls, k.isRunOrResume = false) :
    (calls.foldl call e).hasRun = e.hasRun := by
  induction calls generalizing e c with
  | nil => rfl
  | cons k calls ih =>
    obtain ⟨hload, hcalls⟩ := List.forall_mem_cons.1 hcalls
    obtain ⟨hk, hruns⟩ := List.forall_mem_cons.1 hruns
    obtain ⟨c', hc'⟩ := (keeps_call h hload).exists_circuit hc
    rw [List.foldl_cons, ih (h.call k) hc' hcalls hruns, hasRun_call hc hload hk]

theorem countP_isRun {calls : List Call} (hruns : ∀ k ∈ calls, k.isRunOrResume = false) :
    calls.countP Call.isRun = 0 := by
  refine List.countP_eq_zero.2 fun k hk hrun => ?_
  cases k with
  | run n => exact Bool.noConfusion (hruns _ hk)
  | _ => cases hrun

/-! ### Since the last load -/

/-- A circuit is loaded, and all that has been simulated since are so many cycles outside of runs. -/
structure Idle (e : Engine) (n : Nat) : Prop where
  circuit : e.circuit.isSome = true
  hasRun : e.hasRun = false
  runs : e.statistics.runs = 0
  cycles : e.statistics.cycles = n
  histories : ∀ c, e.circuit = some c → ∀ m ∈ c.monitors, m.history.length ≤ n

theorem Fresh.ready_later_iff (hf : e.Fresh) (h : e.Proper) {calls : List Call}
    (hcalls : ∀ k ∈ calls, k.isLoad = false) :
    (calls.foldl call e).state = .ready ↔ (∀ k ∈ calls, k.isRunOrResume = false) ∧
      (calls.foldl call e).statistics.cycles = calls.countP Call.isCycle := by
  obtain ⟨c, hc⟩ := Option.isSome_iff_exists.1 hf.circuit
  have hcycles : (calls.foldl call e).statistics.cycles = (e.completedIn calls).length := by
    rw [(statistics_calls h hc hcalls).1, hf.statistics]
    exact Nat.zero_add _
  rw [ready_calls_iff h hc hcalls, hcycles]
  exact and_iff_right hf.state

/-- An engine is READY exactly if, since the load that brought its circuit, no run was started or
resumed and every cycle that was asked for by itself has been completed. Nothing else has been
simulated. -/
theorem ready_iff (calls : List Call) :
    let e := calls.foldl call {}
    e.state = .ready ↔ ∃ before load after, calls = before ++ load :: after ∧ load.isLoad = true ∧
      (∀ k ∈ after, k.isLoad = false ∧ k.isRunOrResume = false) ∧
      e.Idle (after.countP Call.isCycle) := by
  intro e
  have hproper : ∀ (before : List Call) load, ((before.foldl call {}).call load).Proper :=
    fun before load => (Reachable.proper ⟨before, rfl⟩).call load
  constructor
  · intro hready
    have hcoherent : e.Coherent := coherent_new.calls (fun c hc => by cases hc) calls
    have hsome := hcoherent.loaded (Or.inl hready)
    obtain ⟨before, load, after, rfl, hload, hafter, hfresh⟩ := exists_load hsome
    obtain ⟨c₀, hc₀⟩ := Option.isSome_iff_exists.1 hfresh.circuit
    have he : e = after.foldl call ((before.foldl call {}).call load) := by
      rw [← List.foldl_cons, ← List.foldl_append]
    obtain ⟨hruns, hcycles⟩ := (hfresh.ready_later_iff (hproper before load) hafter).1 (he ▸ hready)
    have hstatistics := (statistics_calls (hproper before load) hc₀ hafter).1
    rw [hfresh.statistics, countP_isRun hruns] at hstatistics
    refine ⟨before, load, after, rfl, hload, fun k hk => ⟨hafter k hk, hruns k hk⟩, hsome, ?_, ?_,
      he ▸ hcycles, fun c hc => ?_⟩
    · rw [he, hasRun_calls (hproper before load) hc₀ hafter hruns, hfresh.hasRun]
    · rw [he, hstatistics]
      rfl
    · have hlength := length_history_le hload hafter hc
      rw [hstatistics] at hcycles
      rwa [(Nat.zero_add _).symm.trans hcycles] at hlength
  · rintro ⟨before, load, after, rfl, hload, hafter, hidle⟩
    have hnone := fun k hk => (hafter k hk).1
    have he : e = after.foldl call ((before.foldl call {}).call load) := by
      rw [← List.foldl_cons, ← List.foldl_append]
    have hsome := (keeps_calls (hproper before load) hnone).isSome.symm.trans (he ▸ hidle.circuit)
    have hfresh := fresh_of_isLoad hload hsome
    rw [he, hfresh.ready_later_iff (hproper before load) hnone, ← he]
    exact ⟨fun k hk => (hafter k hk).2, hidle.cycles⟩

/-- A cycle that is asked for by itself counts and is sampled, and yet the engine stays READY. -/
theorem ready_after_cycle : ¬ ∀ e : Engine, e.Reachable → e.state = .ready → e.Idle 0 := by
  intro h
  have heval : let e := [Call.load { text := clockedRing }, .cycle].foldl call {}
      e.state = .ready ∧ e.statistics.cycles = 1 := by decide +kernel
  have hcycles := (h _ ⟨_, rfl⟩ heval.1).cycles
  rw [heval.2] at hcycles
  cases hcycles

end Engine

end GateSim
