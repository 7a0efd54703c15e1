import GateSim.Proofs.Calls
import GateSim.Proofs.Loading

/-!
# States, messages and circuits

What the state of an engine says about the rest of it (`Engine.Coherent`). A load settles all of it
anew. Any other call keeps the circuit and the diagnostics, so only state and message matter, and
there are four things that can become of them (`Engine.Outcome`).
-/

namespace GateSim

namespace Engine

/-- State, circuit, message, statistics and diagnostics belong together. -/
structure Coherent (e : Engine) : Prop where
  loaded : e.state = .ready ∨ e.state = .halted → e.circuit.isSome = true
  unused : e.state = .empty → e.circuit = none ∧ e.message = [] ∧ e.statistics = {}
  explained : e.state = .error → e.message ≠ []
  accepted : e.circuit.isSome = true → e.diagnostics.hasErrors = false

/-- What becomes of state and message in a call that loads nothing. -/
inductive Outcome (e e' : Engine) : Prop
  | failed (state : e'.state = .error) (message : e'.message ≠ [])
  | halted (state : e'.state = .halted) (circuit : e.circuit.isSome = true)
  /-- A request is granted or refused, without a trace in the state. -/
  | answered (state : e'.state = e.state) (message : e'.message = e.message ∨ e'.message ≠ [])
    (circuit : e.circuit.isSome = true)
  | idle (same : e' = e)

variable {α : Type} {F : Circuit → α} {e e' : Engine}

/-! ### Loads -/

theorem coherent_new : Coherent {} where
  loaded := fun h => by rcases h with h | h <;> cases h
  unused := fun _ => ⟨rfl, rfl, rfl⟩
  explained := fun h => by cases h
  accepted := fun h => by cases h

theorem Dropped.coherent (h : e.Dropped) : e.Coherent where
  loaded := fun hs => by rw [h.state] at hs; rcases hs with hs | hs <;> cases hs
  unused := fun hs => by rw [h.state] at hs; cases hs
  explained := fun _ => h.message
  accepted := fun hc => by rw [h.circuit] at hc; cases hc

theorem coherent_load (e : Engine) (d : Definition) : (e.load d).2.Coherent := by
  obtain ⟨built, -, ⟨hs, heq⟩ | ⟨-, heq⟩⟩ := e.load_cases d
  · rw [heq]
    exact ⟨fun _ => rfl, (nomatch ·), (nomatch ·), fun _ => by simpa [Built.success] using hs⟩
  · exact (clean_load (by rw [heq])).dropped.coherent

theorem coherent_loadFile (e : Engine) (path : Text) (contents : Option Text) :
    (e.loadFile path contents).2.Coherent := by
  cases contents with
  | none => exact (e.loadFile_none path).2.1.coherent
  | some text => exact e.coherent_load { text, file := path }

/-! ### Other calls -/

theorem Coherent.of_outcome (h : e.Coherent) (hk : e.Keeps F e') (ho : Outcome e e') :
    e'.Coherent := by
  have haccepted : e'.circuit.isSome = true → e'.diagnostics.hasErrors = false :=
    fun hc => hk.diagnostics ▸ h.accepted (hk.isSome ▸ hc)
  cases ho with
  | failed hs hm =>
    refine ⟨fun hs' => ?_, fun hs' => ?_, fun _ => hm, haccepted⟩
    · rcases hs' with hs' | hs' <;> cases hs.symm.trans hs'
    · cases hs.symm.trans hs'
  | halted hs hc =>
    refine ⟨fun _ => hk.isSome.trans hc, fun hs' => ?_, fun hs' => ?_, haccepted⟩
    · cases hs.symm.trans hs'
    · cases hs.symm.trans hs'
  | answered hs hm hc =>
    refine ⟨fun _ => hk.isSome.trans hc, fun hs' => ?_, fun hs' => ?_, haccepted⟩
    · -- nothing is answered before the first load
      rw [(h.unused (hs.symm.trans hs')).1] at hc
      cases hc
    · rcases hm with hm | hm
      · rw [hm]
        exact h.explained (hs.symm.trans hs')
      · exact hm
  | idle hsame => exact hsame ▸ h

theorem outcome_unloaded (e : Engine) : Outcome e e.unloaded := .failed rfl (List.cons_ne_nil _ _)

theorem outcome_cycle (e : Engine) :
    (e.cycle.1 = true ∧ e.cycle.2.state = e.state ∧ e.cycle.2.message = e.message ∧
      e.circuit.isSome = true) ∨
    (e.cycle.1 = false ∧ e.cycle.2.state = .error ∧ e.cycle.2.message ≠ []) := by
  unfold Engine.cycle
  split
  · exact .inr ⟨rfl, rfl, List.cons_ne_nil _ _⟩
  next c hc =>
  rcases hs : c.step with ⟨f | passes, c'⟩
  · exact .inr ⟨rfl, rfl, Fault.description_ne_nil _⟩
  · exact .inl ⟨rfl, rfl, rfl, Option.isSome_of_eq_some hc⟩

/-- Whatever the engine was like, cycles that were asked for are done or one of them fails. -/
theorem outcome_cycles (n : Nat) (e : Engine) :
    (cycles n e).state = .halted ∨ ((cycles n e).state = .error ∧ (cycles n e).message ≠ []) := by
  induction n generalizing e with
  | zero => exact .inl rfl
  | succ n ih =>
    have hcycle := e.outcome_cycle
    rw [cycles]
    rcases hr : e.cycle with ⟨_ | _, e'⟩ <;> rw [hr] at hcycle
    · rcases hcycle with ⟨h, -⟩ | ⟨-, hfailed⟩
      · cases h
      · exact .inr hfailed
    · exact ih e'

theorem outcome_simulate (hc : e.circuit.isSome = true) {e₀ : Engine} (n : Nat) :
    Outcome e (e₀.simulate n) := by
  rcases outcome_cycles n { e₀ with message := [] } with hs | ⟨hs, hm⟩
  · exact .halted hs hc
  · exact .failed hs hm

theorem outcome_run (e : Engine) (n : Nat) : Outcome e (e.run n) := by
  cases hc : e.circuit with
  | none =>
    simp only [run, hc]
    exact e.outcome_unloaded
  | some c =>
    have hsome := Option.isSome_of_eq_some hc
    rw [run_eq hsome]
    exact outcome_simulate hsome n

theorem outcome_resume (e : Engine) (n : Nat) : Outcome e (e.resume n) := by
  unfold resume
  split
  · exact e.outcome_unloaded
  next hc =>
  split
  · exact outcome_simulate (Option.isSome_iff_ne_none.2 (by simpa using hc)) n
  · exact .failed rfl (List.cons_ne_nil _ _)

theorem outcome_coldStart (e : Engine) : Outcome e e.coldStart := by
  cases hc : e.circuit with
  | none =>
    refine .idle ?_
    rw [Engine.coldStart, hc, Option.map_none, ← hc]
  | some c => exact .answered rfl (.inl rfl) (Option.isSome_of_eq_some hc)

theorem outcome_of_responds {k : Call} {result : Bool × Engine} (hr : e.Responds k result) :
    Outcome e result.2 := by
  cases hr with
  | unloaded => exact e.outcome_unloaded
  | refused hc hm => exact .answered rfl (.inr hm) (Option.isSome_of_eq_some hc)
  | switched hc | added hc | removed hc =>
    exact .answered rfl (.inl rfl) (Option.isSome_of_eq_some hc)

theorem outcome_call (e : Engine) {k : Call} (hload : k.isLoad = false) : Outcome e (e.call k) := by
  cases k with
  | load | loadFile => cases hload
  | run n => exact e.outcome_run n
  | resume n => exact e.outcome_resume n
  | cycle =>
    rcases e.outcome_cycle with ⟨-, hs, hm, hc⟩ | ⟨-, hs, hm⟩
    · exact .answered hs (.inl hm) hc
    · exact .failed hs hm
  | coldStart => exact e.outcome_coldStart
  | setSwitch name value => exact outcome_of_responds (e.responds_setSwitch name value)
  | addMonitor signal => exact outcome_of_responds (e.responds_addMonitor signal)
  | removeMonitor signal => exact outcome_of_responds (e.responds_removeMonitor signal)

/-! ### Any calls -/

theorem Coherent.call (h : e.Coherent) (hp : e.Proper) (k : Call) : (e.call k).Coherent := by
  by_cases hload : k.isLoad = false
  · exact h.of_outcome (keeps_call hp hload) (e.outcome_call hload)
  · cases k with
    | load d => exact e.coherent_load d
    | loadFile path contents => exact e.coherent_loadFile path contents
    | _ => exact absurd rfl hload

theorem Coherent.calls (h : e.Coherent) (hp : e.Proper) (calls : List Call) :
    (calls.foldl Engine.call e).Coherent := by
  induction calls generalizing e with
  | nil => exact h
  | cons k calls ih => exact ih (h.call hp k) (hp.call k)

/-- An engine is coherent after any calls, with a valid circuit if there is one. Only loads bring a
circuit or a name, take a circuit away, or change what it is made of. -/
theorem coherent_of_reachable (h : e.Reachable) :
    e.Coherent ∧ (∀ c, e.circuit = some c → Session.Valid ⟨e.names, c⟩) ∧
      ∀ k : Call, k.isLoad = false → e.Keeps Circuit.wiring (e.call k) := by
  have hp := h.proper
  refine ⟨?_, fun c hc => (hp c hc).intact.valid, fun k hload => keeps_call hp hload⟩
  obtain ⟨calls, rfl⟩ := h
  exact coherent_new.calls (fun c hc => by cases hc) calls

/-- A cycle has failed, and the circuit is still there. -/
theorem coherent_clockedRing :
    let e := [Call.load { text := clockedRing }, .run 3].foldl call {}
    e.state = .error ∧ e.circuit.isSome = true ∧ e.Coherent ∧
      (∀ c, e.circuit = some c → Session.Valid ⟨e.names, c⟩) ∧
      e.Keeps Circuit.wiring (e.call (.setSwitch (.ofString "G") 1)) := by
  intro e
  obtain ⟨hcoherent, hvalid, hkeeps⟩ := coherent_of_reachable (e := e) ⟨_, rfl⟩
  have heval : e.state = .error ∧ e.circuit.isSome = true := by decide +kernel
  exact ⟨heval.1, heval.2, hcoherent, hvalid, hkeeps _ rfl⟩

end Engine

end GateSim
