import GateSim.Proofs.Draft
import GateSim.Proofs.Session

/-!
# Built circuits as sessions

What building does to a circuit can be done in a session: devices are made and connected, and
outputs are monitored. So a circuit that was built, from a definition with errors too, is one that
arises in a session (`Session.reachable_of_build`), and whatever holds of these holds of it.
-/

namespace GateSim

namespace Session
variable {s : Session}

theorem run_append (s : Session) (ops ops' : List Operation) :
    s.run (ops ++ ops') =
      ((s.run ops).1 ++ ((s.run ops).2.run ops').1, ((s.run ops).2.run ops').2) := by
  induction ops generalizing s with
  | nil => rfl
  | cons op ops ih => simp [run, ih (s.perform op).2]

theorem Reachable.run (h : s.Reachable) {ops : List Operation}
    (hops : ∀ op ∈ ops, op.isDamage = false) : (s.run ops).2.Reachable := by
  obtain ⟨names, ops₀, hops₀, rfl⟩ := h
  exact ⟨names, ops₀ ++ ops, List.forall_mem_append.2 ⟨hops₀, hops⟩, by rw [run_append]⟩

theorem Reachable.perform (h : s.Reachable) {op : Operation} (hop : op.isDamage = false) :
    (s.perform op).2.Reachable := by
  have hops : ∀ o ∈ [op], o.isDamage = false := by simpa using hop
  exact h.run hops

theorem Reachable.of_perform {names : NameTable} {c c' : Circuit} (h : Reachable ⟨names, c⟩)
    {op : Operation} (hop : op.isDamage = false)
    (heq : (Session.perform ⟨names, c⟩ op).2 = ⟨names, c'⟩) : Reachable ⟨names, c'⟩ :=
  heq ▸ h.perform hop

theorem reachable_empty {names : NameTable} (h : names.KnowsPins) :
    Reachable ⟨names, .empty names⟩ :=
  ⟨names, [], by simp, by rw [run, start, h.insertPins_eq]⟩

theorem perform_create (s : Session) (kind : Kind) (id : NameId) (parameter : Text) :
    (s.perform (.create kind id parameter)).2 =
      { s with circuit := (s.circuit.create kind id parameter).2 } := by
  rw [Session.perform]
  split <;> next heq => rw [heq]

end Session

namespace Draft
variable {d d' : Draft} {names : NameTable}

/-- A circuit is made from another by an operation that does no damage, if not left alone. -/
def Follows (names : NameTable) (c c' : Circuit) : Prop :=
  c' = c ∨ ∃ op : Operation, op.isDamage = false ∧ (Session.perform ⟨names, c⟩ op).2 = ⟨names, c'⟩

theorem Follows.reachable {c c' : Circuit} (h : Follows names c c')
    (hc : Session.Reachable ⟨names, c⟩) : Session.Reachable ⟨names, c'⟩ := by
  rcases h with rfl | ⟨op, hop, heq⟩
  · exact hc
  · exact hc.of_perform hop heq

theorem follows_device {kind : Kind} {name : Symbol} {parameter : Option Symbol}
    {f : Option SemanticFault} (h : d.device names kind name parameter = .ok (d', f)) :
    Follows names d.circuit d'.circuit := by
  simp only [device] at h
  split at h
  · cases h
    exact Or.inl rfl
  split at h
  · next circuit hc =>
    cases h
    refine Or.inr ⟨.create kind (name.id names) ((parameter.map (·.text)).getD []), rfl, ?_⟩
    rw [Session.perform_create, hc]
  · cases h
    exact Or.inl rfl
  · cases h

theorem follows_connection {source target targetPin : Symbol} {sourcePin : Option Symbol}
    {f : Option SemanticFault}
    (h : d.connection names source sourcePin target targetPin = .ok (d', f)) :
    Follows names d.circuit d'.circuit := by
  simp only [connection] at h
  split at h
  · cases h
    exact Or.inl rfl
  split at h
  · cases h
    exact Or.inl rfl
  split at h
  · next circuit hc =>
    cases h
    refine Or.inr ⟨.connect (source.id names) (sourcePin.map (·.id names)) (target.id names)
      (targetPin.id names), rfl, ?_⟩
    simp only [Session.perform, hc]
  · cases h
    exact Or.inl rfl
  · cases h

theorem follows_monitor {device : Symbol} {pin : Option Symbol} {f : Option SemanticFault}
    (h : d.monitor names device pin = .ok (d', f)) : Follows names d.circuit d'.circuit := by
  simp only [monitor] at h
  split at h
  · cases h
    exact Or.inl rfl
  split at h
  · cases h
    exact Or.inl rfl
  split at h
  · next circuit hc =>
    cases h
    refine Or.inr ⟨.monitor (device.id names) (pin.map (·.id names)), rfl, ?_⟩
    simp only [Session.perform, hc]
  · cases h
    exact Or.inl rfl
  · cases h

theorem follows_perform {st : Statement} {f : Option SemanticFault}
    (h : d.perform names st = .ok (d', f)) : Follows names d.circuit d'.circuit := by
  cases st with
  | device kind name parameter => exact follows_device h
  | connection source sourcePin target targetPin => exact follows_connection h
  | monitor device pin => exact follows_monitor h

theorem circuit_reject (text : Definition) (d : Draft) (symbol : Symbol) (code : Code)
    (message : Text) : (d.reject text symbol code message).1.circuit = d.circuit := by
  unfold reject
  split <;> rfl

variable {text : Definition}

theorem follows_step {e : Event} {x : Option Diagnostic} (h : d.step text names e = .ok (d', x)) :
    Follows names d.circuit d'.circuit := by
  cases e with
  | stray symbol =>
    cases h
    exact Or.inl rfl
  | note n =>
    cases n with
    | pass =>
      cases h
      exact Or.inl rfl
    | reject symbol fault =>
      have heq := congrArg (·.1.circuit) (Except.ok.inj h)
      exact Or.inl (heq.symm.trans (circuit_reject ..))
    | endsEarly =>
      simp only [step] at h
      split at h
      · cases h
        exact Or.inl rfl
      · have heq := congrArg (·.1.circuit) (Except.ok.inj h)
        exact Or.inl (heq.symm.trans (circuit_reject ..))
    | abandon name =>
      cases h
      exact Or.inl rfl
    | complete st =>
      cases hp : d.perform names st with
      | error f => simp [step, hp, bind, Except.bind] at h
      | ok r =>
        obtain ⟨d₁, f⟩ := r
        rw [step_complete hp] at h
        cases h
        exact follows_perform hp

theorem reachable_run {events : List Event} {ds : Diagnostics} (hs : d.Sound)
    (hd : Session.Reachable ⟨names, d.circuit⟩)
    (h : d.run text names events = .ok (d', ds)) : Session.Reachable ⟨names, d'.circuit⟩ := by
  induction events generalizing d ds with
  | nil =>
    cases h
    exact hd
  | cons e events ih =>
    obtain ⟨d₁, x, ds', hstep, hd₁, hrun, rfl⟩ := run_cons_cases hs h
    exact ih hd₁ ((follows_step hstep).reachable hd) hrun

end Draft

/-- The circuit that is built arises in a session, whether or not there are errors. -/
theorem Session.reachable_of_build {d : Definition} {names : NameTable} {built : Built}
    (h : d.build names = .ok built) : Session.Reachable ⟨built.names, built.circuit⟩ := by
  obtain ⟨draft, ds, hrun, hbuild⟩ := d.build_eq names
  rw [hbuild] at h
  cases h
  have hknows := d.knowsPins_names names
  exact Draft.reachable_run (Draft.sound_empty hknows) (Session.reachable_empty hknows) hrun

end GateSim
