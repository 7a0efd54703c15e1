import GateSim.Proofs.Cold

/-!
# Cold starts and construction

A device that has just been made is cold, and to make or connect devices before a cold start is the
same as to do so after it. All else that is done with a circuit is undone by a cold start. So what a
cold start leaves is the circuit as it is built by the operations that made and connected its
devices, and by them alone (`Session.coldStart_rebuilds`).
-/

namespace GateSim

theorem Device.reset_make {pins : Pins} {kind : Kind} {id : NameId} {parameter : Text} {d : Device}
    (h : make pins kind id parameter = .ok d) : d.reset pins = d := by
  have hwell := wellFormed_make h
  obtain ⟨s, hs, rfl⟩ := make_eq_ok_iff.1 h
  rw [reset_eq hwell, (State.fits_of_ofParameter hs).2]

namespace Registry
variable {r r' : Registry}

theorem coldStart_coldStart (h : r.WellFormed) : r.coldStart.coldStart = r.coldStart :=
  h.coldStart_eq h.wiring_coldStart

theorem coldStart_create {kind : Kind} {id : NameId} {parameter : Text}
    (h : r.create kind id parameter = .ok r') :
    r.coldStart.create kind id parameter = .ok r'.coldStart := by
  obtain ⟨hnew, d, hmake, rfl⟩ := create_eq_ok_iff.1 h
  refine create_eq_ok_iff.2 ⟨hnew, d, hmake, ?_⟩
  have hsize : r.coldStart.size = r.size := List.length_map ..
  simp only [coldStart, List.map_append, List.map_singleton, Device.reset_make hmake, ← hsize]

theorem WellFormed.coldStart_connect (h : r.WellFormed) (source : NameId) (sourcePin : OutputPin)
    (target pin : NameId) : r.coldStart.connect source sourcePin target pin =
      ((r.connect source sourcePin target pin).1,
        (r.connect source sourcePin target pin).2.coldStart) := by
  have hhas : r.coldStart.has source = r.has source := rfl
  have hout : r.coldStart.isOutput source sourcePin = r.isOutput source sourcePin :=
    h.isOutput_of_wiring_eq h.wiring_coldStart
  have hcold := h.of_wiring_eq h.wiring_coldStart
  unfold Registry.connect
  rw [device?_coldStart, hhas, hout]
  cases r.device? target with
  | none => rfl
  | some d =>
    simp only [Option.map_some, Device.reset]
    split
    · rfl
    split
    · rfl
    split
    · rfl
    · rfl
    · rw [h.update_eq, hcold.update_eq]
      simp only [coldStart, List.map_map]
      congr 2
      refine List.map_congr_left fun d₁ _ => ?_
      by_cases hid : d₁.id = target <;> simp [hid, Device.reset]

end Registry

/-- A device was made, or an input got its source. -/
def Reply.isBuilt : Reply → Bool
  | created none | connected .ok => true
  | _ => false

namespace Session
variable {s t : Session} {op : Operation} {ops : List Operation}

/-- The operations of a run by which devices were made or connected. -/
def construction (s : Session) : List Operation → List Operation
  | [] => []
  | op :: ops =>
    let (reply, s) := s.perform op
    let rest := s.construction ops
    if reply.isBuilt then op :: rest else rest

/-- What builds a circuit also builds it if it is cold. -/
theorem perform_of_isBuilt (hs : s.circuit.Sound)
    (ht : t.circuit.devices = s.circuit.devices.coldStart)
    (h : (s.perform op).1.isBuilt = true) :
    (t.perform op).1 = (s.perform op).1 ∧
      (t.perform op).2.circuit.devices = (s.perform op).2.circuit.devices.coldStart := by
  cases op with
  | create kind id parameter =>
    cases hc : s.circuit.devices.create kind id parameter with
    | error f => simp [perform, Circuit.create, hc, Reply.isBuilt] at h
    | ok r =>
      have hcold := Registry.coldStart_create hc
      rw [← ht] at hcold
      simp only [perform, Circuit.create, hc, hcold, and_self]
  | connect source sourcePin target pin =>
    have hcold := hs.wellFormed.coldStart_connect source sourcePin target pin
    rw [← ht] at hcold
    simp only [perform, Circuit.connect, hcold, and_self]
  | cycle | record =>
    simp only [perform] at h
    split at h <;> cases h
  | _ => cases h

/-- A cold start undoes all else. -/
theorem coldStart_of_not_isBuilt (hs : s.circuit.Sound) (hop : op.isDamage = false)
    (h : (s.perform op).1.isBuilt = false) :
    (s.perform op).2.circuit.devices.coldStart = s.circuit.devices.coldStart := by
  cases hkeeps : op.keepsWiring with
  | true => exact hs.wellFormed.coldStart_eq (wiring_perform hs hkeeps)
  | false =>
    cases op with
    | create kind id parameter =>
      cases hc : s.circuit.devices.create kind id parameter with
      | error f => simp only [perform, Circuit.create, hc]
      | ok r => simp [perform, Circuit.create, hc, Reply.isBuilt] at h
    | connect source sourcePin target pin =>
      rcases hs.wellFormed.connect_cases source sourcePin target pin with heq | ⟨d, -, -, -, -, heq⟩
      · exact congrArg Registry.coldStart heq
      · simp [perform, Circuit.connect, heq, Reply.isBuilt] at h
    | eraseInput | eraseOutput | setKind => cases hop
    | _ => cases hkeeps

theorem run_construction (hs : s.circuit.Sound) (hops : ∀ op ∈ ops, op.isDamage = false)
    (ht : t.circuit.devices = s.circuit.devices.coldStart) :
    (t.run (s.construction ops)).1 = (s.run ops).1.filter (·.isBuilt) ∧
      (t.run (s.construction ops)).2.circuit.devices =
        (s.run ops).2.circuit.devices.coldStart := by
  induction ops generalizing s t with
  | nil => exact ⟨rfl, ht⟩
  | cons op ops ih =>
    obtain ⟨hop, hops⟩ := List.forall_mem_cons.1 hops
    have hs' := sound_perform hs hop
    rw [construction, run]
    cases hbuilt : (s.perform op).1.isBuilt with
    | true =>
      obtain ⟨hreply, ht'⟩ := perform_of_isBuilt hs ht hbuilt
      obtain ⟨hreplies, hdevices⟩ := ih hs' hops ht'
      simp only [hbuilt, if_true, run, hreply, hreplies, hdevices]
      simp [hbuilt]
    | false =>
      obtain ⟨hreplies, hdevices⟩ := ih hs' hops
        (ht.trans (coldStart_of_not_isBuilt hs hop hbuilt).symm)
      simp only [hbuilt, Bool.false_eq_true, if_false, hreplies, hdevices]
      simp [hbuilt]

/-- Whatever was done with a circuit, a cold start leaves it as it is when devices are only made and
connected, by the operations that did so. These give the same replies without the others. A second
cold start changes nothing, and no cold start touches a connection. -/
theorem coldStart_rebuilds (names : NameTable) (hops : ∀ op ∈ ops, op.isDamage = false) :
    let s := ((start names).run ops).2
    let built := (start names).run ((start names).construction ops)
    built.1 = ((start names).run ops).1.filter (·.isBuilt) ∧
      (s.perform .coldStart).2.circuit.devices = built.2.circuit.devices ∧
      ((s.perform .coldStart).2.perform .coldStart).2 = (s.perform .coldStart).2 ∧
      ∀ id pin, (s.perform .coldStart).2.circuit.devices.source? id pin =
        s.circuit.devices.source? id pin := by
  intro s built
  have hcold : (start names).circuit.devices = (start names).circuit.devices.coldStart := by
    rw [circuit_start]
    rfl
  obtain ⟨hreplies, hdevices⟩ := run_construction (sound_start names) hops hcold
  have hs : s.Reachable := ⟨names, ops, hops, rfl⟩
  refine ⟨hreplies, hdevices.symm, ?_, s.circuit.devices.source?_coldStart⟩
  simp only [perform, Circuit.coldStart, Registry.coldStart_coldStart hs.sound.wellFormed]

/-- Of all that is done here, five devices and six connections are left. -/
theorem coldStart_rebuilds_lateRing :
    let ops := lateRing ++ [.setSwitch lateRing.data false, .cycle,
      .create .switch lateRing.data (.ofString "1"),
      .connect lateRing.low none lateRing.gate Pin.i2, .setSwitch lateRing.low true,
      .setSwitch lateRing.data true, .cycle]
    let s := ((start {}).run ops).2
    s.circuit.devices ≠ s.circuit.devices.coldStart ∧
      (start {}).construction ops = lateRing.drop 5 ∧
      (s.perform .coldStart).2.circuit.devices =
        ((start {}).run (lateRing.drop 5)).2.circuit.devices := by
  intro ops s
  have hconstruction : (start {}).construction ops = lateRing.drop 5 := by decide +kernel
  refine ⟨by decide +kernel, hconstruction, ?_⟩
  rw [← hconstruction]
  exact (coldStart_rebuilds {} (by decide)).2.1

end Session

end GateSim
