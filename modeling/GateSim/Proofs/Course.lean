import GateSim.Proofs.Invariant
import GateSim.Proofs.Parts

/-!
# The course of a device

A device stays at its place, and between two cold starts its values change for two reasons only: a
cycle succeeds, or the device is a switch that is set (`Session.course_perform`). In a cycle each
device goes through the phases on its own, except for what gates and flip-flops read.
-/

namespace GateSim

namespace Registry
variable {r r' : Registry} {passes : Nat}

/-- The devices in the middle of a cycle: the sources have taken their step and the gates have
settled, but no flip-flop has changed. -/
def sampling (r : Registry) : Registry :=
  match settle r.advance with
  | .ok _ r' | .error _ r' => r'

/-- A cycle in two halves, before and after the flip-flops are clocked. -/
theorem sampling_of_cycle (h : r.WellFormed) (hl : r.Latched) (hc : cycle r = .ok passes r') :
    r.sampling.Settled ∧ (∃ f, r.sampling = r.advance.setGates f) ∧
      ∃ g, r' = r.sampling.clocked.setGates g := by
  obtain ⟨p, r₁, h₁, hhalves⟩ := exists_of_cycle h hl hc
  have hsampling : r.sampling = r₁ := by rw [sampling, h₁]
  rwa [hsampling]

theorem wiring_sampling (h : r.WellFormed) (hl : r.Latched) (hc : cycle r = .ok passes r') :
    r.sampling.wiring = r.wiring := by
  obtain ⟨-, ⟨f, hf⟩, -⟩ := sampling_of_cycle h hl hc
  have hwa := wiring_advance h
  rw [hf, wiring_setGates (h.of_wiring_eq hwa), hwa]

end Registry

namespace Operation

/-- The operation does no damage, and is no cold start. -/
def isOnward : Operation → Bool
  | coldStart => false
  | op => !op.isDamage

theorem isDamage_of_isOnward {op : Operation} (h : op.isOnward = true) : op.isDamage = false := by
  cases op <;> first | rfl | cases h

end Operation

/-- The cycle succeeded. -/
def Reply.isCycled : Reply → Bool
  | cycled _ => true
  | _ => false

namespace Device

/-- What an operation makes of a device if it is not a cycle: a switch takes its new setting. -/
def heed (d : Device) : Operation → Device
  | .setSwitch id v =>
    match d.state with
    | .switch initial _ =>
      if d.id = id then { d.putOutput none v with state := .switch initial v } else d
    | _ => d
  | _ => d

theorem heed_of_not_switch {d : Device} (h : ∀ initial setting, d.state ≠ .switch initial setting)
    (op : Operation) : d.heed op = d := by
  cases op with
  | setSwitch id v => simp only [heed]
  | _ => rfl

/-- What becomes of the device `d` in an operation. -/
inductive Course (s : Session) (op : Operation) (d d' : Device) : Prop
  /-- A cycle: the device takes its step and, if it is a gate, gets values before and after the
  flip-flops are clocked. -/
  | cycled (f g : Valuation) (hcycled : (s.perform op).1.isCycled = true)
      (heq : d' = (s.circuit.devices.sampling.clockDevice (d.advance.setGate f)).setGate g)
  /-- No cycle: inputs may be connected, and a switch may be set. -/
  | still (hstill : (s.perform op).1.isCycled = false) (hstate : d'.state = (d.heed op).state)
      (houtputs : d'.outputs = (d.heed op).outputs)

end Device

namespace Session
variable {s : Session} {op : Operation} {i : Nat} {d : Device}

theorem isCycled_iff : (s.perform op).1.isCycled = true ↔
    op = .cycle ∧ (s.perform .cycle).1.isFailedCycle = false := by
  cases op with
  | cycle =>
    simp only [perform, true_and]
    split <;> simp [Reply.isCycled, Reply.isFailedCycle]
  | create | record =>
    simp only [perform]
    split <;> simp [Reply.isCycled]
  | _ => simp [perform, Reply.isCycled]

theorem cycle_of_isCycled (h : (s.perform op).1.isCycled = true) :
    op = .cycle ∧ ∃ passes, Registry.cycle s.circuit.devices =
      .ok passes (s.perform op).2.circuit.devices := by
  obtain ⟨rfl, hok⟩ := isCycled_iff.1 h
  exact ⟨rfl, cycle_of_not_failed hok⟩

theorem course_create (kind : Kind) (id : NameId) (parameter : Text)
    (hd : s.circuit.devices.devices[i]? = some d) :
    (s.perform (.create kind id parameter)).2.circuit.devices.devices[i]? = some d := by
  rw [perform_create, Circuit.create]
  split
  · next hc =>
    obtain ⟨-, d₁, -, rfl⟩ := Registry.create_eq_ok_iff.1 hc
    obtain ⟨hlt, -⟩ := List.getElem?_eq_some_iff.1 hd
    exact (List.getElem?_append_left hlt).trans hd
  · exact hd

theorem course_connect (hw : s.circuit.devices.WellFormed) (source : NameId)
    (sourcePin : OutputPin) (target pin : NameId) (hd : s.circuit.devices.devices[i]? = some d) :
    ∃ d', (s.perform (.connect source sourcePin target pin)).2.circuit.devices.devices[i]? =
      some d' ∧ d'.state = d.state ∧ d'.outputs = d.outputs := by
  show ∃ d', (s.circuit.devices.connect source sourcePin target pin).2.devices[i]? = some d' ∧ _
  rcases hw.connect_cases source sourcePin target pin with heq | ⟨d₁, -, -, -, -, heq⟩ <;> rw [heq]
  · exact ⟨d, hd, rfl, rfl⟩
  · refine ⟨_, by rw [List.getElem?_map, hd, Option.map_some], ?_⟩
    split <;> exact ⟨rfl, rfl⟩

theorem course_setSwitch (hw : s.circuit.devices.WellFormed) (id : NameId) (v : Signal)
    (hd : s.circuit.devices.devices[i]? = some d) :
    (s.perform (.setSwitch id v)).2.circuit.devices.devices[i]? =
      some (d.heed (.setSwitch id v)) := by
  have hmem := List.mem_of_getElem? hd
  rw [devices_setSwitch]
  cases hset : s.circuit.devices.setSwitch id v with
  | none =>
    -- the device is not the one that was to be set, or is no switch
    have hheed : d.heed (.setSwitch id v) = d := by
      simp only [Device.heed]
      split
      · next initial setting hstate =>
        refine if_neg fun hid => ?_
        have hdevice := hw.device?_of_mem hmem
        rw [hid] at hdevice
        simp [Registry.setSwitch, hdevice, hstate] at hset
      · rfl
    rw [Option.getD_none, hheed]
    exact hd
  | some r =>
    obtain ⟨initial, ⟨d₁, hd₁, hid₁, setting, hstate⟩, rfl⟩ := hw.setSwitch_eq_some hset
    rw [Option.getD_some, List.getElem?_map, hd, Option.map_some, Option.some.injEq]
    by_cases hid : d.id = id
    · obtain rfl := hw.eq_of_id_eq hmem hd₁ (hid.trans hid₁.symm)
      simp only [Device.heed, hstate, if_pos hid]
    · simp only [Device.heed, if_neg hid]
      split <;> rfl

theorem course_cycle (hs : s.circuit.Sound) (hcycled : (s.perform op).1.isCycled = true)
    (hd : s.circuit.devices.devices[i]? = some d) :
    ∃ f g, (s.perform op).2.circuit.devices.devices[i]? =
      some ((s.circuit.devices.sampling.clockDevice (d.advance.setGate f)).setGate g) := by
  obtain ⟨rfl, passes, hc⟩ := cycle_of_isCycled hcycled
  obtain ⟨-, ⟨f, hf⟩, g, hg⟩ := Registry.sampling_of_cycle hs.wellFormed hs.latched hc
  have hsampled : s.circuit.devices.sampling.devices[i]? = some (d.advance.setGate f) := by
    rw [hf, Registry.setGates, Registry.advance, List.getElem?_map, List.getElem?_map, hd]
    rfl
  refine ⟨f, g, ?_⟩
  rw [hg, Registry.setGates, Registry.clocked, List.getElem?_map, List.getElem?_map, hsampled]
  rfl

/-- A device stays where it is, and changes in a cycle or when it is set. -/
theorem course_perform (hs : s.circuit.Sound) (hop : op.isOnward = true)
    (hd : s.circuit.devices.devices[i]? = some d) :
    ∃ d', (s.perform op).2.circuit.devices.devices[i]? = some d' ∧ d.Continues d' ∧
      d.Course s op d' := by
  have hcontinues := (continues_perform hs (Operation.isDamage_of_isOnward hop)).devices i d hd
  obtain ⟨d', hd', hdd'⟩ := hcontinues
  refine ⟨d', hd', hdd', ?_⟩
  cases hcycled : (s.perform op).1.isCycled with
  | true =>
    obtain ⟨f, g, hcourse⟩ := course_cycle hs hcycled hd
    exact .cycled f g hcycled (Option.some.inj (hd'.symm.trans hcourse))
  | false =>
    suffices hsuffices : ∃ d₁, (s.perform op).2.circuit.devices.devices[i]? = some d₁ ∧
        d₁.state = (d.heed op).state ∧ d₁.outputs = (d.heed op).outputs by
      obtain ⟨d₁, hd₁, hstate, houtputs⟩ := hsuffices
      obtain rfl := Option.some.inj (hd'.symm.trans hd₁)
      exact .still hcycled hstate houtputs
    cases op with
    | create kind id parameter => exact ⟨d, course_create kind id parameter hd, rfl, rfl⟩
    | connect source sourcePin target pin =>
      exact course_connect hs.wellFormed source sourcePin target pin hd
    | setSwitch id v => exact ⟨_, course_setSwitch hs.wellFormed id v hd, rfl, rfl⟩
    | cycle =>
      have hfailed : (s.perform .cycle).1.isFailedCycle = true := by
        by_contra hok
        rw [isCycled_iff.2 ⟨rfl, Bool.not_eq_true _ ▸ hok⟩] at hcycled
        cases hcycled
      exact ⟨d, by rw [perform_of_isFailedCycle hfailed]; exact hd, rfl, rfl⟩
    | record =>
      refine ⟨d, ?_, rfl, rfl⟩
      rw [perform]
      split <;> next hr =>
        have hdevices : s.circuit.record.2.devices = s.circuit.devices := rfl
        rw [hr] at hdevices
        exact hdevices ▸ hd
    | intern | monitor | unmonitor | resetMonitors => exact ⟨d, hd, rfl, rfl⟩
    | coldStart | eraseInput | eraseOutput | setKind => cases hop

/-! ### Cycles of a run -/

theorem Intact.run_onward (hs : s.Intact) {ops : List Operation}
    (hops : ∀ op ∈ ops, op.isOnward = true) : (s.run ops).2.Intact :=
  (hs.run fun op hop => Operation.isDamage_of_isOnward (hops op hop)).1

/-- How many cycles of a run succeed. -/
def cyclesIn (s : Session) (ops : List Operation) : Nat := (s.run ops).1.countP (·.isCycled)

theorem cyclesIn_cons (s : Session) (op : Operation) (ops : List Operation) :
    s.cyclesIn (op :: ops) =
      (if (s.perform op).1.isCycled then 1 else 0) + (s.perform op).2.cyclesIn ops := by
  rw [cyclesIn, run, List.countP_cons, Nat.add_comm]
  rfl

end Session

end GateSim
