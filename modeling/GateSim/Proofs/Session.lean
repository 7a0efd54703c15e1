import GateSim.Proofs.Consistent

/-!
# Sessions

What can be done with a circuit over a name table, one operation after the other, damage through the
devices themselves included. A cycle that fails leaves no trace in a session. As long as nothing is
damaged the circuit is sound (`Circuit.Sound`), so what a cycle leaves is consistent.
-/

namespace GateSim

/-- A circuit and the names that are known. -/
structure Session where
  names : NameTable
  circuit : Circuit

inductive Operation
  | intern (t : Text)
  | create (kind : Kind) (id : NameId) (parameter : Text)
  | connect (source : NameId) (sourcePin : OutputPin) (target pin : NameId)
  | setSwitch (id : NameId) (v : Signal)
  | coldStart
  | cycle
  | record
  | monitor (device : NameId) (pin : OutputPin)
  | unmonitor (device : NameId) (pin : OutputPin)
  | resetMonitors
  /-- Damage: an input is removed. -/
  | eraseInput (id pin : NameId)
  /-- Damage: an output is removed. -/
  | eraseOutput (id : NameId) (pin : OutputPin)
  /-- Damage: a device goes under the name of another kind. -/
  | setKind (id : NameId) (kind : Kind)
  deriving DecidableEq

inductive Reply
  | done
  | interned (id : NameId)
  | created (fault : Option Fault)
  | connected (status : ConnectStatus)
  | switched (isSwitch : Bool)
  | cycled (passes : Nat)
  | cycleFailed (fault : Fault)
  | recorded (fault : Option Fault)
  | monitored (status : MonitorStatus)
  deriving DecidableEq

namespace Operation

def isDamage : Operation → Bool
  | eraseInput .. | eraseOutput .. | setKind .. => true
  | _ => false

end Operation

namespace Reply

def isFailedCycle : Reply → Bool
  | cycleFailed _ => true
  | _ => false

end Reply

/-- Changes the device of an id from outside. -/
def Circuit.damage (c : Circuit) (id : NameId) (f : Device → Device) : Circuit :=
  { c with devices := c.devices.update id f }

namespace Session

/-- An empty circuit over names to which the pin words are added. -/
def start (names : NameTable) : Session where
  names := names.insertPins
  circuit := .empty names.insertPins

def perform (s : Session) : Operation → Reply × Session
  | .intern t => (.interned (s.names.idOf t), { s with names := s.names.insert t })
  | .create kind id parameter =>
    match s.circuit.create kind id parameter with
    | (.ok (), circuit) => (.created none, { s with circuit })
    | (.error f, circuit) => (.created (some (f.report s.names)), { s with circuit })
  | .connect source sourcePin target pin =>
    let (status, circuit) := s.circuit.connect source sourcePin target pin
    (.connected status, { s with circuit })
  | .setSwitch id v =>
    let (isSwitch, circuit) := s.circuit.setSwitch id v
    (.switched isSwitch, { s with circuit })
  | .coldStart => (.done, { s with circuit := s.circuit.coldStart })
  | .cycle =>
    match s.circuit.cycle with
    | (.ok passes, circuit) => (.cycled passes, { s with circuit })
    | (.error f, circuit) => (.cycleFailed (f.report s.names), { s with circuit })
  | .record =>
    match s.circuit.record with
    | (.ok (), circuit) => (.recorded none, { s with circuit })
    | (.error f, circuit) => (.recorded (some (f.report s.names)), { s with circuit })
  | .monitor device pin =>
    let (status, circuit) := s.circuit.monitor device pin
    (.monitored status, { s with circuit })
  | .unmonitor device pin =>
    let (status, circuit) := s.circuit.unmonitor device pin
    (.monitored status, { s with circuit })
  | .resetMonitors => (.done, { s with circuit := s.circuit.resetMonitors })
  | .eraseInput id pin => (.done, { s with circuit := s.circuit.damage id (·.eraseInput pin) })
  | .eraseOutput id pin => (.done, { s with circuit := s.circuit.damage id (·.eraseOutput pin) })
  | .setKind id kind => (.done, { s with circuit := s.circuit.damage id (·.setKind kind) })

/-- Performs operations one after the other. Gives all replies. -/
def run (s : Session) : List Operation → List Reply × Session
  | [] => ([], s)
  | op :: ops =>
    let (reply, s) := s.perform op
    let (replies, s) := s.run ops
    (reply :: replies, s)

/-- The operations of a run without the cycles that fail in it. -/
def withoutFailures (s : Session) : List Operation → List Operation
  | [] => []
  | op :: ops =>
    let (reply, s) := s.perform op
    let rest := s.withoutFailures ops
    if reply.isFailedCycle then rest else op :: rest

/-! ### Names in circuits of a few devices

Where no names were known at the start, the pin words are numbered first, and the names of devices
from 22 on. -/

namespace Pin

abbrev i1 : NameId := 0
abbrev i2 : NameId := 1
abbrev data : NameId := 16
abbrev clk : NameId := 17
abbrev set : NameId := 18
abbrev clear : NameId := 19
abbrev q : NameId := 20
abbrev qbar : NameId := 21

end Pin

/-! ### Cycles that fail -/

theorem perform_of_isFailedCycle {s : Session} {op : Operation}
    (h : (s.perform op).1.isFailedCycle = true) : (s.perform op).2 = s := by
  cases op with
  | cycle =>
    simp only [perform] at h ⊢
    split
    · next hc =>
      rw [hc] at h
      cases h
    · next hc => rw [Circuit.cycle_error hc]
  | create kind id parameter =>
    simp only [perform] at h
    split at h <;> cases h
  | record =>
    simp only [perform] at h
    split at h <;> cases h
  | _ => cases h

/-- A cycle that fails leaves the session as it was. So a run without the attempts that fail ends
in the same session, with the same replies but theirs. -/
theorem cycle_atomic (s : Session) :
    (∀ f s', s.perform .cycle = (.cycleFailed f, s') → s' = s) ∧
    ∀ ops, s.run (s.withoutFailures ops) =
      ((s.run ops).1.filter (!·.isFailedCycle), (s.run ops).2) := by
  refine ⟨fun f s' h => ?_, fun ops => ?_⟩
  · have := @perform_of_isFailedCycle s .cycle (by rw [h]; rfl)
    rwa [h] at this
  · induction ops generalizing s with
    | nil => rfl
    | cons op ops ih =>
      rw [withoutFailures, run]
      cases hr : (s.perform op).1.isFailedCycle with
      | true =>
        -- the attempt changed nothing, so the rest runs as if it had not been made
        have hs := perform_of_isFailedCycle hr
        simp only [hr, hs, if_true, ih s]
        simp [hr]
      | false =>
        simp only [hr, Bool.false_eq_true, if_false, run, ih (s.perform op).2]
        simp [hr]

/-- A flip-flop that is set on the first cycle, and then lets a gate feed back on itself. The gates
settle before it is set, but not after. -/
def lateRing : List Operation :=
  [.intern (.ofString "D"), .intern (.ofString "C"), .intern (.ofString "LOW"),
    .intern (.ofString "F"), .intern (.ofString "RING"),
    .create .switch data (.ofString "1"), .create .clock clock (.ofString "1"),
    .create .switch low (.ofString "0"), .create .dtype flipFlop [],
    .create .nand gate (.ofString "2"), .connect data none flipFlop Pin.data,
    .connect clock none flipFlop Pin.clk, .connect low none flipFlop Pin.set,
    .connect low none flipFlop Pin.clear, .connect flipFlop (some Pin.q) gate Pin.i1,
    .connect gate none gate Pin.i2]
where
  data : NameId := 22
  clock : NameId := 23
  low : NameId := 24
  flipFlop : NameId := 25
  gate : NameId := 26

example :
    let s := ((start {}).run lateRing).2
    [Pin.i1, Pin.i2, Pin.data, Pin.clk, Pin.set, Pin.clear, Pin.q, Pin.qbar,
        lateRing.data, lateRing.clock, lateRing.low, lateRing.flipFlop, lateRing.gate].map
          s.names.nameOf =
      ["I1", "I2", "DATA", "CLK", "SET", "CLEAR", "Q", "QBAR", "D", "C", "LOW", "F", "RING"].map
        Text.ofString := by
  decide +kernel

theorem cycle_atomic_lateRing :
    let s := ((start {}).run lateRing).2
    let ops := [.setSwitch lateRing.data false, .cycle]
    (s.perform .cycle).1 = .cycleFailed (.oscillation 30) ∧ (s.perform .cycle).2 = s ∧
      s.run ops = ([.switched true, .cycled 2], (s.run (.cycle :: ops)).2) := by
  intro s ops
  have hfail : (s.perform .cycle).1 = .cycleFailed (.oscillation 30) := by decide +kernel
  have hops : s.withoutFailures (.cycle :: ops) = ops := by decide +kernel
  have hreplies : (s.run (.cycle :: ops)).1.filter (!·.isFailedCycle) =
      [.switched true, .cycled 2] := by decide +kernel
  have hcycle : s.perform .cycle = (.cycleFailed (.oscillation 30), (s.perform .cycle).2) := by
    rw [← hfail]
  have hrun := (cycle_atomic s).2 (.cycle :: ops)
  rw [hops, hreplies] at hrun
  exact ⟨hfail, (cycle_atomic s).1 _ _ hcycle, hrun⟩

end Session

/-! ### Circuits without damage -/

namespace Circuit
variable {c : Circuit}

/-- The devices are well-formed, and flip-flops show what they have latched. -/
structure Sound (c : Circuit) : Prop where
  wellFormed : c.devices.WellFormed
  latched : c.devices.Latched

theorem Sound.create (h : c.Sound) (kind : Kind) (id : NameId) (parameter : Text) :
    (c.create kind id parameter).2.Sound := by
  unfold Circuit.create
  split
  · next hc => exact ⟨h.wellFormed.create hc, Registry.latched_create h.wellFormed h.latched hc⟩
  · exact h

theorem Sound.connect (h : c.Sound) (source : NameId) (sourcePin : OutputPin)
    (target pin : NameId) : (c.connect source sourcePin target pin).2.Sound :=
  ⟨h.wellFormed.connect source sourcePin target pin,
    Registry.latched_connect h.wellFormed h.latched source sourcePin target pin⟩

theorem Sound.setSwitch (h : c.Sound) (id : NameId) (v : Signal) : (c.setSwitch id v).2.Sound := by
  unfold Circuit.setSwitch
  split
  · next hs =>
    have hw := h.wellFormed.wiring_setSwitch hs
    exact ⟨h.wellFormed.of_wiring_eq hw, h.wellFormed.latched_setSwitch h.latched hs⟩
  · exact h

theorem Sound.coldStart (h : c.Sound) : c.coldStart.Sound :=
  ⟨h.wellFormed.of_wiring_eq h.wellFormed.wiring_coldStart, h.wellFormed.latched_coldStart⟩

theorem Sound.record (h : c.Sound) : c.record.2.Sound := ⟨h.wellFormed, h.latched⟩

theorem cycle_eq_ok {c' : Circuit} {passes : Nat} (hc : c.cycle = (.ok passes, c')) :
    Registry.cycle c.devices = .ok passes c'.devices := by
  unfold cycle at hc
  split at hc
  · next heq =>
    cases hc
    exact heq
  · cases hc

theorem cycle_eq_error {r : Registry} {f : RunFault}
    (hc : Registry.cycle c.devices = .error f r) : c.cycle = (.error f, c) := by
  have heq : c.cycle = (.error f, { c with devices := r }) := by rw [cycle, EStateM.run, hc]
  rw [heq, ← cycle_error heq]

theorem cycle_devices_of_error {c' : Circuit} {f : RunFault} (hc : c.cycle = (.error f, c')) :
    Registry.cycle c.devices = .error f c.devices := by
  unfold cycle at hc
  split at hc
  · cases hc
  · next heq =>
    cases hc
    rwa [Registry.cycle_error heq] at heq

theorem Sound.cycle (h : c.Sound) : c.cycle.2.Sound := by
  cases hc : c.cycle with
  | mk outcome c' =>
    cases outcome with
    | error f => rwa [cycle_error hc]
    | ok passes =>
      obtain ⟨hw, hcons⟩ := Registry.consistent_cycle h.wellFormed h.latched (cycle_eq_ok hc)
      have h' := h.wellFormed.of_wiring_eq hw
      exact ⟨h', hcons.latched h'⟩

end Circuit

namespace Session

/-- The session arises from an empty circuit without damage. -/
def Reachable (s : Session) : Prop :=
  ∃ names ops, (∀ op ∈ ops, op.isDamage = false) ∧ ((start names).run ops).2 = s

theorem sound_start (names : NameTable) : (start names).circuit.Sound :=
  ⟨.empty (Pins.distinct_ofNames NameTable.knowsPins_insertPins), Registry.latched_empty _⟩

theorem sound_perform {s : Session} (h : s.circuit.Sound) {op : Operation}
    (hop : op.isDamage = false) : (s.perform op).2.circuit.Sound := by
  cases op with
  | create kind id parameter =>
    have hc := h.create kind id parameter
    rw [perform]
    split <;> next heq => rwa [heq] at hc
  | connect source sourcePin target pin => exact h.connect source sourcePin target pin
  | setSwitch id v => exact h.setSwitch id v
  | coldStart => exact h.coldStart
  | cycle =>
    have hc := h.cycle
    rw [perform]
    split <;> next heq => rwa [heq] at hc
  | record =>
    have hc := h.record
    rw [perform]
    split <;> next heq => rwa [heq] at hc
  | intern | monitor | unmonitor | resetMonitors => exact ⟨h.wellFormed, h.latched⟩
  | eraseInput | eraseOutput | setKind => cases hop

theorem Reachable.sound {s : Session} (h : s.Reachable) : s.circuit.Sound := by
  obtain ⟨names, ops, hops, rfl⟩ := h
  have hrun : ∀ s : Session, s.circuit.Sound → (s.run ops).2.circuit.Sound := by
    induction ops with
    | nil => exact fun _ h => h
    | cons op ops ih =>
      intro s h
      obtain ⟨hop, hops⟩ := List.forall_mem_cons.1 hops
      exact ih hops _ (sound_perform h hop)
  exact hrun _ (sound_start names)

theorem perform_cycle_of_ok {s : Session} {passes : Nat} {c : Circuit}
    (hc : s.circuit.cycle = (.ok passes, c)) :
    s.perform .cycle = (.cycled passes, { s with circuit := c }) := by
  rw [perform, hc]

theorem perform_cycle_of_error {s : Session} {f : RunFault}
    (hc : s.circuit.cycle = (.error f, s.circuit)) :
    s.perform .cycle = (.cycleFailed (f.report s.names), s) := by
  rw [perform, hc]

/-- What a cycle leaves is consistent, however the circuit was built and whatever was done with it,
and whether or not the gates had to settle a second time. So a cycle fails if no values of the gates
are consistent with what the sources give. -/
theorem consistent_of_cycle {s : Session} (h : s.Reachable) :
    (∀ passes s', s.perform .cycle = (.cycled passes, s') → s'.circuit.devices.Consistent) ∧
    (s.circuit.devices.floating = [] →
      (∀ f, ¬ (s.circuit.devices.advance.setGates f).Consistent) →
      s.perform .cycle = (.cycleFailed (.oscillation s.circuit.devices.settleLimit), s)) := by
  obtain ⟨hwell, hlatched⟩ := h.sound
  constructor
  · intro passes s' hp
    rcases hc : s.circuit.cycle with ⟨_ | passes', c⟩
    · have hfail := perform_cycle_of_error (Circuit.cycle_error hc ▸ hc)
      rw [hp] at hfail
      cases hfail
    · have hok := perform_cycle_of_ok hc
      rw [hp] at hok
      cases hok
      exact (Registry.consistent_cycle hwell hlatched (Circuit.cycle_eq_ok hc)).2
  · intro hf hnone
    have hc := Registry.cycle_of_no_solution hwell hf hlatched hnone
    exact perform_cycle_of_error (Circuit.cycle_eq_error hc)

/-- A gate that feeds back on itself as soon as a switch is HIGH. -/
def ring : List Operation :=
  [.create .switch switch (.ofString "0"), .create .nand gate (.ofString "2"),
    .connect switch none gate Pin.i1, .connect gate none gate Pin.i2, .setSwitch switch true]
where
  switch : NameId := 22
  gate : NameId := 23

theorem consistent_of_cycle_ring :
    let s := ((start {}).run (lateRing ++ [.setSwitch lateRing.data false])).2
    let s' := ((start {}).run ring).2
    (s.perform .cycle).2.circuit.devices.Consistent ∧
      s'.perform .cycle = (.cycleFailed (.oscillation 24), s') := by
  intro s s'
  constructor
  · have hcycled : (s.perform .cycle).1 = .cycled 2 := by decide +kernel
    have hs : s.Reachable := ⟨_, _, by decide, rfl⟩
    refine (consistent_of_cycle hs).1 2 (s.perform .cycle).2 ?_
    rw [← hcycled]
  · have hs : s'.Reachable := ⟨_, _, by decide, rfl⟩
    have hf : s'.circuit.devices.floating = [] := by decide +kernel
    have hnone : ∀ f, ¬ (s'.circuit.devices.advance.setGates f).Consistent := by
      have hw := Registry.wiring_advance hs.sound.wellFormed
      have hwell := hs.sound.wellFormed.of_wiring_eq hw
      have hfa := (Registry.floating_of_wiring_eq hw).trans hf
      -- there is one gate, so only its own value matters
      have hgate : ∀ d ∈ s'.circuit.devices.advance.devices, d.kind.isGate = true →
          d.id = ring.gate := by
        decide +kernel
      have hv : ∀ v : Signal, ¬ s'.circuit.devices.advance.Stable fun _ => v := by decide +kernel
      intro f hc
      have hl := Registry.latched_advance hs.sound.latched
      have hstable := (Registry.consistent_setGates_iff hwell hfa hl).1 hc
      refine hv (f ring.gate) ((Registry.stable_congr hwell fun d hd hg => ?_).1 hstable)
      rw [hgate d hd hg]
    have hlimit : s'.circuit.devices.settleLimit = 24 := by decide +kernel
    rw [(consistent_of_cycle hs).2 hf hnone, hlimit]

end Session

end GateSim
