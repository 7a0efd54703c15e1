import GateSim.Proofs.Acyclic
import GateSim.Proofs.Session

/-!
# The synchronous machine

How a circuit whose gates form no loop behaves, without passes: in a cycle the signal sources take
their step, all gates are evaluated from what they read, all flip-flops change at once, and all
gates are evaluated again (`Registry.synchronous`). The order in which the devices were made does
not matter to it.
-/

namespace GateSim

namespace Registry
variable {r : Registry}

/-- A cycle of the synchronous machine. -/
def synchronous (r : Registry) : Registry := r.advance.evaluated.clocked.evaluated

/-- What the synchronous machine does. Operations on names and monitors do not concern it. -/
def respond (r : Registry) : Operation → Registry
  | .setSwitch id v => (r.setSwitch id v).getD r
  | .coldStart => r.coldStart
  | .cycle => r.synchronous
  | _ => r

/-- What the synchronous machine does, one operation after the other. -/
def respondAll (r : Registry) (ops : List Operation) : Registry := ops.foldl respond r

/-- Every gate is made after the gates that it reads. -/
def InOrder (r : Registry) : Prop := ∀ a b, r.Reads b a → r.ids.idxOf a < r.ids.idxOf b

theorem InOrder.lateEdges_eq (ho : r.InOrder) {p : List NameId} (hp : p.IsChain r.Reads) :
    r.lateEdges p = 0 := by
  induction p with
  | nil => rfl
  | cons b p ih =>
    cases p with
    | nil => rfl
    | cons a p =>
      obtain ⟨hr, hchain⟩ := List.isChain_cons_cons.1 hp
      have hlt := ho a b hr
      rw [lateEdges, ih hchain, if_neg (by omega)]

theorem wiring_evaluated (h : r.WellFormed) : r.evaluated.wiring = r.wiring :=
  wiring_setGates h r.eval

/-- Gates that solve their equations have been evaluated. -/
theorem evaluated_eq_self (h : r.WellFormed) (ha : r.Acyclic) (hs : r.Stable r.gateValues) :
    r.evaluated = r := by
  have hvalues : r.setGates r.eval = r.setGates r.gateValues :=
    setGates_congr fun d hd hg => (stable_eval h ha).eq h ha hs hd hg
  rw [evaluated, hvalues, setGates_gateValues h]

/-- A cycle of a circuit whose gates form no loop is one of the synchronous machine. -/
theorem cycle_of_acyclic (h : r.WellFormed) (hf : r.floating = []) (hl : r.Latched)
    (ha : r.Acyclic) : ∃ passes, cycle r = .ok passes r.synchronous := by
  have hsettles : ∀ {r' : Registry}, r'.wiring = r.wiring →
      ∃ passes, settle r' = .ok passes r'.evaluated := by
    intro r' hw
    have h' := h.of_wiring_eq hw
    have ha' := ha.of_wiring_eq h hw
    obtain ⟨B, hB, -⟩ := exists_isGreatest_lateCounts h' ha'
    obtain ⟨passes, -, hp⟩ :=
      settle_of_acyclic h' ((floating_of_wiring_eq hw).trans hf) ha' hB
    exact ⟨passes, hp⟩
  have hwa := wiring_advance h
  have hwella := h.of_wiring_eq hwa
  have hw₁ : r.advance.evaluated.wiring = r.wiring := (wiring_evaluated hwella).trans hwa
  have h₁ := h.of_wiring_eq hw₁
  have hw₂ := (wiring_clocked h₁).trans hw₁
  obtain ⟨passes, hpasses⟩ := hsettles hwa
  obtain ⟨more, hmore⟩ := hsettles hw₂
  have hphases := phases_eq hpasses h₁ ((floating_of_wiring_eq hw₁).trans hf)
  rw [cycle_eq hf]
  by_cases hb : r.advance.evaluated.devices.any r.advance.evaluated.latches = true
  · rw [if_pos hb, Change.bind_ok hmore] at hphases
    exact ⟨passes + more, by rw [hphases]; rfl⟩
  · -- no flip-flop has latched another bit, so the gates keep their values
    rw [if_neg hb] at hphases
    have hstable : r.advance.evaluated.clocked.Stable r.advance.evaluated.clocked.gateValues := by
      refine stable_clocked h₁ (latched_setGates hwella (latched_advance hl) _) (by simpa using hb) ?_
      exact (stable_gateValues_setGates hwella).2 (stable_eval hwella (ha.of_wiring_eq h hwa))
    have hsame : r.synchronous = r.advance.evaluated.clocked :=
      evaluated_eq_self (h.of_wiring_eq hw₂) (ha.of_wiring_eq h hw₂) hstable
    exact ⟨passes, by rw [hphases, hsame]⟩

end Registry

namespace Operation

/-- The operation leaves the devices and their connections alone. -/
def keepsWiring : Operation → Bool
  | create .. | connect .. => false
  | op => !op.isDamage

theorem isDamage_of_keepsWiring {op : Operation} (h : op.keepsWiring = true) :
    op.isDamage = false := by
  cases op <;> first | rfl | cases h

end Operation

namespace Session
variable {s : Session}

theorem wiring_perform (hs : s.circuit.Sound) {op : Operation} (hop : op.keepsWiring = true) :
    (s.perform op).2.circuit.devices.wiring = s.circuit.devices.wiring := by
  obtain ⟨hw, hl⟩ := hs
  cases op with
  | setSwitch id v =>
    show (s.circuit.setSwitch id v).2.devices.wiring = _
    unfold Circuit.setSwitch
    split
    · next hset => exact hw.wiring_setSwitch hset
    · rfl
  | coldStart => exact hw.wiring_coldStart
  | cycle =>
    rcases hc : s.circuit.cycle with ⟨_ | passes, c⟩
    · rw [perform_cycle_of_error (Circuit.cycle_error hc ▸ hc)]
    · rw [perform_cycle_of_ok hc]
      exact (Registry.consistent_cycle hw hl (Circuit.cycle_eq_ok hc)).1
  | record =>
    have hdevices : s.circuit.record.2.devices = s.circuit.devices := rfl
    rw [perform]
    split <;> next hr => rw [hr] at hdevices; exact congrArg Registry.wiring hdevices
  | intern | monitor | unmonitor | resetMonitors => rfl
  | create | connect | eraseInput | eraseOutput | setKind => cases hop

/-- An operation does to the devices what it does to the synchronous machine. -/
theorem perform_synchronous (hs : s.circuit.Sound) (hf : s.circuit.devices.floating = [])
    (ha : s.circuit.devices.Acyclic) {op : Operation} (hop : op.keepsWiring = true) :
    (s.perform op).1.isFailedCycle = false ∧
      (s.perform op).2.circuit.devices = s.circuit.devices.respond op ∧
      (s.perform op).2.circuit.devices.wiring = s.circuit.devices.wiring := by
  have hwiring := wiring_perform hs hop
  cases op with
  | setSwitch id v =>
    have hdevices : (s.circuit.setSwitch id v).2.devices =
        (s.circuit.devices.setSwitch id v).getD s.circuit.devices := by
      unfold Circuit.setSwitch
      cases s.circuit.devices.setSwitch id v <;> rfl
    exact ⟨rfl, hdevices, hwiring⟩
  | cycle =>
    obtain ⟨passes, hc⟩ := Registry.cycle_of_acyclic hs.wellFormed hf hs.latched ha
    have hcircuit : s.circuit.cycle = (.ok passes, { s.circuit with
        devices := s.circuit.devices.synchronous, lastPasses := passes }) := by
      rw [Circuit.cycle, EStateM.run, hc]
    rw [perform_cycle_of_ok hcircuit] at hwiring ⊢
    exact ⟨rfl, rfl, hwiring⟩
  | record =>
    rw [perform]
    split <;> next hc =>
      have hdevices : (s.circuit.record).2.devices = s.circuit.devices := rfl
      rw [hc] at hdevices
      exact ⟨rfl, hdevices, congrArg Registry.wiring hdevices⟩
  | coldStart | intern | monitor | unmonitor | resetMonitors => exact ⟨rfl, rfl, hwiring⟩
  | create | connect | eraseInput | eraseOutput | setKind => cases hop

/-- A circuit whose gates form no loop never fails to settle, and whatever is done with it, its
devices are those of the synchronous machine. Each settling takes at most two passes more than the
late edges that a path can have, so two if gates are made after what they read. -/
theorem run_synchronous (hs : s.Reachable) (hf : s.circuit.devices.floating = [])
    (ha : s.circuit.devices.Acyclic) :
    (∀ ops, (∀ op ∈ ops, op.keepsWiring = true) →
      (∀ reply ∈ (s.run ops).1, reply.isFailedCycle = false) ∧
        (s.run ops).2.circuit.devices = s.circuit.devices.respondAll ops) ∧
    ∃ B, IsGreatest s.circuit.devices.lateCounts B ∧ (s.circuit.devices.InOrder → B = 0) ∧
      ∀ r, r.wiring = s.circuit.devices.wiring →
        ∃ passes ≤ B + 2, Registry.settle r = .ok passes r.evaluated := by
  have hsound := hs.sound
  have hw := hsound.wellFormed
  constructor
  · clear hs
    intro ops hops
    induction ops generalizing s with
    | nil => exact ⟨by simp [run], rfl⟩
    | cons op ops ih =>
      obtain ⟨hop, hops⟩ := List.forall_mem_cons.1 hops
      obtain ⟨hok, hdevices, hwiring⟩ := perform_synchronous hsound hf ha hop
      have hsound' := sound_perform hsound (Operation.isDamage_of_keepsWiring hop)
      obtain ⟨hoks, hrun⟩ := ih ((Registry.floating_of_wiring_eq hwiring).trans hf)
        (ha.of_wiring_eq hw hwiring) hsound' hsound'.wellFormed hops
      refine ⟨List.forall_mem_cons.2 ⟨hok, hoks⟩, ?_⟩
      rw [run, Registry.respondAll, List.foldl_cons, ← hdevices]
      exact hrun
  · obtain ⟨B, hB, -⟩ := Registry.exists_isGreatest_lateCounts hw ha
    refine ⟨B, hB, fun ho => ?_, fun r hr => ?_⟩
    · obtain ⟨p, hp, rfl⟩ := hB.1
      exact ho.lateEdges_eq hp.chain
    · have hB' : IsGreatest r.lateCounts B := by rwa [Registry.lateCounts_of_wiring_eq hw hr]
      exact Registry.settle_of_acyclic (hw.of_wiring_eq hr)
        ((Registry.floating_of_wiring_eq hr).trans hf) (ha.of_wiring_eq hw hr) hB'

/-- A flip-flop that toggles, and an inverter that was made before the one that it reads. -/
def toggle : List Operation :=
  [.create .nand late (.ofString "1"), .create .nand inverter (.ofString "1"),
    .create .dtype flipFlop [], .create .clock clock (.ofString "1"),
    .create .switch low (.ofString "0"), .connect inverter none late Pin.i1,
    .connect flipFlop (some Pin.q) inverter Pin.i1, .connect inverter none flipFlop Pin.data,
    .connect clock none flipFlop Pin.clk, .connect low none flipFlop Pin.set,
    .connect low none flipFlop Pin.clear]
where
  late : NameId := 22
  inverter : NameId := 23
  flipFlop : NameId := 24
  clock : NameId := 25
  low : NameId := 26

theorem run_synchronous_toggle :
    let s := ((start {}).run toggle).2
    let ops := [.cycle, .cycle, .cycle, .setSwitch toggle.low true, .cycle, .coldStart, .cycle]
    (s.run ops).2.circuit.devices = s.circuit.devices.respondAll ops ∧
      ∃ B, IsGreatest s.circuit.devices.lateCounts B ∧
        ∃ passes ≤ B + 2, Registry.settle s.circuit.devices =
          .ok passes s.circuit.devices.evaluated := by
  intro s ops
  have hs : s.Reachable := ⟨_, _, by decide, rfl⟩
  have hf : s.circuit.devices.floating = [] := by decide +kernel
  have ha : s.circuit.devices.Acyclic :=
    Registry.acyclic_of_rank (fun id => toggle.flipFlop - id) (by decide +kernel)
  obtain ⟨hrun, B, hB, -, hsettle⟩ := run_synchronous hs hf ha
  exact ⟨(hrun ops (by decide)).2, B, hB, hsettle _ rfl⟩

end Session

end GateSim
