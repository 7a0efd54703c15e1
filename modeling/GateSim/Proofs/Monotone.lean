import GateSim.Proofs.Course
import GateSim.Proofs.Passes
import GateSim.Proofs.Synchronous

/-!
# Feedback through gates that do not invert

AND and OR gates follow their inputs. If the sources move one way only, HIGH or LOW, since the gates
have settled, then no gate is to move the other way, before any turn of any pass
(`Registry.Climbs.turn`). So each pass but the last moves some gate for good, and there are at most
as many of them as gates, whatever loops the gates form (`Session.monotone_settles`).
-/

namespace GateSim

/-- A value that was `b` has stayed `b`. -/
def Toward (b u v : Signal) : Prop := u = b → v = b

instance (b u v : Signal) : Decidable (Toward b u v) := inferInstanceAs (Decidable (_ → _))

namespace Toward
variable {b u v w : Signal}

theorem refl (b u : Signal) : Toward b u u := id

theorem trans (h : Toward b u v) (h' : Toward b v w) : Toward b u w := h' ∘ h

theorem of_false (v : Signal) : Toward true false v := nofun

theorem of_ne (h : Toward b u v) (hne : v ≠ u) : u ≠ b ∧ v = b := by
  have hu : u ≠ b := fun hu => hne ((h hu).trans hu.symm)
  exact ⟨hu, by cases b <;> cases u <;> cases v <;> simp_all⟩

end Toward

namespace Kind

/-- The device is a gate that does not invert, or a source. -/
def isMonotone : Kind → Bool
  | .switch | .clock | .and | .or | .rc | .siggen => true
  | .nand | .nor | .xor | .dtype => false

theorem function_toward {kind : Kind} (hk : kind.isMonotone = true) {b : Signal} {α : Type}
    {l : List α} {f g : α → Signal} (h : ∀ a ∈ l, Toward b (f a) (g a)) :
    Toward b (kind.function (l.map f)) (kind.function (l.map g)) := by
  cases kind with
  | and =>
    simp only [function, Toward]
    cases b with
    | true =>
      simp only [List.all_map, List.all_eq_true]
      exact fun hf a ha => h a ha (hf a ha)
    | false =>
      simp only [List.all_map, List.all_eq_false]
      rintro ⟨a, ha, hf⟩
      exact ⟨a, ha, by simpa using h a ha (by simpa using hf)⟩
  | or =>
    simp only [function, Toward]
    cases b with
    | true =>
      simp only [List.any_map, List.any_eq_true]
      rintro ⟨a, ha, hf⟩
      exact ⟨a, ha, h a ha hf⟩
    | false =>
      simp only [List.any_map, List.any_eq_false]
      exact fun hf a ha => by simpa using h a ha (by simpa using hf a ha)
  | switch | clock | rc | siggen => exact Toward.refl _ _
  | nand | nor | xor | dtype => cases hk

end Kind

namespace Registry
variable {r r' : Registry} {b : Signal} {f g f₀ : Valuation} {d : Device}

/-- No device inverts or stores. -/
def IsMonotone (r : Registry) : Prop := ∀ d ∈ r.devices, d.kind.isMonotone = true

/-- The outputs of sources that are `b` have stayed `b`. -/
def SourcesToward (b : Signal) (r r' : Registry) : Prop :=
  ∀ d ∈ r.devices, d.kind.isGate = false → ∀ e ∈ d.outputs, ∀ v,
    r'.output? d.id e.1 = some v → Toward b e.2 v

instance (b : Signal) (r r' : Registry) : Decidable (SourcesToward b r r') :=
  inferInstanceAs (Decidable (∀ d ∈ r.devices, _ → ∀ e ∈ d.outputs, ∀ _, _ → _))

def GatesToward (r : Registry) (b : Signal) (f g : Valuation) : Prop :=
  ∀ d ∈ r.devices, d.kind.isGate = true → Toward b (f d.id) (g d.id)

/-- No gate is to move away from `b`. -/
def Climbing (r : Registry) (b : Signal) (f : Valuation) : Prop :=
  ∀ d ∈ r.devices, d.kind.isGate = true → Toward b (f d.id) (r.next f d)

/-- The gates have moved from `f₀` to `f` towards `b`, are to move on that way, and have not gone
beyond a solution of their equations. -/
structure Climbs (r : Registry) (b : Signal) (f₀ f : Valuation) : Prop where
  toward : r.GatesToward b f₀ f
  climbing : r.Climbing b f
  bounded : ∀ g, r.Stable g → r.GatesToward b f₀ g → r.GatesToward b f g

theorem SourcesToward.refl (h : r.WellFormed) (b : Signal) : SourcesToward b r r := by
  intro d hd _ e he v hv
  rw [h.output?_of_mem hd, (h.devices d hd).outputs.get?_of_mem he] at hv
  rw [Option.some.inj hv]
  exact Toward.refl b v

theorem IsMonotone.of_wiring_eq (hm : r.IsMonotone) (hw : r'.wiring = r.wiring) :
    r'.IsMonotone := by
  intro d' hd'
  obtain ⟨d, hd, -, hkind, -⟩ := exists_of_wiring_eq hw hd'
  exact hkind ▸ hm d hd

/-- Circuits that are wired alike have the same gates. -/
theorem eq_of_wiring_eq (hw : r'.wiring = r.wiring)
    (h : ∀ d ∈ r.devices, d.kind.isGate = true → f d.id = g d.id) :
    ∀ d ∈ r'.devices, d.kind.isGate = true → f d.id = g d.id := by
  intro d' hd' hg
  obtain ⟨d, hd, hid, hkind, -⟩ := exists_of_wiring_eq hw hd'
  exact hid ▸ h d hd (hkind ▸ hg)

/-! ### What gates compute -/

/-- Gates of the same circuit follow their inputs. -/
theorem next_toward (h : r.WellFormed) (hm : r.IsMonotone) (hw : r'.wiring = r.wiring)
    (hs : SourcesToward b r r') (hfg : r.GatesToward b f g) (hd : d ∈ r.devices) :
    Toward b (r.next f d) (r'.next g d) := by
  refine Kind.function_toward (hm d hd) fun e he => ?_
  obtain ⟨pin, source⟩ := e
  cases source with
  | none => exact Toward.refl _ _
  | some s =>
    obtain ⟨d₁, hd₁, hid, hpin⟩ := h.sources d hd pin s ((h.devices d hd).inputs.get?_of_mem he)
    show Toward b (r.value f s) (r'.value g s)
    rw [value, value, isGate_of_wiring_eq h hw, ← hid, isGate_of_mem h hd₁]
    cases hg : d₁.kind.isGate with
    | true => exact hfg d₁ hd₁ hg
    | false =>
      obtain ⟨d₂, hd₂, hid', -, -, hkeys⟩ := exists_of_wiring_eq hw.symm hd₁
      obtain ⟨u, hu⟩ := Option.isSome_iff_exists.1 (PinMap.contains_iff.2 hpin)
      obtain ⟨v, hv⟩ := Option.isSome_iff_exists.1 (PinMap.contains_iff.2 (hkeys ▸ hpin))
      rw [← (h.of_wiring_eq hw).output?_of_mem hd₂, hid'] at hv
      simp only [Bool.false_eq_true, if_false, h.output?_of_mem hd₁, hu, hv, Option.getD_some]
      exact hs d₁ hd₁ hg _ (PinMap.mem_of_get? hu) v hv

theorem turn_cases (h : r.WellFormed) (f : Valuation) (i : Nat) (hd : d ∈ r.devices) :
    r.turn i f d.id = f d.id ∨ r.turn i f d.id = r.next f d := by
  unfold turn
  cases hi : r.devices[i]? with
  | none => exact Or.inl rfl
  | some d₁ =>
    dsimp only
    split
    · by_cases hid : d.id = d₁.id
      · obtain rfl := h.eq_of_id_eq hd (List.mem_of_getElem? hi) hid
        exact Or.inr (Function.update_self ..)
      · exact Or.inl (Function.update_of_ne hid ..)
    · exact Or.inl rfl

/-! ### Passes -/

theorem Climbing.climbs (hc : r.Climbing b f) : r.Climbs b f f :=
  ⟨fun _ _ _ => Toward.refl _ _, hc, fun _ _ hfg => hfg⟩

/-- What is true before a turn is true after it. -/
theorem Climbs.turn (h : r.WellFormed) (hm : r.IsMonotone) (hc : r.Climbs b f₀ f) (i : Nat) :
    r.Climbs b f₀ (r.turn i f) := by
  obtain ⟨htoward, hclimbing, hbounded⟩ := hc
  have hturn : r.GatesToward b f (r.turn i f) := by
    intro d hd hg
    rcases turn_cases h f i hd with heq | heq <;> rw [heq]
    · exact Toward.refl _ _
    · exact hclimbing d hd hg
  refine ⟨fun d hd hg => (htoward d hd hg).trans (hturn d hd hg), fun d hd hg => ?_,
    fun g hs hfg d hd hg => ?_⟩
  · have hnext := next_toward h hm rfl (.refl h b) hturn hd
    rcases turn_cases h f i hd with heq | heq <;> rw [heq]
    · exact (hclimbing d hd hg).trans hnext
    · exact hnext
  · have hbelow := hbounded g hs hfg
    rcases turn_cases h f i hd with heq | heq <;> rw [heq]
    · exact hbelow d hd hg
    · rw [hs d hd hg]
      exact next_toward h hm rfl (.refl h b) hbelow hd

theorem Climbs.turns (h : r.WellFormed) (hm : r.IsMonotone) (hc : r.Climbs b f₀ f) (n : Nat) :
    r.Climbs b f₀ (r.turns n f) := by
  induction n with
  | zero => exact hc
  | succ n ih => exact ih.turn h hm n

theorem Climbs.iterate (h : r.WellFormed) (hm : r.IsMonotone) (hc : r.Climbs b f₀ f) (k : Nat) :
    r.Climbs b f₀ (r.passed^[k] f) := by
  induction k with
  | zero => exact hc
  | succ k ih =>
    rw [Function.iterate_succ_apply']
    exact ih.turns h hm r.size

/-! ### How many passes there are -/

theorem countP_lt_countP {α : Type} {p q : α → Bool} {l : List α} {a : α}
    (hpq : ∀ a ∈ l, p a = true → q a = true) (ha : a ∈ l) (hp : p a = false) (hq : q a = true) :
    l.countP p < l.countP q := by
  have hfilter : l.countP p = (l.filter q).countP p := by
    rw [List.countP_filter]
    exact List.countP_congr fun a ha => by simpa using hpq a ha
  rw [hfilter, List.countP_eq_length_filter (p := q), List.countP_lt_length_iff]
  exact ⟨a, List.mem_filter.2 ⟨ha, hq⟩, hp⟩

def gateCount (r : Registry) : Nat := r.devices.countP (·.kind.isGate)

theorem gateCount_of_wiring_eq (hw : r'.wiring = r.wiring) : r'.gateCount = r.gateCount := by
  have hcount : ∀ r : Registry,
      r.gateCount = (r.devices.map Device.wiring).countP (·.kind.isGate) := fun r => by
    rw [List.countP_map]
    rfl
  rw [hcount, hcount, devices_eq_of_wiring_eq hw]

/-- How many gates have the value `b`. -/
def arrived (r : Registry) (b : Signal) (f : Valuation) : Nat :=
  r.devices.countP fun d => d.kind.isGate && f d.id == b

theorem arrived_le (r : Registry) (b : Signal) (f : Valuation) : r.arrived b f ≤ r.gateCount :=
  List.countP_mono_left fun _ _ hd => (Bool.and_eq_true_iff.1 hd).1

/-- A pass that changes something moves another gate to `b`, for good. -/
theorem arrived_lt (h : r.WellFormed) (hm : r.IsMonotone) (hc : r.Climbing b f)
    (hs : ¬ r.Stable f) : r.arrived b f < r.arrived b (r.passed f) := by
  have htoward : r.GatesToward b f (r.passed f) := (hc.climbs.turns h hm r.size).toward
  obtain ⟨d, hd, hg, hne⟩ : ∃ d ∈ r.devices, d.kind.isGate = true ∧ r.passed f d.id ≠ f d.id := by
    by_contra hnone
    refine hs (stable_of_passed h fun d hd hg => ?_)
    by_contra hne
    exact hnone ⟨d, hd, hg, hne⟩
  obtain ⟨hbefore, hafter⟩ := (htoward d hd hg).of_ne hne
  refine countP_lt_countP (fun d hd => ?_) hd (by simpa [hg] using hbefore) ?_
  · simp only [Bool.and_eq_true, beq_iff_eq]
    exact fun ⟨hg, heq⟩ => ⟨hg, htoward d hd hg heq⟩
  · simpa [hg] using hafter

theorem le_arrived (h : r.WellFormed) (hm : r.IsMonotone) (hc : r.Climbing b f) (k : Nat)
    (hk : ∀ j < k, ¬ r.Stable (r.passed^[j] f)) : k ≤ r.arrived b (r.passed^[k] f) := by
  induction k with
  | zero => exact Nat.zero_le _
  | succ k ih =>
    have hlt := arrived_lt h hm (hc.climbs.iterate h hm k).climbing (hk k (Nat.lt_succ_self k))
    rw [Function.iterate_succ_apply']
    exact Nat.lt_of_le_of_lt (ih fun j hj => hk j (Nat.lt_succ_of_lt hj)) hlt

/-- Settling ends with the nearest solution, after at most one pass more than there are gates. -/
theorem settle_of_climbing (h : r.WellFormed) (hf : r.floating = []) (hm : r.IsMonotone)
    (hc : r.Climbing b r.gateValues) :
    ∃ passes ≤ r.gateCount + 1, ∃ f, r.Stable f ∧ r.Climbs b r.gateValues f ∧
      settle r = .ok passes (r.setGates f) := by
  rcases settle_eq h hf with ⟨k, -, hs, hfirst, heq⟩ | ⟨hnone, -⟩
  · have hle := Nat.le_trans (le_arrived h hm hc k hfirst) (r.arrived_le b _)
    exact ⟨k + 1, Nat.succ_le_succ hle, _, hs, hc.climbs.iterate h hm k, heq⟩
  · have hle := Nat.le_trans (le_arrived h hm hc _ hnone) (r.arrived_le b _)
    have hcount : r.gateCount ≤ r.size := List.countP_le_length
    rw [settleLimit] at hle
    omega

/-! ### Cycles -/

/-- The gates have the solution of their equations that is nearest to `f` on the side of `b`. -/
structure Nearest (r : Registry) (b : Signal) (f : Valuation) : Prop where
  consistent : r.Consistent
  nearest : ∀ g, (r.setGates g).Consistent → r.GatesToward b f g → r.GatesToward b r.gateValues g

theorem Nearest.congr (h : r.Nearest b f)
    (hfg : ∀ d ∈ r.devices, d.kind.isGate = true → f d.id = g d.id) : r.Nearest b g :=
  ⟨h.consistent, fun g' hg' htoward => h.nearest g' hg' fun d hd hg =>
    hfg d hd hg ▸ htoward d hd hg⟩

theorem IsMonotone.ne_dtype (hm : r.IsMonotone) : ∀ d ∈ r.devices, d.kind ≠ .dtype := by
  intro d hd hk
  have hmono := hm d hd
  rw [hk] at hmono
  cases hmono

/-- The cycle succeeds if no gate is to move away from `b` when the sources have taken their step. -/
theorem cycle_of_climbing (h : r.WellFormed) (hf : r.floating = []) (hl : r.Latched)
    (hm : r.IsMonotone) (hc : r.advance.Climbing b r.advance.gateValues) :
    ∃ passes ≤ r.gateCount + 1, ∃ r', cycle r = .ok passes r' ∧ r'.wiring = r.wiring ∧
      r'.Nearest b r.advance.gateValues := by
  have hwa := wiring_advance h
  have ha := h.of_wiring_eq hwa
  have hfa := floating_advance h hf
  have hma := hm.of_wiring_eq hwa
  obtain ⟨passes, hle, f, hstable, hclimbs, hsettle⟩ := settle_of_climbing ha hfa hma hc
  obtain ⟨h₁, hf₁, hl₁, hstable₁⟩ := settled_of_settle ha hfa (latched_advance hl) hsettle
  have hw₁ := wiring_setGates ha f
  obtain ⟨hclocked, hlatches⟩ := clocked_eq_self h₁ (hma.of_wiring_eq hw₁).ne_dtype
  have hcycle : cycle r = .ok passes (r.advance.setGates f) := by
    rw [cycle_eq hf, phases_eq hsettle h₁ hf₁, hlatches, hclocked]
    rfl
  refine ⟨passes, gateCount_of_wiring_eq hwa ▸ hle, _, hcycle, hw₁.trans hwa,
    (consistent_iff h₁ hf₁).2 ⟨hstable₁, hl₁⟩, fun g hg htoward d' hd' hgate => ?_⟩
  have hsolution := (stable_setGates ha).1 ((consistent_setGates_iff h₁ hf₁ hl₁).1 hg)
  have hbounded := hclimbs.bounded g hsolution fun d hd hgate =>
    Device.id_setGate (f := f) ▸ htoward (d.setGate f) (List.mem_map_of_mem hd) (by simpa using hgate)
  obtain ⟨d, hd, rfl⟩ := List.mem_map.1 hd'
  rw [Device.kind_setGate] at hgate
  rw [Device.id_setGate, gateValues_setGates ha hd hgate]
  exact hbounded d hd hgate

/-- Gates that have settled, and whose sources move towards `b` now, are not to move away from it. -/
theorem climbing_of_stable (h : r.WellFormed) (hm : r.IsMonotone) (hw : r'.wiring = r.wiring)
    (hs : SourcesToward b r r') (hstable : r.Stable f)
    (hfg : ∀ d ∈ r.devices, d.kind.isGate = true → g d.id = f d.id) : r'.Climbing b g := by
  intro d' hd' hg
  obtain ⟨d, hd, hid, hkind, hin, -⟩ := exists_of_wiring_eq hw hd'
  rw [← hkind] at hg
  have hnext : r'.next g d' = r'.next g d := by rw [next, next, hkind, hin]
  rw [hnext, ← hid, hfg d hd hg, hstable d hd hg]
  refine next_toward h hm hw hs (fun d hd hg => ?_) hd
  rw [hfg d hd hg]
  exact Toward.refl _ _

theorem gateValues_advance (h : r.WellFormed) (hd : d ∈ r.devices) (hg : d.kind.isGate = true) :
    r.advance.gateValues d.id = r.gateValues d.id := by
  have hadvance : d.advance = d := by
    rcases Device.state_of_isGate (h.devices d hd) hg with ⟨n, hs⟩ | hs <;>
      simp only [Device.advance, hs]
  have hmem : d ∈ r.advance.devices := by
    have := List.mem_map_of_mem (f := Device.advance) hd
    rwa [hadvance] at this
  rw [gateValues_of_mem (h.of_wiring_eq (wiring_advance h)) hmem, gateValues_of_mem h hd]

/-- Cold gates are LOW. -/
theorem gateValues_coldStart (h : r.WellFormed) (hd : d ∈ r.coldStart.devices)
    (hg : d.kind.isGate = true) : r.coldStart.gateValues d.id = false := by
  rw [gateValues_of_mem (h.of_wiring_eq h.wiring_coldStart) hd]
  obtain ⟨d₁, hd₁, rfl⟩ := List.mem_map.1 hd
  rw [Device.value, Device.reset_eq_start]
  rcases Device.state_of_isGate (h.devices d₁ hd₁) hg with ⟨n, hs⟩ | hs <;>
    simp [hs, State.startOutputs, PinMap.get?_putAll]

end Registry

namespace Session
variable {s s' : Session} {ops : List Operation} {op : Operation} {b : Signal} {d : Device}

/-- Switches may be set and monitors may be changed, but no cycle succeeds. -/
def Pauses (s : Session) (ops : List Operation) : Prop :=
  (∀ op ∈ ops, op.keepsWiring = true ∧ op.isOnward = true) ∧ s.cyclesIn ops = 0

/-- Gates stay as they are until a cycle succeeds. -/
theorem gateValues_perform (hs : s.circuit.Sound) (hop : op.isOnward = true)
    (hstill : (s.perform op).1.isCycled = false) (hd : d ∈ s.circuit.devices.devices)
    (hg : d.kind.isGate = true) :
    (s.perform op).2.circuit.devices.gateValues d.id = s.circuit.devices.gateValues d.id := by
  have hs' := sound_perform hs (Operation.isDamage_of_isOnward hop)
  obtain ⟨i, hi⟩ := List.getElem?_of_mem hd
  obtain ⟨d', hd', hdd', hcourse⟩ := course_perform hs hop hi
  cases hcourse with
  | cycled f g hcycled heq => rw [hstill] at hcycled; cases hcycled
  | still _ hstate houtputs =>
    have hswitch : ∀ initial setting, d.state ≠ .switch initial setting := by
      intro initial setting hs₁
      rcases Device.state_of_isGate (hs.wellFormed.devices d hd) hg with ⟨n, hs₂⟩ | hs₂ <;>
        rw [hs₁] at hs₂ <;> cases hs₂
    rw [Device.heed_of_not_switch hswitch] at houtputs
    rw [← hdd'.id, Registry.gateValues_of_mem hs'.wellFormed (List.mem_of_getElem? hd'), hdd'.id,
      Registry.gateValues_of_mem hs.wellFormed hd, Device.value, houtputs, Device.value]

theorem pause (hs : s.circuit.Sound) (h : s.Pauses ops) :
    (s.run ops).2.circuit.Sound ∧
      (s.run ops).2.circuit.devices.wiring = s.circuit.devices.wiring ∧
      ∀ d ∈ s.circuit.devices.devices, d.kind.isGate = true →
        (s.run ops).2.circuit.devices.gateValues d.id = s.circuit.devices.gateValues d.id := by
  obtain ⟨hops, hcycles⟩ := h
  induction ops generalizing s with
  | nil => exact ⟨hs, rfl, fun _ _ _ => rfl⟩
  | cons op ops ih =>
    obtain ⟨⟨hkeeps, honward⟩, hops⟩ := List.forall_mem_cons.1 hops
    rw [cyclesIn_cons] at hcycles
    have hstill : (s.perform op).1.isCycled = false := by
      by_contra hcycled
      rw [if_pos (by simpa using hcycled)] at hcycles
      omega
    have hs₁ := sound_perform hs (Operation.isDamage_of_keepsWiring hkeeps)
    have hw₁ := wiring_perform hs hkeeps
    obtain ⟨hs', hw', hvalues⟩ := ih hs₁ hops (by omega)
    refine ⟨hs', hw'.trans hw₁, fun d hd hg => ?_⟩
    rw [← gateValues_perform hs honward hstill hd hg]
    exact Registry.eq_of_wiring_eq hw₁.symm hvalues d hd hg

theorem perform_cycle_eq {passes : Nat} {r : Registry}
    (hc : Registry.cycle s.circuit.devices = .ok passes r) :
    s.perform .cycle = (.cycled passes,
      { s with circuit := { s.circuit with devices := r, lastPasses := passes } }) := by
  have hcircuit : s.circuit.cycle =
      (.ok passes, { s.circuit with devices := r, lastPasses := passes }) := by
    rw [Circuit.cycle, EStateM.run, hc]
  exact perform_cycle_of_ok hcircuit

/-- A cycle after a pause goes on from the values that the gates had before it. -/
theorem cycle_of_pause (hs : s.circuit.Sound) (hf : s.circuit.devices.floating = [])
    (hm : s.circuit.devices.IsMonotone) (hops : s.Pauses ops)
    (hc : ∀ g, (∀ d ∈ s.circuit.devices.devices, d.kind.isGate = true →
      g d.id = s.circuit.devices.gateValues d.id) →
      (s.run ops).2.circuit.devices.advance.Climbing b g) :
    ∃ passes ≤ s.circuit.devices.gateCount + 1, ∃ s',
      (s.run ops).2.perform .cycle = (.cycled passes, s') ∧
      s'.circuit.devices.wiring = s.circuit.devices.wiring ∧
      s'.circuit.devices.Nearest b s.circuit.devices.gateValues := by
  obtain ⟨⟨hw, hl⟩, hwiring, hvalues⟩ := pause hs hops
  have hkept : ∀ d ∈ s.circuit.devices.devices, d.kind.isGate = true →
      (s.run ops).2.circuit.devices.advance.gateValues d.id =
        s.circuit.devices.gateValues d.id := by
    intro d hd hg
    rw [← hvalues d hd hg]
    exact Registry.eq_of_wiring_eq hwiring.symm (fun d hd hg => Registry.gateValues_advance hw hd hg)
      d hd hg
  obtain ⟨passes, hle, r, hr, hwr, hnearest⟩ := Registry.cycle_of_climbing hw
    ((Registry.floating_of_wiring_eq hwiring).trans hf) hl (hm.of_wiring_eq hwiring) (hc _ hkept)
  refine ⟨passes, Registry.gateCount_of_wiring_eq hwiring ▸ hle, _, perform_cycle_eq hr,
    hwr.trans hwiring, hnearest.congr (Registry.eq_of_wiring_eq (hwr.trans hwiring) hkept)⟩

section monotone
variable (hs : s.Reachable) (hf : s.circuit.devices.floating = [])
  (hm : s.circuit.devices.IsMonotone)

include hs hf hm

theorem least_of_coldStart (hops : (s.perform .coldStart).2.Pauses ops) :
    ∃ passes ≤ s.circuit.devices.gateCount + 1, ∃ s',
      ((s.perform .coldStart).2.run ops).2.perform .cycle = (.cycled passes, s') ∧
      s'.circuit.devices.Consistent ∧ ∀ g, (s'.circuit.devices.setGates g).Consistent →
        s'.circuit.devices.GatesToward true s'.circuit.devices.gateValues g := by
  have hw := hs.sound.wellFormed
  have hcold : (s.perform .coldStart).2.circuit.devices.wiring = s.circuit.devices.wiring :=
    hw.wiring_coldStart
  have hs₀ : (s.perform .coldStart).2.circuit.Sound := sound_perform hs.sound rfl
  obtain ⟨hs₁, hwiring, -⟩ := pause hs₀ hops
  have hadvance := (Registry.wiring_advance hs₁.wellFormed).trans hwiring
  have hlow : ∀ d ∈ (s.perform .coldStart).2.circuit.devices.devices, d.kind.isGate = true →
      (s.perform .coldStart).2.circuit.devices.gateValues d.id = false :=
    fun d hd hg => Registry.gateValues_coldStart hw hd hg
  -- gates that are LOW can only rise, and every solution is above them
  obtain ⟨passes, hle, s', hcycle, hw', hnearest⟩ := cycle_of_pause (b := true) hs₀
    ((Registry.floating_of_wiring_eq hcold).trans hf) (hm.of_wiring_eq hcold) hops
    fun g hg d hd hgate => by
      have hgLow := Registry.eq_of_wiring_eq (g := fun _ => false) hadvance
        (fun d hd hgate => (hg d hd hgate).trans (hlow d hd hgate)) d hd hgate
      rw [hgLow]
      exact Toward.of_false _
  refine ⟨passes, Registry.gateCount_of_wiring_eq hcold ▸ hle, s', hcycle, hnearest.consistent,
    fun g hg => hnearest.nearest g hg fun d hd hgate => ?_⟩
  rw [Registry.eq_of_wiring_eq (g := fun _ => false) hw' hlow d hd hgate]
  exact Toward.of_false _

theorem nearest_of_cycle {p : Nat} {s₁ : Session} (hcycle : s.perform .cycle = (.cycled p, s₁))
    (hops : s₁.Pauses ops)
    (hsources : Registry.SourcesToward b s₁.circuit.devices
      (s₁.run ops).2.circuit.devices.advance) :
    ∃ passes ≤ s.circuit.devices.gateCount + 1, ∃ s',
      (s₁.run ops).2.perform .cycle = (.cycled passes, s') ∧
      s'.circuit.devices.Nearest b s₁.circuit.devices.gateValues := by
  have hwiring : s₁.circuit.devices.wiring = s.circuit.devices.wiring := by
    have hkept : (s.perform .cycle).2.circuit.devices.wiring = s.circuit.devices.wiring :=
      wiring_perform hs.sound rfl
    rwa [hcycle] at hkept
  have hs₁ : s₁.circuit.Sound := by
    have hkept : (s.perform .cycle).2.circuit.Sound := sound_perform hs.sound rfl
    rwa [hcycle] at hkept
  have hf₁ := (Registry.floating_of_wiring_eq hwiring).trans hf
  have hm₁ := hm.of_wiring_eq hwiring
  obtain ⟨hs₂, hw₂, -⟩ := pause hs₁ hops
  have hadvance := (Registry.wiring_advance hs₂.wellFormed).trans hw₂
  have hconsistent := (consistent_of_cycle hs).1 p s₁ hcycle
  obtain ⟨hstable, -⟩ := (Registry.consistent_iff hs₁.wellFormed hf₁).1 hconsistent
  obtain ⟨passes, hle, s', hcycle', -, hnearest⟩ := cycle_of_pause hs₁ hf₁ hm₁ hops fun g hg =>
    Registry.climbing_of_stable hs₁.wellFormed hm₁ hadvance hsources hstable hg
  exact ⟨passes, Registry.gateCount_of_wiring_eq hwiring ▸ hle, s', hcycle', hnearest⟩

end monotone

/-- In a circuit of sources, AND gates and OR gates, no loop keeps the gates from settling while the
sources move one way. The first cycle after a cold start leaves the least solution of the gate
equations, however switches were set before it. A later cycle leaves the solution that is nearest to
the values before it, if no output of a source has left `b`. Both take at most one pass more than
there are gates. -/
theorem monotone_settles (hs : s.Reachable) (hf : s.circuit.devices.floating = [])
    (hm : s.circuit.devices.IsMonotone) :
    (∀ ops, (s.perform .coldStart).2.Pauses ops →
      ∃ passes ≤ s.circuit.devices.gateCount + 1, ∃ s',
        ((s.perform .coldStart).2.run ops).2.perform .cycle = (.cycled passes, s') ∧
        s'.circuit.devices.Consistent ∧ ∀ g, (s'.circuit.devices.setGates g).Consistent →
          s'.circuit.devices.GatesToward true s'.circuit.devices.gateValues g) ∧
    ∀ p s₁, s.perform .cycle = (.cycled p, s₁) → ∀ ops, s₁.Pauses ops → ∀ b,
      Registry.SourcesToward b s₁.circuit.devices (s₁.run ops).2.circuit.devices.advance →
      ∃ passes ≤ s.circuit.devices.gateCount + 1, ∃ s',
        (s₁.run ops).2.perform .cycle = (.cycled passes, s') ∧
        s'.circuit.devices.Nearest b s₁.circuit.devices.gateValues :=
  ⟨fun _ hops => least_of_coldStart hs hf hm hops,
    fun _ _ hcycle _ hops _ hsources => nearest_of_cycle hs hf hm hcycle hops hsources⟩

/-- A loop of an OR and an AND gate: the first switch sets it, and the second holds it. -/
def heldLoop : List Operation :=
  [.create .and and (.ofString "2"), .create .or or (.ofString "2"),
    .create .switch set (.ofString "0"), .create .switch hold (.ofString "1"),
    .connect or none and Pin.i1, .connect hold none and Pin.i2, .connect set none or Pin.i1,
    .connect and none or Pin.i2]
where
  and : NameId := 22
  or : NameId := 23
  set : NameId := 24
  hold : NameId := 25

theorem monotone_settles_heldLoop :
    let set := Operation.setSwitch heldLoop.set
    let s := ((start {}).run (heldLoop ++ [set true])).2
    (∃ passes ≤ 3, ∃ s',
      ((s.perform .coldStart).2.run [set true]).2.perform .cycle = (.cycled passes, s') ∧
      s'.circuit.devices.Consistent) ∧
    ∃ passes ≤ 3, ∃ s',
      ((s.perform .cycle).2.run [set false]).2.perform .cycle = (.cycled passes, s') ∧
      s'.circuit.devices.Nearest false (s.perform .cycle).2.circuit.devices.gateValues := by
  intro set s
  have hs : s.Reachable := ⟨_, _, by decide, rfl⟩
  have hf : s.circuit.devices.floating = [] := by decide +kernel
  have hm : s.circuit.devices.IsMonotone := by
    unfold Registry.IsMonotone
    decide +kernel
  have hcount : s.circuit.devices.gateCount = 2 := by decide +kernel
  obtain ⟨hfirst, hlater⟩ := monotone_settles hs hf hm
  rw [hcount] at hfirst hlater
  constructor
  · obtain ⟨passes, hle, s', hcycle, hconsistent, -⟩ :=
      hfirst [set true] ⟨by decide, by decide +kernel⟩
    exact ⟨passes, hle, s', hcycle, hconsistent⟩
  · have hcycled : (s.perform .cycle).1 = .cycled 3 := by decide +kernel
    exact hlater 3 _ (by rw [← hcycled]) [set false] ⟨by decide, by decide +kernel⟩
      false (by decide +kernel)

end Session

end GateSim
