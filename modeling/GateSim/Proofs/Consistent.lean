import GateSim.Proofs.Cycle

/-!
# What a cycle leaves

In a well-formed registry without floating inputs all flip-flops can be clocked, and they change
together (`Registry.latchAll_eq`). There the only thing that can fail is settling, and what is left
after a cycle is consistent: a solution of all gate equations, in which each flip-flop shows its bit
(`Registry.phases_cases`).
-/

namespace GateSim

namespace Device
variable {pins : Pins} {d : Device}

theorem kind_of_dtype (h : d.WellFormed pins) {q lastClk : Signal}
    (hs : d.state = .dtype q lastClk) : d.kind = .dtype := by
  have hfits := h.fits
  rw [hs] at hfits
  cases hk : d.kind <;> rw [hk] at hfits <;> first | rfl | cases hfits

theorem exists_state_of_dtype (h : d.WellFormed pins) (hk : d.kind = .dtype) :
    ∃ q lastClk, d.state = .dtype q lastClk := by
  have hfits := h.fits
  rw [hk] at hfits
  cases hs : d.state <;> rw [hs] at hfits <;> first | exact ⟨_, _, rfl⟩ | cases hfits

end Device

namespace Registry
variable {r : Registry} {d : Device}

/-! ### Flip-flops -/

/-- The bit that a flip-flop latches: SET wins over CLEAR, and both over DATA, which counts when the
clock rises. -/
def nextBit (r : Registry) (d : Device) (q lastClk : Signal) : Signal :=
  let v := r.input r.gateValues d
  if v r.pins.set then true
  else if v r.pins.clear then false
  else if v r.pins.clk && !lastClk then v r.pins.data
  else q

def clockDevice (r : Registry) (d : Device) : Device :=
  match d.state with
  | .dtype q lastClk =>
    { d with
      state := .dtype (r.nextBit d q lastClk) (r.input r.gateValues d r.pins.clk)
      outputs := (d.outputs.put (some r.pins.q) (r.nextBit d q lastClk)).put (some r.pins.qbar)
        (!r.nextBit d q lastClk) }
  | _ => d

/-- All flip-flops clocked at once. -/
def clocked (r : Registry) : Registry := { r with devices := r.devices.map r.clockDevice }

def latches (r : Registry) (d : Device) : Bool :=
  match d.state with
  | .dtype q lastClk => q != r.nextBit d q lastClk
  | _ => false

theorem read_of_mem (h : r.WellFormed) (hf : r.floating = []) (hd : d ∈ r.devices)
    (hg : d.kind.isGate = false) {pin : NameId} (hp : pin ∈ d.state.inputPins r.pins) :
    r.read d pin = .ok (r.input r.gateValues d pin) := by
  have := read_eq_ok (f := r.gateValues) h hf hd hp
  rwa [setGates_gateValues h, Device.setGate_of_not_isGate hg] at this

theorem isGate_of_dtype (h : r.WellFormed) (hd : d ∈ r.devices) {q lastClk : Signal}
    (hs : d.state = .dtype q lastClk) : d.kind.isGate = false := by
  rw [Device.kind_of_dtype (h.devices d hd) hs]
  rfl

theorem latch_eq (h : r.WellFormed) (hf : r.floating = []) (hd : d ∈ r.devices) :
    r.latch d = .ok (r.clockDevice d, r.latches d) := by
  unfold latch clockDevice latches
  cases hs : d.state with
  | dtype q lastClk =>
    have hread : ∀ pin ∈ r.pins.flipFlopInputs, r.read d pin = .ok (r.input r.gateValues d pin) :=
      fun pin hp => read_of_mem h hf hd (isGate_of_dtype h hd hs) (by rw [hs]; exact hp)
    simp only [Pins.flipFlopInputs, List.forall_mem_cons] at hread
    obtain ⟨hdata, hclk, hset, hclear, -⟩ := hread
    have hsample : r.sample d q lastClk =
        .ok (r.nextBit d q lastClk, r.input r.gateValues d r.pins.clk) := by
      simp only [sample, hdata, hclk, hset, hclear, nextBit, bind, Except.bind, pure, Except.pure]
      split
      · rfl
      · split
        · rfl
        · split <;> rfl
    simp only [hsample, bind, Except.bind]
    rfl
  | _ => rfl

theorem latchAll_eq (h : r.WellFormed) (hf : r.floating = []) :
    latchAll r = .ok (r.devices.any r.latches) r.clocked := by
  have hmap : r.devices.mapM r.latch = .ok (r.devices.map fun d => (r.clockDevice d, r.latches d)) :=
    mapM_eq_ok fun d hd => latch_eq h hf hd
  rw [latchAll, Change.bind_ok (Change.ofRead_ok hmap)]
  show EStateM.Result.ok _ _ = _
  simp only [List.map_map, List.any_map, clocked]
  rfl

theorem wiring_clockDevice (h : r.WellFormed) (hd : d ∈ r.devices) :
    (r.clockDevice d).wiring = d.wiring := by
  have hw := h.devices d hd
  unfold clockDevice
  cases hs : d.state with
  | dtype q lastClk =>
    have hkey : ∀ pin ∈ [some r.pins.q, some r.pins.qbar], pin ∈ d.outputs.keys := by
      intro pin hp
      rw [hw.mem_outputs, hs]
      exact hp
    have hq := hw.outputs.keys_put (a := r.nextBit d q lastClk) (hkey (some r.pins.q) (by simp))
    have hqbar := (hw.outputs.put (some r.pins.q) (r.nextBit d q lastClk)).keys_put
      (a := !r.nextBit d q lastClk) (hq ▸ hkey (some r.pins.qbar) (by simp))
    exact Device.wiring_eq_iff.2 ⟨rfl, rfl, rfl, hqbar.trans hq, by rw [hs]; rfl⟩
  | _ => rfl

theorem wiring_clocked (h : r.WellFormed) : r.clocked.wiring = r.wiring :=
  wiring_map fun _ hd => wiring_clockDevice h hd

theorem latched_clocked (h : r.WellFormed) : r.clocked.Latched := by
  intro d' hd'
  obtain ⟨d, hd, rfl⟩ := List.mem_map.1 hd'
  intro q lastClk hs
  unfold clockDevice at hs ⊢
  cases hd : d.state with
  | dtype q' lastClk' =>
    simp only [hd, State.dtype.injEq] at hs ⊢
    obtain ⟨rfl, rfl⟩ := hs
    have hne : ((some r.pins.q : OutputPin) == some r.pins.qbar) = false := by
      simpa using h.pins.outputs
    show PinMap.get? _ (some r.pins.q) = _ ∧ PinMap.get? _ (some r.pins.qbar) = _
    rw [PinMap.get?_put, PinMap.get?_put, PinMap.get?_put, hne]
    simp
  | _ => simp [hd] at hs

/-! ### Consistency -/

/-- Every gate has the value of its Boolean function on the values that its sources have, and every
flip-flop shows its latched bit and the complement. -/
structure Consistent (r : Registry) : Prop where
  gates : ∀ d ∈ r.devices, d.kind.isGate = true → ∃ vs,
    d.inputs.map (fun e => e.2.bind fun s => r.output? s.device s.pin) = vs.map some ∧
      d.outputs.get? none = some (d.kind.function vs)
  flipFlops : ∀ d ∈ r.devices, d.kind = .dtype → ∃ q lastClk, d.state = .dtype q lastClk ∧
    d.outputs.get? (some r.pins.q) = some q ∧ d.outputs.get? (some r.pins.qbar) = some (!q)

theorem inputs_eq (h : r.WellFormed) (hf : r.floating = []) (hd : d ∈ r.devices) :
    d.inputs.map (fun e => e.2.bind fun s => r.output? s.device s.pin) =
      (d.inputs.map fun e => (e.2.map (r.value r.gateValues)).getD false).map some := by
  rw [List.map_map]
  refine List.map_congr_left fun e he => ?_
  obtain ⟨pin, s⟩ := e
  cases s with
  | none => exact absurd rfl (floating_eq_nil_iff.1 hf d hd _ he)
  | some s =>
    have hout := h.sources d hd pin s ((h.devices d hd).inputs.get?_of_mem he)
    have := output?_setGates (f := r.gateValues) h hout
    rwa [setGates_gateValues h] at this

theorem outputs_get?_none (h : r.WellFormed) (hd : d ∈ r.devices) (hg : d.kind.isGate = true) :
    d.outputs.get? none = some (r.gateValues d.id) := by
  obtain ⟨v, hv⟩ := Device.outputs_of_isGate (h.devices d hd) hg
  rw [gateValues_of_mem h hd, Device.value, hv]
  rfl

theorem Consistent.latched (h : r.WellFormed) (hc : r.Consistent) : r.Latched := by
  intro d hd q lastClk hs
  have hk := Device.kind_of_dtype (h.devices d hd) hs
  obtain ⟨q', lastClk', hs', hq⟩ := hc.flipFlops d hd hk
  cases hs.symm.trans hs'
  exact hq

theorem consistent_iff (h : r.WellFormed) (hf : r.floating = []) :
    r.Consistent ↔ r.Stable r.gateValues ∧ r.Latched := by
  constructor
  · intro hc
    refine ⟨fun d hd hg => ?_, hc.latched h⟩
    obtain ⟨vs, hvs, hout⟩ := hc.gates d hd hg
    rw [inputs_eq h hf hd] at hvs
    have heq := (List.map_inj_right fun _ _ => Option.some.inj).1 hvs
    rw [outputs_get?_none h hd hg] at hout
    rw [next, heq]
    exact Option.some.inj hout
  · rintro ⟨hstable, hlatched⟩
    refine ⟨fun d hd hg => ⟨_, inputs_eq h hf hd, ?_⟩, fun d hd hk => ?_⟩
    · rw [outputs_get?_none h hd hg, hstable d hd hg, next]
    · obtain ⟨q, lastClk, hs⟩ := Device.exists_state_of_dtype (h.devices d hd) hk
      exact ⟨q, lastClk, hs, hlatched d hd q lastClk hs⟩

/-! ### Stability under given gate values -/

theorem value_setGates (h : r.WellFormed) (f g : Valuation) {s : Source}
    (hs : ∃ d ∈ r.devices, d.id = s.device ∧ s.pin ∈ d.outputs.keys) :
    (r.setGates f).value g s = r.value g s := by
  have hout := output?_setGates (f := f) h hs
  rw [value, value, isGate_of_wiring_eq h (wiring_setGates h f), hout]
  split
  · rfl
  · next hg => rw [value, if_neg hg]; rfl

theorem next_setGates (h : r.WellFormed) (f g : Valuation) (hd : d ∈ r.devices) :
    (r.setGates f).next g (d.setGate f) = r.next g d := by
  unfold next
  rw [Device.kind_setGate, Device.inputs_setGate]
  congr 1
  refine List.map_congr_left fun e he => ?_
  obtain ⟨pin, s⟩ := e
  cases s with
  | none => rfl
  | some s =>
    exact value_setGates h f g (h.sources d hd pin s ((h.devices d hd).inputs.get?_of_mem he))

theorem stable_setGates (h : r.WellFormed) {f g : Valuation} :
    (r.setGates f).Stable g ↔ r.Stable g := by
  constructor
  · intro hs d hd hg
    have := hs (d.setGate f) (List.mem_map_of_mem hd) (by simpa using hg)
    rwa [Device.id_setGate, next_setGates h f g hd] at this
  · intro hs d' hd' hg
    obtain ⟨d, hd, rfl⟩ := List.mem_map.1 hd'
    rw [Device.id_setGate, next_setGates h f g hd]
    exact hs d hd (by simpa using hg)

/-- The gates of a registry with given gate values are consistent if the values are stable. -/
theorem stable_gateValues_setGates (h : r.WellFormed) {f : Valuation} :
    (r.setGates f).Stable (r.setGates f).gateValues ↔ r.Stable f := by
  rw [stable_setGates h]
  exact stable_congr h fun d hd hg => gateValues_setGates h hd hg

theorem latched_setGates (h : r.WellFormed) (hl : r.Latched) (f : Valuation) :
    (r.setGates f).Latched := by
  intro d' hd'
  obtain ⟨d, hd, rfl⟩ := List.mem_map.1 hd'
  intro q lastClk hs
  rw [Device.state_setGate] at hs
  rw [Device.setGate_of_not_isGate (isGate_of_dtype h hd hs)]
  exact hl d hd q lastClk hs

/-- Gate values make a registry consistent exactly if they solve the gate equations. -/
theorem consistent_setGates_iff (h : r.WellFormed) (hf : r.floating = []) (hl : r.Latched)
    {f : Valuation} : (r.setGates f).Consistent ↔ r.Stable f := by
  have hw := wiring_setGates h f
  rw [consistent_iff (h.setGates f) ((floating_of_wiring_eq hw).trans hf),
    stable_gateValues_setGates h]
  exact and_iff_left (latched_setGates h hl f)

/-! ### Clocking that latches nothing new -/

/-- A flip-flop that keeps its bit keeps its outputs, though it may have sampled another clock. -/
theorem outputs_clockDevice (h : r.WellFormed) (hl : d.Latched r.pins) (hd : d ∈ r.devices)
    (hb : r.latches d = false) : (r.clockDevice d).outputs = d.outputs := by
  unfold latches at hb
  unfold clockDevice
  cases hs : d.state with
  | dtype q lastClk =>
    simp only [hs, bne_eq_false_iff_eq] at hb ⊢
    obtain ⟨hq, hqbar⟩ := hl q lastClk hs
    rw [← hb, (h.devices d hd).outputs.put_eq_self hq, (h.devices d hd).outputs.put_eq_self hqbar]
  | _ => rfl

theorem output?_map {f : Device → Device} (hout : ∀ d ∈ r.devices, (f d).outputs = d.outputs)
    (id : NameId) (pin : OutputPin) :
    output? { r with devices := r.devices.map f } id pin = r.output? id pin := by
  show ((r.places.lookup id).bind ((r.devices.map f)[·]?)).bind _ =
    ((r.places.lookup id).bind (r.devices[·]?)).bind _
  cases r.places.lookup id with
  | none => rfl
  | some i =>
    simp only [Option.bind_some, List.getElem?_map]
    cases hi : r.devices[i]? with
    | none => rfl
    | some d => simp only [Option.map_some, Option.bind_some, hout d (List.mem_of_getElem? hi)]

theorem output?_clocked (h : r.WellFormed) (hl : r.Latched)
    (hb : r.devices.any r.latches = false) (id : NameId) (pin : OutputPin) :
    r.clocked.output? id pin = r.output? id pin := by
  refine output?_map (fun d hd => outputs_clockDevice h (hl d hd) hd ?_) id pin
  simpa using List.any_eq_false.1 hb d hd

theorem clockDevice_eq (r : Registry) (d : Device) :
    (r.clockDevice d).id = d.id ∧ (r.clockDevice d).kind = d.kind ∧
      (r.clockDevice d).inputs = d.inputs := by
  unfold clockDevice
  split <;> exact ⟨rfl, rfl, rfl⟩

/-- The gates need not settle again if no flip-flop has latched another bit. -/
theorem stable_clocked (h : r.WellFormed) (hl : r.Latched)
    (hb : r.devices.any r.latches = false) (hs : r.Stable r.gateValues) :
    r.clocked.Stable r.clocked.gateValues := by
  have hout := output?_clocked h hl hb
  have hvalues : r.clocked.gateValues = r.gateValues := funext fun id => by
    rw [gateValues, gateValues, hout]
  have hvalue : ∀ f s, r.clocked.value f s = r.value f s := by
    intro f s
    rw [value, value, isGate_of_wiring_eq h (wiring_clocked h), hout]
  rw [hvalues]
  intro d' hd' hg
  obtain ⟨d, hd, rfl⟩ := List.mem_map.1 hd'
  obtain ⟨hid, hkind, hin⟩ := clockDevice_eq r d
  rw [hkind] at hg
  rw [hid, hs d hd hg, next, next, hkind, hin]
  simp only [show r.clocked.value r.gateValues = r.value r.gateValues from funext (hvalue _)]

/-- Without flip-flops there is nothing to clock. -/
theorem clocked_eq_self (h : r.WellFormed) (hn : ∀ d ∈ r.devices, d.kind ≠ .dtype) :
    r.clocked = r ∧ r.devices.any r.latches = false := by
  have hclock : ∀ d ∈ r.devices, r.clockDevice d = d ∧ r.latches d = false := by
    intro d hd
    unfold clockDevice latches
    cases hs : d.state with
    | dtype q lastClk => exact absurd (Device.kind_of_dtype (h.devices d hd) hs) (hn d hd)
    | _ => exact ⟨rfl, rfl⟩
  constructor
  · rw [clocked, List.map_congr_left fun d hd => (hclock d hd).1, List.map_id']
  · rw [List.any_eq_false]
    exact fun d hd => by simp [hclock d hd]

/-! ### The phases of a cycle -/

theorem wiring_advance (h : r.WellFormed) : r.advance.wiring = r.wiring :=
  wiring_map fun d hd => Device.wiring_advance (h.devices d hd)

theorem latched_advance (hl : r.Latched) : r.advance.Latched := by
  intro d' hd'
  obtain ⟨d, hd, rfl⟩ := List.mem_map.1 hd'
  exact (hl d hd).advance

theorem settleLimit_of_wiring_eq {r' : Registry} (h : r'.wiring = r.wiring) :
    r'.settleLimit = r.settleLimit := by
  rw [settleLimit, settleLimit, size_eq_of_wiring_eq h]

/-- Settling ends with a solution of the gate equations, or it gives up. -/
theorem settle_cases (h : r.WellFormed) (hf : r.floating = []) :
    (∃ passes f, r.Stable f ∧ settle r = .ok passes (r.setGates f)) ∨
      ∃ r', settle r = .error (.oscillation r.settleLimit) r' := by
  rcases settle_eq h hf with ⟨k, -, hs, -, heq⟩ | ⟨-, heq⟩
  · exact Or.inl ⟨_, _, hs, heq⟩
  · exact Or.inr ⟨_, heq⟩

theorem phases_of_settle_error {r' : Registry} {f : RunFault}
    (hs : settle r.advance = .error f r') : phases r = .error f r' := by
  rw [phases, Change.bind_ok (x := modify advance) rfl, Change.bind_error hs]

theorem phases_eq {r₁ : Registry} {passes : Nat} (hs : settle r.advance = .ok passes r₁)
    (h : r₁.WellFormed) (hf : r₁.floating = []) :
    phases r = if r₁.devices.any r₁.latches then
        (settle >>= fun more => pure (passes + more)) r₁.clocked
      else .ok passes r₁.clocked := by
  rw [phases, Change.bind_ok (x := modify advance) rfl, Change.bind_ok hs,
    Change.bind_ok (latchAll_eq h hf)]
  split <;> rfl

/-- The phases leave a consistent registry, or the gates do not settle. -/
theorem phases_cases (h : r.WellFormed) (hf : r.floating = []) (hl : r.Latched) :
    (∃ passes r', phases r = .ok passes r' ∧ r'.wiring = r.wiring ∧ r'.Consistent) ∨
      ∃ r', phases r = .error (.oscillation r.settleLimit) r' := by
  have hwa := wiring_advance h
  have ha := h.of_wiring_eq hwa
  have hfa : r.advance.floating = [] := (floating_of_wiring_eq hwa).trans hf
  rcases settle_cases ha hfa with ⟨passes, f, hstable, hsettle⟩ | ⟨r', hsettle⟩
  case inr =>
    refine Or.inr ⟨r', ?_⟩
    rw [phases_of_settle_error hsettle, settleLimit_of_wiring_eq hwa]
  -- the first settling went well, so the flip-flops are clocked
  have hw₁ : (r.advance.setGates f).wiring = r.wiring := (wiring_setGates ha f).trans hwa
  have h₁ := h.of_wiring_eq hw₁
  have hf₁ : (r.advance.setGates f).floating = [] := (floating_of_wiring_eq hw₁).trans hf
  have hl₁ := latched_setGates ha (latched_advance hl) f
  have hw₂ := (wiring_clocked h₁).trans hw₁
  have h₂ := h.of_wiring_eq hw₂
  have hf₂ : (r.advance.setGates f).clocked.floating = [] := (floating_of_wiring_eq hw₂).trans hf
  have hl₂ := latched_clocked h₁
  rw [phases_eq hsettle h₁ hf₁]
  split
  · rcases settle_cases h₂ hf₂ with ⟨more, g, hstable', hsettle'⟩ | ⟨r', hsettle'⟩
    · have hw₃ := (wiring_setGates h₂ g).trans hw₂
      have hcons := (consistent_setGates_iff h₂ hf₂ hl₂).2 hstable'
      exact Or.inl ⟨passes + more, _, Change.bind_ok hsettle', hw₃, hcons⟩
    · refine Or.inr ⟨r', ?_⟩
      rw [Change.bind_error hsettle', settleLimit_of_wiring_eq hw₂]
  · next hb =>
    refine Or.inl ⟨passes, _, rfl, hw₂, (consistent_iff h₂ hf₂).2 ⟨?_, hl₂⟩⟩
    exact stable_clocked h₁ hl₁ (by simpa using hb) ((stable_gateValues_setGates ha).2 hstable)

/-- A cycle that succeeds leaves a consistent registry. -/
theorem consistent_cycle {r' : Registry} {passes : Nat} (h : r.WellFormed) (hl : r.Latched)
    (hc : cycle r = .ok passes r') : r'.wiring = r.wiring ∧ r'.Consistent := by
  cases hf : r.floating with
  | cons e l =>
    rw [cycle_of_floating hf] at hc
    cases hc
  | nil =>
    rw [cycle_eq hf] at hc
    rcases phases_cases h hf hl with ⟨passes', r₁, hp, hw, hcons⟩ | ⟨r₁, hp⟩
    · rw [hp] at hc
      cases hc
      exact ⟨hw, hcons⟩
    · rw [hp] at hc
      cases hc

/-- Gate equations without a solution make the cycle fail. -/
theorem cycle_of_no_solution (h : r.WellFormed) (hf : r.floating = []) (hl : r.Latched)
    (hnone : ∀ f, ¬ (r.advance.setGates f).Consistent) :
    cycle r = .error (.oscillation r.settleLimit) r := by
  have hwa := wiring_advance h
  have ha := h.of_wiring_eq hwa
  have hfa : r.advance.floating = [] := (floating_of_wiring_eq hwa).trans hf
  rcases settle_cases ha hfa with ⟨passes, f, hstable, -⟩ | ⟨r', hsettle⟩
  · exact absurd ((consistent_setGates_iff ha hfa (latched_advance hl)).2 hstable) (hnone f)
  · rw [← settleLimit_of_wiring_eq hwa]
    exact cycle_of_phases_error hf (phases_of_settle_error hsettle)

end Registry

end GateSim
