import GateSim.Proofs.Consistent

/-!
# The phases of a cycle, one after the other

A cycle leaves out the second settling if no flip-flop has latched another bit. The gates would
settle at once then, so a cycle always leaves what it leaves when it settles twice
(`Registry.cycle_ok_iff`). What the phases do to the devices can be read off this, one phase after
the other (`Registry.exists_of_cycle`).
-/

namespace GateSim.Registry
variable {r r' : Registry} {passes : Nat}

/-- Settling ends with the gates at a solution of their equations, and leaves all else alone. -/
theorem exists_of_settle (h : r.WellFormed) (hf : r.floating = [])
    (hs : settle r = .ok passes r') : ∃ f, r.Stable f ∧ r' = r.setGates f := by
  rcases settle_cases h hf with ⟨passes', f, hstable, heq⟩ | ⟨r₁, heq⟩
  · rw [heq] at hs
    cases hs
    exact ⟨f, hstable, rfl⟩
  · rw [heq] at hs
    cases hs

/-- Gates that solve their equations settle at once. -/
theorem settle_of_stable (h : r.WellFormed) (hf : r.floating = []) (hs : r.Stable r.gateValues) :
    settle r = .ok 1 r := by
  rcases settle_eq h hf with ⟨k, -, -, hfirst, heq⟩ | ⟨hnone, -⟩
  · have hk : k = 0 := by
      by_contra hk
      exact hfirst 0 (by omega) hs
    subst hk
    rw [heq]
    show EStateM.Result.ok 1 (r.setGates r.gateValues) = _
    rw [setGates_gateValues h]
  · exact absurd hs (hnone 0 (by rw [settleLimit]; omega))

theorem floating_advance (h : r.WellFormed) (hf : r.floating = []) : r.advance.floating = [] :=
  (floating_of_wiring_eq (wiring_advance h)).trans hf

theorem floating_clocked (h : r.WellFormed) (hf : r.floating = []) : r.clocked.floating = [] :=
  (floating_of_wiring_eq (wiring_clocked h)).trans hf

theorem wiring_settle (h : r.WellFormed) (hf : r.floating = []) (hs : settle r = .ok passes r') :
    r'.wiring = r.wiring := by
  obtain ⟨f, -, rfl⟩ := exists_of_settle h hf hs
  exact wiring_setGates h f

/-- What can be said of the devices once they have settled. -/
structure Settled (r : Registry) : Prop where
  wellFormed : r.WellFormed
  floating : r.floating = []
  latched : r.Latched
  stable : r.Stable r.gateValues

theorem settled_of_settle (h : r.WellFormed) (hf : r.floating = []) (hl : r.Latched)
    (hs : settle r = .ok passes r') : r'.Settled := by
  obtain ⟨f, hstable, rfl⟩ := exists_of_settle h hf hs
  refine ⟨h.setGates f, (floating_of_wiring_eq (wiring_setGates h f)).trans hf,
    latched_setGates h hl f, (stable_gateValues_setGates h).2 hstable⟩

/-- A cycle succeeds exactly if the gates settle after the sources have taken their step and again
after the flip-flops are clocked. That it may leave out the second settling makes no difference. -/
theorem cycle_ok_iff (h : r.WellFormed) (hf : r.floating = []) (hl : r.Latched) :
    (∃ passes, cycle r = .ok passes r') ↔
      ∃ p r₁, settle r.advance = .ok p r₁ ∧ ∃ q, settle r₁.clocked = .ok q r' := by
  have ha := h.of_wiring_eq (wiring_advance h)
  have hfa := floating_advance h hf
  rw [cycle_eq hf]
  cases hs : settle r.advance with
  | error f r₁ => simp [phases_of_settle_error hs]
  | ok p r₁ =>
    obtain ⟨hw₁, hf₁, hl₁, hstable⟩ := settled_of_settle ha hfa (latched_advance hl) hs
    simp only [EStateM.Result.ok.injEq, and_assoc, exists_and_left, exists_eq_left']
    rw [phases_eq hs hw₁ hf₁]
    by_cases hb : r₁.devices.any r₁.latches = true
    · rw [if_pos hb]
      cases hq : settle r₁.clocked with
      | error f r₂ => simp [Change.bind_error hq]
      | ok q r₂ => simp [Change.bind_ok hq, pure, EStateM.pure]
    · -- the gates have settled already, and would settle again at once
      rw [if_neg hb]
      have hagain := settle_of_stable (hw₁.of_wiring_eq (wiring_clocked hw₁))
        (floating_clocked hw₁ hf₁) (stable_clocked hw₁ hl₁ (by simpa using hb) hstable)
      simp [hagain]

/-- A cycle does not succeed if an input floats. -/
theorem floating_of_cycle (hc : cycle r = .ok passes r') : r.floating = [] := by
  cases hf : r.floating with
  | nil => rfl
  | cons e l =>
    rw [cycle_of_floating hf] at hc
    cases hc

/-- What is left after a cycle: the sources have taken their step, the flip-flops were clocked, and
the gates were given values before and after. They had settled when the flip-flops were clocked. -/
theorem exists_of_cycle (h : r.WellFormed) (hl : r.Latched) (hc : cycle r = .ok passes r') :
    ∃ p r₁, settle r.advance = .ok p r₁ ∧ r₁.Settled ∧ (∃ f, r₁ = r.advance.setGates f) ∧
      ∃ g, r' = r₁.clocked.setGates g := by
  have hf := floating_of_cycle hc
  obtain ⟨p, r₁, h₁, q, h₂⟩ := (cycle_ok_iff h hf hl).1 ⟨passes, hc⟩
  have ha := h.of_wiring_eq (wiring_advance h)
  have hfa := floating_advance h hf
  have hsettled := settled_of_settle ha hfa (latched_advance hl) h₁
  have hclocked := hsettled.wellFormed.of_wiring_eq (wiring_clocked hsettled.wellFormed)
  obtain ⟨f, -, hgates⟩ := exists_of_settle ha hfa h₁
  obtain ⟨g, -, hgates'⟩ := exists_of_settle hclocked
    (floating_clocked hsettled.wellFormed hsettled.floating) h₂
  exact ⟨p, r₁, h₁, hsettled, ⟨f, hgates⟩, ⟨g, hgates'⟩⟩

/-- A cycle fails at an input that floats, or since the gates do not settle. -/
theorem fault_of_cycle (h : r.WellFormed) (hl : r.Latched) {r' : Registry} {f : RunFault}
    (hc : cycle r = .error f r') :
    (∃ d ∈ r.devices, ∃ pin ∈ d.inputs.keys, f = .floating d.id pin) ∨
      f = .oscillation r.settleLimit := by
  cases hf : r.floating with
  | cons e l =>
    rw [cycle_of_floating hf] at hc
    cases hc
    have he : e ∈ r.floating := hf ▸ List.mem_cons_self ..
    obtain ⟨d, hd, he⟩ := List.mem_flatMap.1 he
    obtain ⟨pin, hpin, rfl⟩ := List.mem_map.1 he
    obtain ⟨⟨pin', source⟩, hentry, heq⟩ := List.mem_filterMap.1 hpin
    dsimp only at heq
    split at heq <;> cases heq
    exact Or.inl ⟨d, hd, pin, List.mem_map_of_mem hentry, rfl⟩
  | nil =>
    rcases phases_cases h hf hl with ⟨passes, r₁, hp, -⟩ | ⟨r₁, hp⟩ <;> rw [cycle_eq hf, hp] at hc
    · cases hc
    · cases hc
      exact Or.inr rfl

end GateSim.Registry
