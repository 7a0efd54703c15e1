import Mathlib.Order.Bounds.Defs
import GateSim.Proofs.Parts

/-!
# How many passes settling makes

Settling stops as soon as a pass reports no change, and it is each gate that reports one. A gate is
evaluated once in a pass, so it cannot change and change back: a pass reports a change exactly if the
devices after it are others than before (`Registry.pass_eq`). Settling therefore stops at the first
two iterates of a pass that are equal, if they come early enough (`Session.settle_exact`).
-/

namespace GateSim

namespace Registry
variable {r r' : Registry} {f g : Valuation} {d : Device}

/-- The device at a place is evaluated, if it is a gate, from the values that its inputs have now. -/
def refresh (r : Registry) (i : Nat) : Registry :=
  match r.devices[i]? with
  | some d =>
    if d.kind.isGate then
      { r with devices := r.devices.set i (d.putOutput none (r.next r.gateValues d)) }
    else r
  | none => r

/-- The gates are evaluated in place, one after the other, in the order in which they were made. -/
def afterPass (r : Registry) : Registry := (List.range r.size).foldl refresh r

/-! ### Passes in place and passes over values -/

theorem refresh_setGates (h : r.WellFormed) (i : Nat) (f : Valuation) :
    (r.setGates f).refresh i = r.setGates (r.turn i f) := by
  have hi : (r.setGates f).devices[i]? = r.devices[i]?.map (Device.setGate f) := List.getElem?_map
  cases hd : r.devices[i]? with
  | none => simp only [refresh, turn, hi, hd, Option.map_none]
  | some d =>
    have hmem := List.mem_of_getElem? hd
    by_cases hg : d.kind.isGate = true
    · have hnext : (r.setGates f).next (r.setGates f).gateValues (d.setGate f) = r.next f d := by
        rw [next_setGates h f _ hmem]
        exact next_congr h fun d' hd' hg' => gateValues_setGates h hd' hg'
      simp only [refresh, turn, hi, hd, hg, Option.map_some, Device.kind_setGate, if_true, hnext]
      exact congrArg (fun devices => { r with devices }) (set_putOutput h hd hg _)
    · simp only [refresh, turn, hi, hd, hg, Option.map_some, Device.kind_setGate]
      rfl

theorem afterPass_setGates (h : r.WellFormed) (f : Valuation) :
    (r.setGates f).afterPass = r.setGates (r.passed f) := by
  have hfold : ∀ n, (List.range n).foldl refresh (r.setGates f) = r.setGates (r.turns n f) := by
    intro n
    induction n with
    | zero => rfl
    | succ n ih =>
      rw [List.range_succ, List.foldl_append, ih]
      exact refresh_setGates h n _
  rw [afterPass, size_setGates, hfold, passed]

theorem iterate_afterPass (h : r.WellFormed) (k : Nat) :
    afterPass^[k] r = r.setGates (r.passed^[k] r.gateValues) := by
  induction k with
  | zero => exact (setGates_gateValues h).symm
  | succ k ih =>
    rw [Function.iterate_succ_apply', ih, afterPass_setGates h, Function.iterate_succ_apply']

/-- After its turn, a gate is left alone for the rest of the pass. -/
theorem turns_of_lt (h : r.WellFormed) {j m n : Nat} (hd : r.devices[j]? = some d) (hjm : j < m)
    (hmn : m ≤ n) : r.turns n f d.id = r.turns m f d.id := by
  induction n, hmn using Nat.le_induction with
  | base => rfl
  | succ n hmn ih => rw [turns, turn_of_ne h hd (by omega), ih]

/-- If a pass leaves no gate with another value, then each turn of it did nothing. -/
theorem stable_of_passed (h : r.WellFormed)
    (hf : ∀ d ∈ r.devices, d.kind.isGate = true → r.passed f d.id = f d.id) : r.Stable f := by
  have hturns : ∀ n ≤ r.size, r.turns n f = f := by
    intro n hn
    induction n with
    | zero => rfl
    | succ n ih =>
      have hlast : r.turns (n + 1) f = r.turn n f := by rw [turns, ih (by omega)]
      rw [hlast, turn_eq_self_iff]
      intro d hd hg
      have hmem := List.mem_of_getElem? hd
      calc f d.id = r.passed f d.id := (hf d hmem hg).symm
        _ = r.turns (n + 1) f d.id := turns_of_lt h hd (Nat.lt_succ_self n) hn
        _ = r.next f d := by simp only [hlast, turn, hd, hg, if_true, Function.update_self]
  rw [stable_iff]
  intro i hi
  have := hturns (i + 1) hi
  rwa [turns, hturns i (Nat.le_of_lt hi)] at this

theorem afterPass_setGates_eq_iff (h : r.WellFormed) :
    (r.setGates f).afterPass = r.setGates f ↔ r.Stable f := by
  rw [afterPass_setGates h]
  constructor
  · intro heq
    refine stable_of_passed h fun d hd hg => ?_
    rw [← gateValues_setGates (f := r.passed f) h hd hg, heq, gateValues_setGates h hd hg]
  · exact fun hs => by rw [hs.passed_eq]

/-- A pass reports a change exactly if there is one. -/
theorem pass_eq (h : r.WellFormed) (hf : r.floating = []) :
    pass r = .ok (decide (r.afterPass ≠ r)) r.afterPass := by
  obtain ⟨b, hpass, hb⟩ := pass_setGates h hf r.gateValues
  have hafter := afterPass_setGates h r.gateValues
  have hstable := afterPass_setGates_eq_iff (f := r.gateValues) h
  rw [setGates_gateValues h] at hpass hafter hstable
  have hflag : b = decide (r.afterPass ≠ r) := by
    rw [Bool.eq_iff_iff, decide_eq_true_iff, ne_eq, hstable, ← hb, Bool.not_eq_false]
  rw [hpass, ← hafter, hflag]

/-! ### Settling -/

/-- Two passes one after the other leave the same devices exactly if the first of them has left the
gates stable. -/
theorem iterate_afterPass_succ_eq_iff (h : r.WellFormed) (k : Nat) :
    afterPass^[k + 1] r = afterPass^[k] r ↔ r.Stable (r.passed^[k] r.gateValues) := by
  rw [Function.iterate_succ_apply', iterate_afterPass h]
  exact afterPass_setGates_eq_iff h

/-- The numbers of passes of which the last one has changed nothing. -/
def quietPasses (r : Registry) : Set Nat := {k | 0 < k ∧ afterPass^[k] r = afterPass^[k - 1] r}

theorem succ_mem_quietPasses (h : r.WellFormed) {k : Nat} :
    k + 1 ∈ r.quietPasses ↔ r.Stable (r.passed^[k] r.gateValues) :=
  (and_iff_right (Nat.succ_pos k)).trans (iterate_afterPass_succ_eq_iff h k)

theorem exists_of_mem_quietPasses {k : Nat} (hk : k ∈ r.quietPasses) : ∃ j, k = j + 1 :=
  ⟨k - 1, (Nat.succ_pred_eq_of_pos hk.1).symm⟩

theorem isLeast_quietPasses_iff (h : r.WellFormed) {k : Nat} :
    IsLeast r.quietPasses (k + 1) ↔ r.Stable (r.passed^[k] r.gateValues) ∧
      ∀ j < k, ¬ r.Stable (r.passed^[j] r.gateValues) := by
  refine and_congr (succ_mem_quietPasses h) ⟨fun hleast j hj hs => ?_, fun hfirst m hm => ?_⟩
  · have := hleast ((succ_mem_quietPasses h).2 hs)
    omega
  · obtain ⟨j, rfl⟩ := exists_of_mem_quietPasses hm
    by_contra hlt
    exact hfirst j (by omega) ((succ_mem_quietPasses h).1 hm)

/-- Settling ends with the first pass that changes nothing, or gives up at the limit. -/
theorem settle_quiet (h : r.WellFormed) (hf : r.floating = []) :
    (∃ k, IsLeast r.quietPasses k ∧ k ≤ r.settleLimit ∧ settle r = .ok k (afterPass^[k] r)) ∨
    ((∀ k ≤ r.settleLimit, k ∉ r.quietPasses) ∧
      settle r = .error (.oscillation r.settleLimit) (afterPass^[r.settleLimit] r)) := by
  rcases settle_eq h hf with ⟨k, hk, hs, hfirst, heq⟩ | ⟨hnone, heq⟩
  · refine Or.inl ⟨k + 1, (isLeast_quietPasses_iff h).2 ⟨hs, hfirst⟩, hk, ?_⟩
    rw [heq, (iterate_afterPass_succ_eq_iff h k).2 hs, iterate_afterPass h]
  · refine Or.inr ⟨fun k hk hmem => ?_, by rw [heq, iterate_afterPass h]⟩
    obtain ⟨j, rfl⟩ := exists_of_mem_quietPasses hmem
    exact hnone j hk ((succ_mem_quietPasses h).1 hmem)

theorem settle_eq_ok_iff (h : r.WellFormed) (hf : r.floating = []) {k : Nat} :
    settle r = .ok k r' ↔
      IsLeast r.quietPasses k ∧ k ≤ r.settleLimit ∧ r' = afterPass^[k] r := by
  rcases settle_quiet h hf with ⟨j, hj, hle, heq⟩ | ⟨hnone, heq⟩ <;> rw [heq]
  · constructor
    · rintro ⟨⟩
      exact ⟨hj, hle, rfl⟩
    · rintro ⟨hk, -, rfl⟩
      rw [hj.unique hk]
  · constructor
    · rintro ⟨⟩
    · rintro ⟨hk, hle, -⟩
      exact absurd hk.1 (hnone k hle)

theorem settle_eq_error_iff (h : r.WellFormed) (hf : r.floating = []) :
    settle r = .error (.oscillation r.settleLimit) (afterPass^[r.settleLimit] r) ↔
      ∀ k ≤ r.settleLimit, k ∉ r.quietPasses := by
  rcases settle_quiet h hf with ⟨j, hj, hle, heq⟩ | ⟨hnone, heq⟩ <;> rw [heq]
  · exact iff_of_false (fun herror => by cases herror) fun hnone => hnone j hle hj.1
  · exact iff_of_true rfl hnone

/-- Iterates that have come back to an earlier one go round for ever. -/
theorem iterate_ne_of_revisit {α : Type} {F : α → α} {x : α} {i j : Nat} (hij : i < j)
    (heq : F^[i] x = F^[j] x) (hne : ∀ m < j, F^[m + 1] x ≠ F^[m] x) (n : Nat) :
    F^[n + 1] x ≠ F^[n] x := by
  induction n using Nat.strong_induction_on with
  | _ n ih =>
    by_cases hn : n < j
    · exact hne n hn
    · -- the same iterate was there one round earlier
      have hback : ∀ m, F^[m + j] x = F^[m + i] x := fun m => by
        rw [Function.iterate_add_apply, ← heq, ← Function.iterate_add_apply]
      obtain ⟨m, rfl⟩ := Nat.exists_eq_add_of_le' (Nat.le_of_not_lt hn)
      have hsucc : m + j + 1 = (m + 1) + j := by omega
      rw [hsucc, hback, hback, Nat.add_right_comm]
      exact ih (m + i) (by omega)

end Registry

namespace Session
open Registry

/-- A pass evaluates all gates in place, and reports a change exactly if it makes one. Whatever values
the devices of a circuit without floating inputs have, settling takes the least positive number of
passes of which the last one has changed nothing, and leaves what a pass does not change, unless this
number exceeds the limit: then it gives up. So it gives up if the passes come back to what was there
before. -/
theorem settle_exact {s : Session} (hs : s.Reachable) (hf : s.circuit.devices.floating = [])
    {r : Registry} (hr : r.wiring = s.circuit.devices.wiring) :
    pass r = .ok (decide (r.afterPass ≠ r)) r.afterPass ∧
    (∀ k r', settle r = .ok k r' ↔
      IsLeast {k | 0 < k ∧ afterPass^[k] r = afterPass^[k - 1] r} k ∧ k ≤ r.settleLimit ∧
        r' = afterPass^[k] r) ∧
    (∀ k r', settle r = .ok k r' → r'.afterPass = r') ∧
    (settle r = .error (.oscillation r.settleLimit) (afterPass^[r.settleLimit] r) ↔
      ¬ ∃ k ≤ r.settleLimit, 0 < k ∧ afterPass^[k] r = afterPass^[k - 1] r) ∧
    ∀ i j, i < j → afterPass^[i] r = afterPass^[j] r →
      (∀ m < j, afterPass^[m + 1] r ≠ afterPass^[m] r) →
      settle r = .error (.oscillation r.settleLimit) (afterPass^[r.settleLimit] r) := by
  have h := hs.sound.wellFormed.of_wiring_eq hr
  have hfr := (floating_of_wiring_eq hr).trans hf
  refine ⟨pass_eq h hfr, fun k r' => settle_eq_ok_iff h hfr, fun k r' hok => ?_, ?_,
    fun i j hij heq hne => ?_⟩
  · obtain ⟨f, hstable, rfl⟩ := exists_of_settle h hfr hok
    exact (afterPass_setGates_eq_iff h).2 hstable
  · rw [settle_eq_error_iff h hfr]
    simp only [quietPasses, Set.mem_ofPred_eq, not_exists, not_and]
  · rw [settle_eq_error_iff h hfr]
    intro k _ hk
    obtain ⟨n, rfl⟩ := exists_of_mem_quietPasses hk
    exact iterate_ne_of_revisit hij heq hne n hk.2

/-- The ring of a flip-flop that is not set yet settles in two passes. A ring that is switched on
comes back to where it was after two passes, without having settled. -/
theorem settle_exact_rings :
    let r := ((start {}).run lateRing).2.circuit.devices
    let r' := ((start {}).run ring).2.circuit.devices
    settle r = .ok 2 (afterPass^[2] r) ∧
      settle r' = .error (.oscillation 24) (afterPass^[24] r') := by
  intro r r'
  constructor
  · have hs : Reachable ((start {}).run lateRing).2 := ⟨_, _, by decide, rfl⟩
    have hf : r.floating = [] := by decide +kernel
    refine ((settle_exact hs hf rfl).2.1 2 _).2 ⟨⟨⟨by decide, by decide +kernel⟩, ?_⟩,
      by decide +kernel, rfl⟩
    rintro k ⟨hpos, hk⟩
    by_contra hlt
    obtain rfl : k = 1 := by omega
    exact absurd hk (by decide +kernel)
  · have hs : Reachable ((start {}).run ring).2 := ⟨_, _, by decide, rfl⟩
    have hf : r'.floating = [] := by decide +kernel
    have hlimit : r'.settleLimit = 24 := by decide +kernel
    rw [← hlimit]
    exact (settle_exact hs hf rfl).2.2.2.2 0 2 (by decide) (by decide +kernel) (by decide +kernel)

end Session

end GateSim
