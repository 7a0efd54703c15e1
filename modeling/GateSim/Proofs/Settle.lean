import Mathlib.Logic.Function.Iterate
import GateSim.Proofs.Gate

/-!
# Settling

What passes do to the values of gates. In a well-formed registry without floating inputs nothing
fails but settling itself: a pass is `Registry.passed`, which lets the gates take their turns, and
settling stops at the first of the iterates of `passed` that is `Stable`, a solution of all gate
equations (`Registry.settleWithin_setGates`).
-/

namespace GateSim

namespace Change
variable {α β : Type} {r r' : Registry} {x : Change α} {k : α → Change β} {a : α} {f : RunFault}

theorem bind_ok (h : x r = .ok a r') : (x >>= k) r = k a r' := by
  show EStateM.bind x k r = _
  rw [EStateM.bind, h]

theorem bind_error (h : x r = .error f r') : (x >>= k) r = .error f r' := by
  show EStateM.bind x k r = _
  rw [EStateM.bind, h]

theorem ofRead_ok {g : Registry → Except RunFault α} (h : g r = .ok a) : ofRead g r = .ok a r := by
  rw [ofRead, h]

end Change

namespace Registry
variable {r : Registry} {f : Valuation}

/-- The device at a place takes its turn: if it is a gate, it gets the value that it computes. -/
def turn (r : Registry) (i : Nat) (f : Valuation) : Valuation :=
  match r.devices[i]? with
  | some d => if d.kind.isGate then Function.update f d.id (r.next f d) else f
  | none => f

/-- The first devices take their turns, one after the other. -/
def turns (r : Registry) : Nat → Valuation → Valuation
  | 0, f => f
  | n + 1, f => r.turn n (r.turns n f)

def passed (r : Registry) (f : Valuation) : Valuation := r.turns r.size f

/-- The values solve the equations of all gates. -/
def Stable (r : Registry) (f : Valuation) : Prop :=
  ∀ d ∈ r.devices, d.kind.isGate = true → f d.id = r.next f d

instance (r : Registry) (f : Valuation) : Decidable (r.Stable f) :=
  inferInstanceAs (Decidable (∀ d ∈ r.devices, d.kind.isGate = true → f d.id = r.next f d))

theorem next_congr (h : r.WellFormed) {f g : Valuation}
    (hfg : ∀ d ∈ r.devices, d.kind.isGate = true → f d.id = g d.id) : r.next f d = r.next g d := by
  unfold next
  congr 1
  refine List.map_congr_left fun e _ => ?_
  cases e.2 with
  | none => rfl
  | some s => exact congrArg (fun v => (some v).getD false) (value_congr h hfg s)

theorem stable_congr (h : r.WellFormed) {f g : Valuation}
    (hfg : ∀ d ∈ r.devices, d.kind.isGate = true → f d.id = g d.id) : r.Stable f ↔ r.Stable g := by
  refine forall₂_congr fun d hd => forall_congr' fun hg => ?_
  rw [hfg d hd hg, next_congr h hfg]

theorem turn_eq_self_iff {i : Nat} :
    r.turn i f = f ↔ ∀ d, r.devices[i]? = some d → d.kind.isGate = true → f d.id = r.next f d := by
  unfold turn
  cases hd : r.devices[i]? with
  | none => simp
  | some d =>
    by_cases hg : d.kind.isGate = true
    · simp only [hg, if_true, Function.update_eq_self_iff]
      exact ⟨fun h d' hd' _ => by cases hd'; exact h.symm, fun h => (h d rfl hg).symm⟩
    · simp [hg]

theorem stable_iff : r.Stable f ↔ ∀ i < r.size, r.turn i f = f := by
  simp only [turn_eq_self_iff]
  constructor
  · exact fun h i _ d hd hg => h d (List.mem_of_getElem? hd) hg
  · intro h d hd hg
    obtain ⟨i, hi⟩ := List.getElem?_of_mem hd
    obtain ⟨hlt, -⟩ := List.getElem?_eq_some_iff.1 hi
    exact h i hlt d hi hg

theorem turns_eq_self (n : Nat) (h : ∀ i < n, r.turn i f = f) : r.turns n f = f := by
  induction n with
  | zero => rfl
  | succ n ih =>
    rw [turns, ih fun i hi => h i (by omega)]
    exact h n (by omega)

theorem Stable.passed_eq (h : r.Stable f) : r.passed f = f :=
  turns_eq_self _ (stable_iff.1 h)

/-! ### Turns in place -/

theorem set_putOutput (h : r.WellFormed) {i : Nat} {d : Device} (hd : r.devices[i]? = some d)
    (hg : d.kind.isGate = true) (v : Signal) :
    (r.devices.map (Device.setGate f)).set i ((d.setGate f).putOutput none v) =
      r.devices.map (Device.setGate (Function.update f d.id v)) := by
  have hw := h.devices d (List.mem_of_getElem? hd)
  have hnew : (d.setGate f).putOutput none v = d.setGate (Function.update f d.id v) := by
    refine Device.ext_outputs (by simp [Device.putOutput]) (by simp [Device.putOutput])
      (by simp [Device.putOutput]) ?_ (by simp [Device.putOutput])
    rw [Device.putOutput, Device.outputs_setGate hw hg, Device.outputs_setGate hw hg,
      Function.update_self]
    rfl
  refine List.ext_getElem? fun j => ?_
  rw [List.getElem?_set, List.length_map, List.getElem?_map, List.getElem?_map]
  by_cases hij : i = j
  · subst hij
    obtain ⟨hlt, -⟩ := List.getElem?_eq_some_iff.1 hd
    rw [if_pos rfl, if_pos hlt, hd, Option.map_some, hnew]
  · rw [if_neg hij]
    cases hd' : r.devices[j]? with
    | none => rfl
    | some d' =>
      have hid : d'.id ≠ d.id := fun heq => hij <| by
        have h1 := (h.places d.id i).2 (by rw [ids, List.getElem?_map, hd]; rfl)
        have h2 := (h.places d.id j).2 (by rw [ids, List.getElem?_map, hd', ← heq]; rfl)
        exact Option.some.inj (h1.symm.trans h2)
      exact congrArg some (Device.setGate_congr fun _ => (Function.update_of_ne hid v f).symm)

theorem evaluate_setGates (h : r.WellFormed) (hf : r.floating = []) (i : Nat) (f : Valuation) :
    ∃ b, evaluate i (r.setGates f) = .ok b (r.setGates (r.turn i f)) ∧
      (b = false ↔ r.turn i f = f) := by
  have hi : (r.setGates f).devices[i]? = r.devices[i]?.map (Device.setGate f) := List.getElem?_map
  cases hd : r.devices[i]? with
  | none =>
    have hat : gateAt i (r.setGates f) = .ok none := by simp [gateAt, hi, hd, pure, Except.pure]
    have hturn : r.turn i f = f := by rw [turn, hd]
    exact ⟨false, by rw [evaluate, Change.bind_ok (Change.ofRead_ok hat), hturn]; rfl, by simp [hturn]⟩
  | some d =>
    have hmem := List.mem_of_getElem? hd
    have hout := gateOutput_setGates (f := f) h hf hmem
    by_cases hg : d.kind.isGate = true
    · rw [if_pos hg] at hout
      have hat : gateAt i (r.setGates f) = .ok (some (d.setGate f, r.next f d)) := by
        simp [gateAt, hi, hd, hout, bind, Except.bind, pure, Except.pure]
      have hturn : r.turn i f = Function.update f d.id (r.next f d) := by
        simp only [turn, hd, hg, if_true]
      have hvalue : (d.setGate f).value = f d.id := by
        rw [Device.value, Device.outputs_setGate (h.devices d hmem) hg]
        rfl
      refine ⟨f d.id != r.next f d, ?_, ?_⟩
      · rw [evaluate, Change.bind_ok (Change.ofRead_ok hat), hturn]
        show EStateM.Result.ok ((d.setGate f).value != r.next f d)
          { r with devices :=
              (r.devices.map (Device.setGate f)).set i ((d.setGate f).putOutput none (r.next f d)) } = _
        rw [set_putOutput h hd hg, hvalue]
        rfl
      · rw [hturn, Function.update_eq_self_iff, bne_eq_false_iff_eq]
        exact eq_comm
    · rw [if_neg hg] at hout
      have hat : gateAt i (r.setGates f) = .ok none := by
        simp [gateAt, hi, hd, hout, bind, Except.bind, pure, Except.pure]
      have hturn : r.turn i f = f := by simp [turn, hd, hg]
      exact ⟨false, by rw [evaluate, Change.bind_ok (Change.ofRead_ok hat), hturn]; rfl,
        by simp [hturn]⟩

theorem sweep_setGates (h : r.WellFormed) (hf : r.floating = []) (n : Nat) (f : Valuation) :
    ∃ b, sweep n (r.setGates f) = .ok b (r.setGates (r.turns n f)) ∧
      (b = false ↔ ∀ i < n, r.turn i f = f) := by
  induction n with
  | zero => exact ⟨false, rfl, by simp⟩
  | succ n ih =>
    obtain ⟨b, hsweep, hb⟩ := ih
    obtain ⟨c, heval, hc⟩ := evaluate_setGates h hf n (r.turns n f)
    refine ⟨b || c, ?_, ?_⟩
    · rw [sweep, Change.bind_ok hsweep, Change.bind_ok heval]
      rfl
    · rw [Bool.or_eq_false_iff, hb, hc]
      constructor
      · rintro ⟨hold, hnew⟩ i hi
        rw [turns_eq_self n hold] at hnew
        rcases Nat.lt_succ_iff_lt_or_eq.1 hi with hi | rfl
        · exact hold i hi
        · exact hnew
      · intro hall
        have hold : ∀ i < n, r.turn i f = f := fun i hi => hall i (by omega)
        exact ⟨hold, by rw [turns_eq_self n hold]; exact hall n (by omega)⟩

theorem size_setGates : (r.setGates f).size = r.size := List.length_map ..

/-- A pass changes nothing exactly if the values are stable. -/
theorem pass_setGates (h : r.WellFormed) (hf : r.floating = []) (f : Valuation) :
    ∃ b, pass (r.setGates f) = .ok b (r.setGates (r.passed f)) ∧ (b = false ↔ r.Stable f) := by
  obtain ⟨b, hsweep, hb⟩ := sweep_setGates h hf r.size f
  refine ⟨b, ?_, hb.trans stable_iff.symm⟩
  rw [pass, Change.bind_ok (x := get) rfl, size_setGates]
  exact hsweep

/-! ### Settling -/

/-- Settling stops at the first stable iterate, after one more pass, or it gives up. -/
theorem settleWithin_setGates (h : r.WellFormed) (hf : r.floating = []) (left done : Nat)
    (f : Valuation) :
    (∃ k < left, r.Stable (r.passed^[k] f) ∧ (∀ j < k, ¬ r.Stable (r.passed^[j] f)) ∧
      settleWithin left done (r.setGates f) = .ok (done + k + 1) (r.setGates (r.passed^[k] f))) ∨
    ((∀ k < left, ¬ r.Stable (r.passed^[k] f)) ∧
      settleWithin left done (r.setGates f) =
        .error (.oscillation (done + left)) (r.setGates (r.passed^[left] f))) := by
  induction left generalizing done f with
  | zero => exact Or.inr ⟨by simp, rfl⟩
  | succ left ih =>
    obtain ⟨b, hpass, hb⟩ := pass_setGates h hf f
    rw [settleWithin, Change.bind_ok hpass]
    cases b with
    | false =>
      have hstable := hb.1 rfl
      refine Or.inl ⟨0, by omega, hstable, by simp, ?_⟩
      rw [hstable.passed_eq]
      rfl
    | true =>
      have hunstable : ¬ r.Stable f := fun hs => by simpa using hb.2 hs
      have hfirst : ∀ {k}, (∀ j < k, ¬ r.Stable (r.passed^[j] (r.passed f))) →
          ∀ j < k + 1, ¬ r.Stable (r.passed^[j] f) := by
        intro k hk j hj
        cases j with
        | zero => exact hunstable
        | succ j => exact hk j (by omega)
      rcases ih (done + 1) (r.passed f) with ⟨k, hk, hs, hleast, heq⟩ | ⟨hnone, heq⟩
      · refine Or.inl ⟨k + 1, by omega, hs, hfirst hleast, ?_⟩
        have hcount : done + 1 + k + 1 = done + (k + 1) + 1 := by omega
        rw [if_pos rfl, heq, Function.iterate_succ_apply, hcount]
      · refine Or.inr ⟨hfirst hnone, ?_⟩
        have hcount : done + 1 + left = done + (left + 1) := by omega
        rw [if_pos rfl, heq, Function.iterate_succ_apply, hcount]

/-- Settling starts from the values that the gates have. -/
theorem settle_eq (h : r.WellFormed) (hf : r.floating = []) :
    (∃ k < r.settleLimit, r.Stable (r.passed^[k] r.gateValues) ∧
      (∀ j < k, ¬ r.Stable (r.passed^[j] r.gateValues)) ∧
      settle r = .ok (k + 1) (r.setGates (r.passed^[k] r.gateValues))) ∨
    ((∀ k < r.settleLimit, ¬ r.Stable (r.passed^[k] r.gateValues)) ∧
      settle r = .error (.oscillation r.settleLimit)
        (r.setGates (r.passed^[r.settleLimit] r.gateValues))) := by
  have hsettle : settle r = settleWithin r.settleLimit 0 (r.setGates r.gateValues) := by
    rw [setGates_gateValues h]
    exact Change.bind_ok (x := get) rfl
  have hwithin := settleWithin_setGates h hf r.settleLimit 0 r.gateValues
  simpa only [← hsettle, Nat.zero_add] using hwithin

end Registry

end GateSim
