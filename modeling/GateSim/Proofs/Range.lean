import GateSim.Proofs.Parameter
import GateSim.Proofs.Phases

/-!
# Hidden states in range

`State.InRange` says which values the numbers in a hidden state may have. A device is made in range,
and nothing that happens to it later takes it out of range. So a clock never counts past its half
period, and the cursor of a generator never leaves its waveform.
-/

namespace GateSim

namespace State

def InRange : State → Prop
  | .clock halfPeriod counter => 1 ≤ halfPeriod ∧ halfPeriod ≤ 999999999 ∧ counter < halfPeriod
  | .gate n => 1 ≤ n ∧ n ≤ 16
  | .rc period countdown => 1 ≤ period ∧ period ≤ 999999999 ∧ countdown ≤ period
  | .siggen waveform cursor => waveform ≠ [] ∧ cursor < waveform.length
  | .switch _ _ | .xor | .dtype _ _ => True

theorem InRange.reset {s : State} (h : s.InRange) : s.reset.InRange := by
  cases s with
  | clock halfPeriod counter => exact ⟨h.1, h.2.1, h.1⟩
  | rc period countdown => exact ⟨h.1, h.2.1, Nat.le_refl period⟩
  | siggen waveform cursor => exact ⟨h.1, List.length_pos_iff.2 h.1⟩
  | gate n => exact h
  | switch _ _ | xor | dtype _ _ => trivial

end State

namespace Quantity
variable {q : Quantity} {t : Text} {n : Nat}

/-- A number that is read has at most nine digits, with or without leading zeros. -/
theorem le_of_read (h : q.read t = .ok n) : n ≤ 999999999 := by
  unfold read at h
  split at h
  · cases h
  split at h
  · cases h
  next hlength =>
  split at h
  · next hdigits =>
    cases h
    have hlt := Text.value_lt (List.all_eq_true.1 hdigits)
    have hpow : 10 ^ t.length ≤ 10 ^ 9 :=
      Nat.pow_le_pow_right (by decide) (Nat.le_of_not_lt hlength)
    omega
  · cases h

theorem bounds_of_readPositive (h : q.readPositive t = .ok n) : 1 ≤ n ∧ n ≤ 999999999 := by
  unfold readPositive at h
  cases hr : q.read t with
  | error f => simp [hr, bind, Except.bind] at h
  | ok m =>
    simp only [hr, bind, Except.bind] at h
    split at h
    · cases h
    · next hm =>
      cases h
      have := le_of_read hr
      omega

end Quantity

namespace State
variable {kind : Kind} {t : Text} {s : State}

theorem inRange_of_gate (hk : kind.isCountedGate = true) (h : ofParameter kind t = .ok s) :
    s.InRange := by
  rw [ofParameter_eq_bind hk] at h
  cases hn : Quantity.inputCount.read t with
  | error f => simp [hn, Except.bind] at h
  | ok n =>
    rw [hn] at h
    by_cases hr : n < 1 ∨ PinWord.maxGateInputs < n
    · cases (if_pos hr).symm.trans h
    · cases (if_neg hr).symm.trans h
      rw [PinWord.maxGateInputs] at hr
      show 1 ≤ n ∧ n ≤ 16
      omega

/-- A device starts in range, whatever was given as its parameter. -/
theorem inRange_of_ofParameter (h : ofParameter kind t = .ok s) : s.InRange := by
  cases kind with
  | switch =>
    simp only [ofParameter] at h
    repeat' split at h
    all_goals cases h
    all_goals trivial
  | clock =>
    cases hn : Quantity.halfPeriod.readPositive t with
    | error f => simp [ofParameter, hn, bind, Except.bind] at h
    | ok n =>
      simp only [ofParameter, hn, bind, Except.bind, pure, Except.pure] at h
      cases h
      obtain ⟨hpos, hle⟩ := Quantity.bounds_of_readPositive hn
      exact ⟨hpos, hle, hpos⟩
  | rc =>
    cases hn : Quantity.rcPeriod.readPositive t with
    | error f => simp [ofParameter, hn, bind, Except.bind] at h
    | ok n =>
      simp only [ofParameter, hn, bind, Except.bind, pure, Except.pure] at h
      cases h
      obtain ⟨hpos, hle⟩ := Quantity.bounds_of_readPositive hn
      exact ⟨hpos, hle, Nat.le_refl n⟩
  | and | or | nand | nor => exact inRange_of_gate rfl h
  | xor | dtype =>
    simp only [ofParameter] at h
    split at h
    · cases h
      trivial
    · cases h
  | siggen =>
    simp only [ofParameter] at h
    split at h
    · cases h
    next hempty =>
    split at h
    · cases h
      have hne : t ≠ [] := by simpa using hempty
      exact ⟨by simpa using hne, by simpa using List.length_pos_iff.2 hne⟩
    · cases h

end State

namespace Device
variable {d : Device}

theorem inRange_make {pins : Pins} {kind : Kind} {id : NameId} {parameter : Text}
    (h : make pins kind id parameter = .ok d) : d.state.InRange := by
  obtain ⟨s, hs, rfl⟩ := make_eq_ok_iff.1 h
  exact State.inRange_of_ofParameter hs

theorem inRange_advance (h : d.state.InRange) : d.advance.state.InRange := by
  cases hs : d.state with
  | clock halfPeriod counter =>
    rw [hs] at h
    obtain ⟨hpos, hle, -⟩ := h
    simp only [advance, hs]
    split
    · exact ⟨hpos, hle, hpos⟩
    · next hlt => exact ⟨hpos, hle, Nat.lt_of_not_le hlt⟩
  | rc period countdown =>
    rw [hs] at h
    cases countdown with
    | zero =>
      have hstate : d.advance.state = .rc period 0 := by simp only [advance, hs, putOutput]
      rw [hstate]
      exact h
    | succ n =>
      simp only [advance, hs]
      obtain ⟨hpos, hle, hn⟩ := h
      exact ⟨hpos, hle, Nat.le_of_succ_le hn⟩
  | siggen waveform cursor =>
    rw [hs] at h
    simp only [advance, hs]
    exact ⟨h.1, Nat.mod_lt _ (List.length_pos_iff.2 h.1)⟩
  | switch _ _ | gate _ | xor | dtype _ _ =>
    have hstate : d.advance.state = d.state := by simp only [advance, hs, putOutput]
    rw [hstate]
    exact h

end Device

namespace Registry
variable {r r' : Registry}

def InRange (r : Registry) : Prop := ∀ d ∈ r.devices, d.state.InRange

theorem InRange.map (h : r.InRange) {f : Device → Device}
    (hf : ∀ d ∈ r.devices, d.state.InRange → (f d).state.InRange) :
    InRange { r with devices := r.devices.map f } := by
  intro d' hd'
  obtain ⟨d, hd, rfl⟩ := List.mem_map.1 hd'
  exact hf d hd (h d hd)

theorem InRange.create (h : r.InRange) {kind : Kind} {id : NameId} {parameter : Text}
    (hc : r.create kind id parameter = .ok r') : r'.InRange := by
  obtain ⟨-, d, hmake, rfl⟩ := create_eq_ok_iff.1 hc
  intro d' hd'
  rcases List.mem_append.1 hd' with hd' | hd'
  · exact h d' hd'
  · rw [List.mem_singleton.1 hd']
    exact Device.inRange_make hmake

theorem InRange.connect (h : r.InRange) (hw : r.WellFormed) (source : NameId)
    (sourcePin : OutputPin) (target pin : NameId) :
    (r.connect source sourcePin target pin).2.InRange := by
  rcases hw.connect_cases source sourcePin target pin with heq | ⟨d, -, -, -, -, heq⟩
  · rwa [heq]
  · rw [heq]
    refine h.map fun d' _ hd' => ?_
    split <;> exact hd'

theorem InRange.setSwitch (h : r.InRange) (hw : r.WellFormed) {id : NameId} {v : Signal}
    (hs : r.setSwitch id v = some r') : r'.InRange := by
  obtain ⟨initial, -, rfl⟩ := hw.setSwitch_eq_some hs
  refine h.map fun d' _ hd' => ?_
  split
  · trivial
  · exact hd'

theorem InRange.coldStart (h : r.InRange) : r.coldStart.InRange :=
  h.map fun _ _ hd => hd.reset

theorem InRange.setGates (h : r.InRange) (f : Valuation) : (r.setGates f).InRange :=
  h.map fun d _ hd => by rwa [Device.state_setGate]

theorem InRange.clocked (h : r.InRange) : r.clocked.InRange := by
  refine h.map fun d _ hd => ?_
  unfold clockDevice
  split
  · trivial
  · exact hd

theorem InRange.cycle (h : r.InRange) (hw : r.WellFormed) (hl : r.Latched) {passes : Nat}
    (hc : Registry.cycle r = .ok passes r') : r'.InRange := by
  obtain ⟨-, -, -, -, ⟨f, rfl⟩, g, rfl⟩ := exists_of_cycle hw hl hc
  have hadvance : r.advance.InRange := h.map fun _ _ hd => Device.inRange_advance hd
  exact ((hadvance.setGates f).clocked).setGates g

end Registry

end GateSim
