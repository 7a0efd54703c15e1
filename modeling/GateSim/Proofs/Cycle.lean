import GateSim.Circuit
import GateSim.Proofs.Settle

/-!
# Cycles that fail

Whatever happens in the phases of a cycle, they touch nothing but the devices (`Change.Frames`). So
putting the devices back is enough: a cycle that fails leaves the circuit as it was
(`Circuit.cycle_error`), whatever state it was in.
-/

namespace GateSim

namespace Change
variable {α β : Type}

/-- The change touches nothing but the devices, even if it fails. -/
def Frames (x : Change α) : Prop :=
  ∀ r, match x r with
    | .ok _ r' | .error _ r' => r'.pins = r.pins ∧ r'.places = r.places

theorem Frames.of_ok {x : Change α} (h : x.Frames) {r r' : Registry} {a : α}
    (hx : x r = .ok a r') : r'.pins = r.pins ∧ r'.places = r.places := by
  have := h r
  rwa [hx] at this

theorem Frames.of_error {x : Change α} (h : x.Frames) {r r' : Registry} {f : RunFault}
    (hx : x r = .error f r') : r'.pins = r.pins ∧ r'.places = r.places := by
  have := h r
  rwa [hx] at this

theorem frames_pure (a : α) : Frames (pure a) := fun _ => ⟨rfl, rfl⟩

theorem frames_throw (f : RunFault) : Frames (throw f : Change α) := fun _ => ⟨rfl, rfl⟩

theorem frames_ofRead (g : Registry → Except RunFault α) : Frames (ofRead g) := by
  intro r
  show match ofRead g r with
    | .ok _ r' | .error _ r' => r'.pins = r.pins ∧ r'.places = r.places
  unfold ofRead
  cases g r <;> exact ⟨rfl, rfl⟩

theorem Frames.bind {x : Change α} {k : α → Change β} (hx : x.Frames) (hk : ∀ a, (k a).Frames) :
    (x >>= k).Frames := by
  intro r
  cases h : x r with
  | ok a r' =>
    obtain ⟨hpins, hplaces⟩ := hx.of_ok h
    have := hk a r'
    rw [bind_ok h]
    rwa [hpins, hplaces] at this
  | error f r' =>
    rw [bind_error h]
    exact hx.of_error h

theorem frames_modify_bind {g : Registry → Registry} {k : PUnit → Change β}
    (hk : ∀ u, (k u).Frames) (h : ∀ r, (g r).pins = r.pins ∧ (g r).places = r.places) :
    ((modify g : Change PUnit) >>= k).Frames :=
  Frames.bind h hk

theorem frames_get_bind {k : Registry → Change β} (hk : ∀ r, (k r).Frames) :
    ((get : Change Registry) >>= k).Frames :=
  Frames.bind (fun _ => ⟨rfl, rfl⟩) hk

end Change

namespace Registry

theorem frames_evaluate (i : Nat) : (evaluate i).Frames := by
  refine (Change.frames_ofRead _).bind fun o => ?_
  cases o with
  | none => exact Change.frames_pure _
  | some e => exact Change.frames_modify_bind (fun _ => Change.frames_pure _) fun _ => ⟨rfl, rfl⟩

theorem frames_sweep (n : Nat) : (sweep n).Frames := by
  induction n with
  | zero => exact Change.frames_pure _
  | succ n ih => exact ih.bind fun _ => (frames_evaluate n).bind fun _ => Change.frames_pure _

theorem frames_settleWithin (left done : Nat) : (settleWithin left done).Frames := by
  induction left generalizing done with
  | zero => exact Change.frames_throw _
  | succ left ih =>
    refine (Change.frames_get_bind fun r => frames_sweep r.size).bind fun changed => ?_
    cases changed with
    | false => exact Change.frames_pure _
    | true => exact ih (done + 1)

theorem frames_settle : settle.Frames :=
  Change.frames_get_bind fun r => frames_settleWithin r.settleLimit 0

theorem frames_latchAll : latchAll.Frames :=
  (Change.frames_ofRead _).bind fun _ =>
    Change.frames_modify_bind (fun _ => Change.frames_pure _) fun _ => ⟨rfl, rfl⟩

theorem frames_phases : phases.Frames := by
  refine Change.frames_modify_bind (fun _ => ?_) fun _ => ⟨rfl, rfl⟩
  refine frames_settle.bind fun _ => frames_latchAll.bind fun changed => ?_
  cases changed with
  | false => exact Change.frames_pure _
  | true => exact frames_settle.bind fun _ => Change.frames_pure _

/-- What a cycle does if no input floats: the phases, and back to the start if they fail. -/
theorem cycle_eq {r : Registry} (h : r.floating = []) :
    cycle r = match phases r with
      | .ok passes r' => .ok passes r'
      | .error f r' => .error f (r'.restore r.devices) := by
  rw [cycle, Change.bind_ok (x := get) rfl, h]
  show EStateM.tryCatch phases _ r = _
  unfold EStateM.tryCatch
  cases phases r <;> rfl

theorem cycle_of_floating {r : Registry} {e : NameId × NameId} {l : List (NameId × NameId)}
    (hf : r.floating = e :: l) : cycle r = .error (.floating e.1 e.2) r := by
  rw [cycle, Change.bind_ok (x := get) rfl, hf]
  rfl

theorem cycle_error {r r' : Registry} {f : RunFault} (h : cycle r = .error f r') : r' = r := by
  cases hf : r.floating with
  | cons e l =>
    rw [cycle_of_floating hf] at h
    cases h
    rfl
  | nil =>
    rw [cycle_eq hf] at h
    cases hp : phases r with
    | ok passes r₁ => simp [hp] at h
    | error f₁ r₁ =>
      rw [hp] at h
      cases h
      obtain ⟨hpins, hplaces⟩ := frames_phases.of_error hp
      show Registry.mk r₁.pins r.devices r₁.places = r
      rw [hpins, hplaces]

theorem cycle_of_phases_error {r r' : Registry} {f : RunFault} (hf : r.floating = [])
    (hp : phases r = .error f r') : cycle r = .error f r := by
  have hc : cycle r = .error f (r'.restore r.devices) := by rw [cycle_eq hf, hp]
  rw [hc, cycle_error hc]

end Registry

/-- A cycle that fails leaves the circuit as it was. -/
theorem Circuit.cycle_error {c c' : Circuit} {f : RunFault} (h : c.cycle = (.error f, c')) :
    c' = c := by
  unfold cycle at h
  split at h
  · cases h
  · next heq =>
    cases h
    rw [Registry.cycle_error heq]

end GateSim
