import GateSim.Proofs.Synchronous

/-!
# Circuits within circuits

A registry is embedded in another if each of its devices is found there, under another name perhaps,
and with inputs that come from the same devices (`Registry.Embeds`). What the other one has besides
does not drive these devices. So whatever each device does on its own, and whatever gates compute
from given values, is the same in both, and so is a cycle of circuits whose gates form no loop.
-/

namespace GateSim

def Source.rename (ρ : NameId → NameId) (s : Source) : Source := { s with device := ρ s.device }

/-- The device under another name, with its sources under theirs. -/
def Device.rename (ρ : NameId → NameId) (d : Device) : Device :=
  { d with
    id := ρ d.id
    inputs := d.inputs.map fun e => (e.1, e.2.map (Source.rename ρ)) }

namespace Device
variable {ρ : NameId → NameId} {d : Device}

/-- Under its own name it is the same device. -/
theorem rename_self (d : Device) : d.rename (fun a => a) = d := by
  have hsource : ∀ s : Option Source, s.map (Source.rename fun a => a) = s := fun s => by
    cases s <;> rfl
  simp [rename, hsource]

theorem get?_inputs_rename (ρ : NameId → NameId) (d : Device) (pin : NameId) :
    (d.rename ρ).inputs.get? pin = (d.inputs.get? pin).map (·.map (Source.rename ρ)) :=
  PinMap.get?_map _ _ _

theorem rename_advance (ρ : NameId → NameId) (d : Device) :
    d.advance.rename ρ = (d.rename ρ).advance := by
  have hstate : (d.rename ρ).state = d.state := rfl
  cases hs : d.state with
  | rc period countdown => cases countdown <;> simp only [advance, hstate, hs] <;> rfl
  | clock halfPeriod counter =>
    simp only [advance, hstate, hs]
    split <;> rfl
  | _ => simp only [advance, hstate, hs] <;> rfl

theorem rename_setGate (ρ : NameId → NameId) (f : Valuation) (d : Device) :
    (d.setGate (f ∘ ρ)).rename ρ = (d.rename ρ).setGate f := by
  have hkind : (d.rename ρ).kind = d.kind := rfl
  unfold setGate
  rw [hkind]
  split <;> rfl

end Device

namespace Registry

/-- Each device of `r` is a device of `r'` under its new name, with all that drives it. -/
structure Embeds (ρ : NameId → NameId) (r r' : Registry) : Prop where
  source : r.WellFormed
  target : r'.WellFormed
  pins : r'.pins = r.pins
  mem : ∀ d ∈ r.devices, d.rename ρ ∈ r'.devices
  inj : ∀ a ∈ r.ids, ∀ b ∈ r.ids, ρ a = ρ b → a = b

namespace Embeds
variable {ρ : NameId → NameId} {r r' : Registry} {f : Valuation} {d : Device}

/-! ### What is the same in both -/

theorem device? (h : Embeds ρ r r') (hd : d ∈ r.devices) :
    r'.device? (ρ d.id) = some (d.rename ρ) :=
  h.target.device?_of_mem (h.mem d hd)

theorem device?_of_mem_ids (h : Embeds ρ r r') {a : NameId} (ha : a ∈ r.ids) :
    r'.device? (ρ a) = (r.device? a).map (Device.rename ρ) := by
  obtain ⟨d, hd, rfl⟩ := List.mem_map.1 ha
  rw [h.device? hd, h.source.device?_of_mem hd]
  rfl

theorem isGate (h : Embeds ρ r r') {a : NameId} (ha : a ∈ r.ids) : r'.isGate (ρ a) = r.isGate a := by
  rw [Registry.isGate, Registry.isGate, h.device?_of_mem_ids ha, Option.any_map]
  rfl

theorem output? (h : Embeds ρ r r') {a : NameId} (ha : a ∈ r.ids) (pin : OutputPin) :
    r'.output? (ρ a) pin = r.output? a pin := by
  rw [Registry.output?, Registry.output?, h.device?_of_mem_ids ha, Option.bind_map]
  rfl

theorem gateValues (h : Embeds ρ r r') {a : NameId} (ha : a ∈ r.ids) :
    r'.gateValues (ρ a) = r.gateValues a := by
  rw [Registry.gateValues, Registry.gateValues, h.output? ha]

theorem value (h : Embeds ρ r r') (f : Valuation) {s : Source} (hs : s.device ∈ r.ids) :
    r'.value f (s.rename ρ) = r.value (f ∘ ρ) s := by
  rw [Registry.value, Registry.value]
  show (if r'.isGate (ρ s.device) = true then f (ρ s.device)
    else (r'.output? (ρ s.device) s.pin).getD false) = _
  rw [h.isGate hs, h.output? hs]
  rfl

/-- The sources of a device are in the registry, so they are embedded too. -/
theorem device_mem_ids (h : Embeds ρ r r') (hd : d ∈ r.devices) {pin : NameId} {s : Source}
    (hs : (pin, some s) ∈ d.inputs) : s.device ∈ r.ids := by
  have hget := (h.source.devices d hd).inputs.get?_of_mem hs
  obtain ⟨d', hd', hid, -⟩ := h.source.sources d hd pin s hget
  exact List.mem_map.2 ⟨d', hd', hid⟩

theorem next (h : Embeds ρ r r') (f : Valuation) (hd : d ∈ r.devices) :
    r'.next f (d.rename ρ) = r.next (f ∘ ρ) d := by
  unfold Registry.next
  show d.kind.function ((d.inputs.map _).map _) = _
  rw [List.map_map]
  congr 1
  refine List.map_congr_left fun e he => ?_
  obtain ⟨pin, s⟩ := e
  cases s with
  | none => rfl
  | some s => exact h.value f (h.device_mem_ids hd he)

theorem stable (h : Embeds ρ r r') (hs : r'.Stable f) : r.Stable (f ∘ ρ) := by
  intro d hd hg
  rw [← h.next f hd]
  exact hs (d.rename ρ) (h.mem d hd) hg

theorem input (h : Embeds ρ r r') (hd : d ∈ r.devices) (pin : NameId) :
    r'.input r'.gateValues (d.rename ρ) pin = r.input r.gateValues d pin := by
  unfold Registry.input
  rw [Device.get?_inputs_rename]
  cases hs : d.inputs.get? pin with
  | none => rfl
  | some s =>
    cases s with
    | none => rfl
    | some s =>
      have hmem : s.device ∈ r.ids := h.device_mem_ids hd (PinMap.mem_of_get? hs)
      have hgates : ∀ d ∈ r.devices, d.kind.isGate = true →
          (r'.gateValues ∘ ρ) d.id = r.gateValues d.id :=
        fun d hd _ => h.gateValues (List.mem_map_of_mem hd)
      show r'.value r'.gateValues (s.rename ρ) = r.value r.gateValues s
      rw [h.value _ hmem, value_congr h.source hgates]

theorem floating (h : Embeds ρ r r') (hf : r'.floating = []) : r.floating = [] := by
  rw [floating_eq_nil_iff] at hf ⊢
  intro d hd e he hnone
  refine hf (d.rename ρ) (h.mem d hd) (e.1, e.2.map (Source.rename ρ)) ?_ ?_
  · exact List.mem_map_of_mem he
  · rw [hnone]
    rfl

theorem reads (h : Embeds ρ r r') {a b : NameId} (hr : r.Reads b a) : r'.Reads (ρ b) (ρ a) := by
  obtain ⟨ha, d, hd, rfl, hg, pin, s, hs, rfl⟩ := hr
  refine ⟨?_, d.rename ρ, h.mem d hd, rfl, hg, pin, s.rename ρ, ?_, rfl⟩
  · rwa [h.isGate (h.device_mem_ids hd hs)]
  · exact List.mem_map_of_mem hs

/-- A loop is carried along. -/
theorem acyclic (h : Embeds ρ r r') (ha : r'.Acyclic) : r.Acyclic :=
  fun a hloop => ha (ρ a) (hloop.lift ρ fun _ _ hr => h.reads hr)

/-! ### What keeps an embedding -/

/-- Changes that each device makes on its own, alike in both registries. -/
theorem map (h : Embeds ρ r r') {F F' : Device → Device}
    (hF : ∀ d ∈ r.devices, (F d).rename ρ = F' (d.rename ρ))
    (hw : wiring { r with devices := r.devices.map F } = r.wiring)
    (hw' : wiring { r' with devices := r'.devices.map F' } = r'.wiring) :
    Embeds ρ { r with devices := r.devices.map F } { r' with devices := r'.devices.map F' } := by
  refine ⟨h.source.of_wiring_eq hw, h.target.of_wiring_eq hw', h.pins, fun d hd => ?_, ?_⟩
  · obtain ⟨d₀, hd₀, rfl⟩ := List.mem_map.1 hd
    rw [hF d₀ hd₀]
    exact List.mem_map_of_mem (h.mem d₀ hd₀)
  · rw [ids_eq_of_wiring_eq hw]
    exact h.inj

theorem advance (h : Embeds ρ r r') : Embeds ρ r.advance r'.advance :=
  h.map (fun d _ => d.rename_advance ρ) (wiring_advance h.source) (wiring_advance h.target)

theorem setGates (h : Embeds ρ r r') (f : Valuation) :
    Embeds ρ (r.setGates (f ∘ ρ)) (r'.setGates f) :=
  h.map (fun d _ => d.rename_setGate ρ f) (wiring_setGates h.source _) (wiring_setGates h.target _)

theorem clockDevice (h : Embeds ρ r r') (hd : d ∈ r.devices) :
    (r.clockDevice d).rename ρ = r'.clockDevice (d.rename ρ) := by
  have hbit : ∀ q lastClk, r'.nextBit (d.rename ρ) q lastClk = r.nextBit d q lastClk := by
    intro q lastClk
    simp only [nextBit, h.input hd, h.pins]
  have hstate : (d.rename ρ).state = d.state := rfl
  unfold Registry.clockDevice
  rw [hstate]
  cases hs : d.state with
  | dtype q lastClk =>
    simp only [hbit, h.input hd, h.pins]
    rfl
  | _ => rfl

theorem clocked (h : Embeds ρ r r') : Embeds ρ r.clocked r'.clocked :=
  h.map (fun _ hd => h.clockDevice hd) (wiring_clocked h.source) (wiring_clocked h.target)

/-- Gates without loops have the same values in both, since their equations have one solution. -/
theorem evaluated (h : Embeds ρ r r') (ha : r'.Acyclic) : Embeds ρ r.evaluated r'.evaluated := by
  have hstable := h.stable (stable_eval h.target ha)
  have heval : r.evaluated = r.setGates (r'.eval ∘ ρ) := by
    refine setGates_congr fun d hd hg => ?_
    exact (stable_eval h.source (h.acyclic ha)).eq h.source (h.acyclic ha) hstable hd hg
  rw [heval]
  exact h.setGates r'.eval

theorem synchronous (h : Embeds ρ r r') (ha : r'.Acyclic) :
    Embeds ρ r.synchronous r'.synchronous := by
  have hwa := wiring_advance h.target
  have ha₁ := ha.of_wiring_eq h.target hwa
  have h₁ := (h.advance.evaluated ha₁)
  have hw₁ := (wiring_evaluated h.advance.target).trans hwa
  have hw₂ := (wiring_clocked h₁.target).trans hw₁
  exact h₁.clocked.evaluated (ha.of_wiring_eq h.target hw₂)

/-- A switch is set in both or in none. -/
theorem setSwitch (h : Embeds ρ r r') {a : NameId} (ha : a ∈ r.ids) (v : Signal) :
    (r.setSwitch a v = none ∧ r'.setSwitch (ρ a) v = none) ∨
      ∃ r₁ r₁', r.setSwitch a v = some r₁ ∧ r'.setSwitch (ρ a) v = some r₁' ∧ Embeds ρ r₁ r₁' := by
  have hstate : (r'.device? (ρ a)).map Device.state = (r.device? a).map Device.state := by
    rw [h.device?_of_mem_ids ha, Option.map_map]
    rfl
  cases hr₁ : r.setSwitch a v with
  | none =>
    refine Or.inl ⟨rfl, ?_⟩
    unfold Registry.setSwitch at hr₁ ⊢
    rw [hstate]
    split at hr₁
    · cases hr₁
    · rfl
  | some r₁ =>
    obtain ⟨initial, ⟨d, hd, hid, setting, hs⟩, rfl⟩ := h.source.setSwitch_eq_some hr₁
    have hd' : (r'.device? (ρ a)).map Device.state = some (.switch initial setting) := by
      rw [hstate, ← hid, h.source.device?_of_mem hd, ← hs]
      rfl
    obtain ⟨r₁', hr₁'⟩ : ∃ r₁', r'.setSwitch (ρ a) v = some r₁' := by
      rw [Registry.setSwitch, hd']
      exact ⟨_, rfl⟩
    have hw := h.source.wiring_setSwitch hr₁
    have hw' := h.target.wiring_setSwitch hr₁'
    obtain ⟨initial', ⟨d', hd', hid', setting', hs'⟩, rfl⟩ := h.target.setSwitch_eq_some hr₁'
    -- both are the same switch, with the same initial setting
    obtain rfl := h.target.eq_of_id_eq hd' (h.mem d hd) (hid'.trans (congrArg ρ hid.symm))
    cases hs.symm.trans hs'
    refine Or.inr ⟨_, _, rfl, hr₁', h.map (fun d₁ hd₁ => ?_) hw hw'⟩
    have hiff : ρ d₁.id = ρ a ↔ d₁.id = a :=
      ⟨h.inj _ (List.mem_map_of_mem hd₁) a ha, congrArg ρ⟩
    show Device.rename ρ (if d₁.id = a then _ else d₁) = if ρ d₁.id = ρ a then _ else d₁.rename ρ
    simp only [hiff]
    split <;> rfl

end Embeds

end Registry

end GateSim
