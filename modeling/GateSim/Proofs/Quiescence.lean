import GateSim.Proofs.Monotone
import GateSim.Proofs.Sources

/-!
# Circuits at rest

Nothing in a circuit of switches and gates moves by itself. After a cycle the gates solve their
equations and every switch shows its setting, so a further cycle makes one pass and changes nothing,
whatever loops the gates form. Setting a switch does not reach the gates before the next cycle, so
switches that have been set back by then leave no trace (`Session.quiescent`).
-/

namespace GateSim

/-- The device is a switch or a gate. -/
def Kind.isTimeless : Kind → Bool
  | .switch => true
  | kind => kind.isGate

theorem State.exists_switch {st st' : State} {initial setting : Signal} (h : st'.reset = st.reset)
    (hs : st = .switch initial setting) : ∃ setting', st' = .switch initial setting' := by
  subst hs
  cases st' <;> cases h
  exact ⟨_, rfl⟩

namespace Device
variable {d d' : Device} {pins : Pins}

/-- The output of a switch is its setting. -/
def ShowsSetting (d : Device) : Prop :=
  ∀ initial setting, d.state = .switch initial setting → d.outputs.get? none = some setting

theorem InClosedForm.showsSetting {n : Nat} {settings : List Signal}
    (h : d.InClosedForm n settings) : d.ShowsSetting := by
  intro initial setting hs
  unfold InClosedForm at h
  simp only [hs] at h
  exact h.2

theorem ShowsSetting.inClosedForm (h : d.ShowsSetting) {initial setting : Signal}
    (hs : d.state = .switch initial setting) : d.InClosedForm 0 [setting] := by
  unfold InClosedForm
  simp only [hs]
  exact ⟨rfl, h initial setting hs⟩

theorem isTimeless_cases (h : d.WellFormed pins) (ht : d.kind.isTimeless = true) :
    d.kind.isGate = true ∨ ∃ initial setting, d.state = .switch initial setting := by
  have hfits := h.fits
  cases hk : d.kind <;> rw [hk] at ht hfits
  case switch =>
    cases hs : d.state <;> rw [hs] at hfits <;> first | exact Or.inr ⟨_, _, rfl⟩ | cases hfits
  case and | or | nand | nor | xor => exact Or.inl rfl
  all_goals cases ht

theorem advance_of_isTimeless (h : d.WellFormed pins) (ht : d.kind.isTimeless = true)
    (hshow : d.ShowsSetting) : d.advance = d := by
  rcases isTimeless_cases h ht with hg | ⟨initial, setting, hs⟩
  · rcases state_of_isGate h hg with ⟨n, hs⟩ | hs <;> simp only [advance, hs]
  · simp only [advance, hs, putOutput, h.outputs.put_eq_self (hshow initial setting hs)]
    rw [← hs]

theorem reset_of_isGate (h : d.WellFormed pins) (hg : d.kind.isGate = true) :
    d.state.reset = d.state := by
  rcases state_of_isGate h hg with ⟨n, hs⟩ | hs <;> rw [hs] <;> rfl

/-- Devices that are wired alike, with one output each, differ in its value or in their states. -/
theorem eq_of_value (h : d.WellFormed pins) (h' : d'.WellFormed pins) (hw : d'.wiring = d.wiring)
    (hpins : d.state.outputPins pins = [none]) (hstate : d'.state = d.state)
    (hvalue : d'.outputs.get? none = d.outputs.get? none) : d' = d := by
  obtain ⟨v, hv⟩ := outputs_of_outputPins h hpins
  obtain ⟨v', hv'⟩ := outputs_of_outputPins h' (hstate ▸ hpins)
  obtain ⟨hid, hkind, hin, -, -⟩ := wiring_eq_iff.1 hw
  refine ext_outputs hid hkind hin ?_ hstate
  rw [hv, hv'] at hvalue ⊢
  rw [Option.some.inj hvalue]

end Device

namespace Registry
variable {r r' : Registry}

/-- There are only switches and gates. -/
def IsTimeless (r : Registry) : Prop := ∀ d ∈ r.devices, d.kind.isTimeless = true

def ShowsSettings (r : Registry) : Prop := ∀ d ∈ r.devices, d.ShowsSetting

theorem IsTimeless.ne_dtype (h : r.IsTimeless) : ∀ d ∈ r.devices, d.kind ≠ .dtype := by
  intro d hd hk
  have ht := h d hd
  rw [hk] at ht
  cases ht

theorem IsTimeless.of_wiring_eq (h : r.IsTimeless) (hw : r'.wiring = r.wiring) :
    r'.IsTimeless := by
  intro d' hd'
  obtain ⟨d, hd, -, hkind, -⟩ := exists_of_wiring_eq hw hd'
  exact hkind ▸ h d hd

theorem advance_eq_self (h : r.WellFormed) (ht : r.IsTimeless) (hshow : r.ShowsSettings) :
    r.advance = r := by
  rw [advance, List.map_congr_left fun d hd =>
    Device.advance_of_isTimeless (h.devices d hd) (ht d hd) (hshow d hd), List.map_id']

/-- A cycle has nothing to do if switches show their settings and gates solve their equations. -/
theorem cycle_of_stable (h : r.WellFormed) (hf : r.floating = []) (ht : r.IsTimeless)
    (hshow : r.ShowsSettings) (hs : r.Stable r.gateValues) : cycle r = .ok 1 r := by
  have hsettle : settle r.advance = .ok 1 r := by
    rw [advance_eq_self h ht hshow]
    exact settle_of_stable h hf hs
  obtain ⟨hclocked, hlatches⟩ := clocked_eq_self h ht.ne_dtype
  rw [cycle_eq hf, phases_eq hsettle h hf, hlatches, hclocked]
  rfl

theorem setting?_of_mem (h : r.WellFormed) {d : Device} (hd : d ∈ r.devices)
    {initial setting : Signal} (hs : d.state = .switch initial setting) :
    r.setting? d.id = some setting := by
  rw [setting?, h.device?_of_mem hd, Option.map_some, hs]

theorem eq_of_devices (hw : r'.wiring = r.wiring)
    (h : ∀ d ∈ r.devices, ∀ d' ∈ r'.devices, d'.wiring = d.wiring → d' = d) : r' = r := by
  have hdevices : r'.devices = r.devices := by
    refine List.ext_getElem? fun i => ?_
    have hi := congrArg (·[i]?) (devices_eq_of_wiring_eq hw)
    simp only [List.getElem?_map] at hi
    cases hd : r.devices[i]? with
    | none =>
      rw [hd] at hi
      exact Option.map_eq_none_iff.1 hi
    | some d =>
      rw [hd, Option.map_some] at hi
      obtain ⟨d', hd', heq⟩ := Option.map_eq_some_iff.1 hi
      rw [hd', h d (List.mem_of_getElem? hd) d' (List.mem_of_getElem? hd') heq]
  have hpins := pins_eq_of_wiring_eq hw
  have hplaces := places_eq_of_wiring_eq hw
  cases r
  cases r'
  simp_all

/-- The settings and the values of the gates are all that such a circuit holds. -/
theorem eq_of_settings (h : r.WellFormed) (ht : r.IsTimeless) (hw : r'.wiring = r.wiring)
    (hshow : r.ShowsSettings) (hshow' : r'.ShowsSettings)
    (hset : ∀ id ∈ r.ids, r'.setting? id = r.setting? id)
    (hgates : ∀ d ∈ r.devices, d.kind.isGate = true → r'.gateValues d.id = r.gateValues d.id) :
    r' = r := by
  have h' := h.of_wiring_eq hw
  have hpins := pins_eq_of_wiring_eq hw
  refine eq_of_devices hw fun d hd d' hd' heq => ?_
  have hd₁ := h.devices d hd
  have hd₂ := hpins ▸ h'.devices d' hd'
  obtain ⟨hid, hkind, -, -, hreset⟩ := Device.wiring_eq_iff.1 heq
  rcases Device.isTimeless_cases hd₁ (ht d hd) with hg | ⟨initial, setting, hs⟩
  · refine Device.eq_of_value hd₁ hd₂ heq (Device.outputPins_of_isGate hd₁ hg) ?_ ?_
    · rw [← Device.reset_of_isGate hd₂ (hkind ▸ hg), hreset, Device.reset_of_isGate hd₁ hg]
    · rw [outputs_get?_none h' hd' (hkind ▸ hg), outputs_get?_none h hd hg, hid, hgates d hd hg]
  · obtain ⟨setting', hs'⟩ := State.exists_switch hreset hs
    have hsetting := hset d.id (List.mem_map_of_mem hd)
    rw [setting?_of_mem h hd hs, ← hid, setting?_of_mem h' hd' hs'] at hsetting
    obtain rfl := Option.some.inj hsetting
    refine Device.eq_of_value hd₁ hd₂ heq (by rw [hs]; rfl) (hs'.trans hs.symm) ?_
    rw [hshow d hd initial setting' hs, hshow' d' hd' initial setting' hs']

end Registry

/-! ### Switches show their settings -/

namespace Session
variable {s s' : Session} {op : Operation} {ops : List Operation}

/-- An operation that makes no device leaves each switch showing what it is set to then. -/
theorem showsSettings_of_ids (hs : s.Intact) (h : s.circuit.devices.ShowsSettings)
    (hop : op.isOnward = true)
    (hids : (s.perform op).2.circuit.devices.ids = s.circuit.devices.ids) :
    (s.perform op).2.circuit.devices.ShowsSettings := by
  intro d' hd' initial setting hstate
  obtain ⟨i, hi⟩ := List.getElem?_of_mem hd'
  have hid := congrArg (·[i]?) hids
  simp only [Registry.ids, List.getElem?_map, hi, Option.map_some] at hid
  obtain ⟨d, hd, -⟩ := Option.map_eq_some_iff.1 hid.symm
  have hmem := List.mem_of_getElem? hd
  obtain ⟨d₁, hd₁, hdd', hcourse⟩ := course_perform hs.sound hop hd
  obtain rfl := Option.some.inj (hd₁.symm.trans hi)
  obtain ⟨v, hv⟩ := State.exists_switch hdd'.parameter.symm hstate
  have hclosed := (h d hmem).inClosedForm hv
  exact (hclosed.course hcourse (hs.sound.wellFormed.devices d hmem) (hs.inRange d hmem)
    hdd').showsSetting initial setting hstate

theorem showsSettings_perform (hs : s.Intact) (h : s.circuit.devices.ShowsSettings)
    (hop : op.isDamage = false) : (s.perform op).2.circuit.devices.ShowsSettings := by
  cases op with
  | coldStart =>
    intro d' hd'
    obtain ⟨d, hd, rfl⟩ := List.mem_map.1 hd'
    exact (Device.inClosedForm_reset (hs.inRange d hd)).showsSetting
  | create kind id parameter =>
    rw [perform_create, Circuit.create]
    split
    · next r hc =>
      obtain ⟨-, d, hmake, rfl⟩ := Registry.create_eq_ok_iff.1 hc
      refine List.forall_mem_append.2 ⟨h, fun d' hd' => ?_⟩
      rw [List.mem_singleton.1 hd']
      exact (Device.inClosedForm_make hmake).showsSetting
    · exact h
  | connect source sourcePin target pin =>
    exact showsSettings_of_ids hs h rfl (hs.sound.wellFormed.ids_connect source sourcePin target pin)
  | eraseInput | eraseOutput | setKind => cases hop
  | intern | setSwitch | cycle | record | monitor | unmonitor | resetMonitors =>
    exact showsSettings_of_ids hs h rfl
      (Registry.ids_eq_of_wiring_eq (wiring_perform hs.sound rfl))

theorem Reachable.showsSettings (h : s.Reachable) : s.circuit.devices.ShowsSettings := by
  obtain ⟨names, ops, hops, rfl⟩ := h
  have hrun : ∀ s : Session, s.Intact → s.circuit.devices.ShowsSettings →
      (s.run ops).2.circuit.devices.ShowsSettings := by
    induction ops with
    | nil => exact fun _ _ h => h
    | cons op ops ih =>
      intro s hs h
      obtain ⟨hop, hops⟩ := List.forall_mem_cons.1 hops
      exact ih hops _ (hs.perform hop) (showsSettings_perform hs h hop)
  refine hrun _ (intact_start names) fun d hd => ?_
  rw [circuit_start] at hd
  cases hd

/-! ### Rest -/

/-- The circuit after a cycle that took one pass and changed nothing else. -/
def afterOnePass (s : Session) : Session :=
  { s with circuit := { s.circuit with lastPasses := 1 } }

/-- There are only switches and gates, and the gates have settled. -/
structure Rests (s : Session) : Prop where
  reachable : s.Reachable
  floating : s.circuit.devices.floating = []
  timeless : s.circuit.devices.IsTimeless
  stable : s.circuit.devices.Stable s.circuit.devices.gateValues

/-- What became of a session in which switches may have been set, but no gate has changed. -/
structure Idles (s s' : Session) : Prop where
  reachable : s'.Reachable
  wiring : s'.circuit.devices.wiring = s.circuit.devices.wiring
  gates : ∀ d ∈ s.circuit.devices.devices, d.kind.isGate = true →
    s'.circuit.devices.gateValues d.id = s.circuit.devices.gateValues d.id

/-- The switches of the one session are set the same way in the other. -/
def SameSettings (s s' : Session) : Prop :=
  ∀ id ∈ s.circuit.devices.ids, s'.circuit.devices.setting? id = s.circuit.devices.setting? id

instance (s s' : Session) : Decidable (s.SameSettings s') :=
  inferInstanceAs (Decidable (∀ id ∈ s.circuit.devices.ids, _))

/-- In the operations, from `s'` on, nothing is built or started over, and each cycle finds the
switches set as they are in `s`. -/
def Undisturbed (s s' : Session) : List Operation → Prop
  | [] => True
  | op :: ops => (op.keepsWiring = true ∧ op.isOnward = true) ∧ (op = .cycle → s.SameSettings s') ∧
      s.Undisturbed (s'.perform op).2 ops

instance decidableUndisturbed (s s' : Session) :
    (ops : List Operation) → Decidable (s.Undisturbed s' ops)
  | [] => inferInstanceAs (Decidable True)
  | op :: ops =>
    have := decidableUndisturbed s (s'.perform op).2 ops
    inferInstanceAs (Decidable (_ ∧ _ ∧ _))

theorem rests_of_cycle {passes : Nat} (hs : s.Reachable) (ht : s.circuit.devices.IsTimeless)
    (hcycle : s.perform .cycle = (.cycled passes, s')) : s'.Rests := by
  have hs' : s'.Reachable := by
    have hreached : (s.perform .cycle).2.Reachable := hs.perform rfl
    rwa [hcycle] at hreached
  have hwiring : s'.circuit.devices.wiring = s.circuit.devices.wiring := by
    have hkept : (s.perform .cycle).2.circuit.devices.wiring = s.circuit.devices.wiring :=
      wiring_perform hs.sound rfl
    rwa [hcycle] at hkept
  have hf : s'.circuit.devices.floating = [] := by
    have hcycled : (s.perform .cycle).1.isCycled = true := by rw [hcycle]; rfl
    obtain ⟨-, p, hc⟩ := cycle_of_isCycled hcycled
    exact (Registry.floating_of_wiring_eq hwiring).trans (Registry.floating_of_cycle hc)
  have hconsistent := (consistent_of_cycle hs).1 passes s' hcycle
  exact ⟨hs', hf, ht.of_wiring_eq hwiring,
    ((Registry.consistent_iff hs'.sound.wellFormed hf).1 hconsistent).1⟩

theorem Idles.devices_eq (hs : s.Rests) (h : s.Idles s')
    (hset : s.SameSettings s') : s'.circuit.devices = s.circuit.devices :=
  Registry.eq_of_settings hs.reachable.sound.wellFormed hs.timeless h.wiring
    hs.reachable.showsSettings h.reachable.showsSettings hset h.gates

theorem Rests.perform_cycle (hs : s.Rests) (heq : s'.circuit.devices = s.circuit.devices) :
    s'.perform .cycle = (.cycled 1, s'.afterOnePass) := by
  have hcycle := Registry.cycle_of_stable hs.reachable.sound.wellFormed hs.floating hs.timeless
    hs.reachable.showsSettings hs.stable
  rw [← heq] at hcycle
  exact perform_cycle_eq hcycle

theorem Idles.perform (hs : s.Rests) (h : s.Idles s')
    (hop : op.keepsWiring = true ∧ op.isOnward = true)
    (hset : op = .cycle → s.SameSettings s') : s.Idles (s'.perform op).2 := by
  obtain ⟨hkeeps, honward⟩ := hop
  refine ⟨h.reachable.perform (Operation.isDamage_of_keepsWiring hkeeps),
    (wiring_perform h.reachable.sound hkeeps).trans h.wiring, fun d hd hg => ?_⟩
  by_cases hcycle : op = .cycle
  · -- the switches have been set back, so the cycle changes nothing
    have heq := h.devices_eq hs (hset hcycle)
    rw [hcycle, hs.perform_cycle heq]
    exact h.gates d hd hg
  · have hstill : (s'.perform op).1.isCycled = false := by
      rw [Bool.eq_false_iff]
      exact fun hcycled => hcycle (isCycled_iff.1 hcycled).1
    rw [← h.gates d hd hg]
    exact Registry.eq_of_wiring_eq h.wiring.symm
      (fun d hd hg => gateValues_perform h.reachable.sound honward hstill hd hg) d hd hg

theorem Idles.run (hs : s.Rests) (h : s.Idles s') (hops : s.Undisturbed s' ops) :
    s.Idles (s'.run ops).2 := by
  induction ops generalizing s' with
  | nil => exact h
  | cons op ops ih =>
    obtain ⟨hop, hset, hops⟩ := hops
    exact ih (h.perform hs hop hset) hops

/-- A circuit of switches and gates rests once a cycle has succeeded, whatever loops the gates form.
Any number of further cycles take one pass each and leave all devices as they are. Switches may be
set in the meantime: if they are set back before the next cycle then the devices are as they were,
and the cycle leaves them so in one pass. -/
theorem quiescent (hs : s.Reachable) (ht : s.circuit.devices.IsTimeless) {passes : Nat}
    (hcycle : s.perform .cycle = (.cycled passes, s')) :
    (∀ n, ∃ s'', s'.run (List.replicate n .cycle) = (List.replicate n (.cycled 1), s'') ∧
      s''.circuit.devices = s'.circuit.devices) ∧
    ∀ ops, s'.Undisturbed s' ops → s'.SameSettings (s'.run ops).2 →
      (s'.run ops).2.circuit.devices = s'.circuit.devices ∧
        (s'.run ops).2.perform .cycle = (.cycled 1, (s'.run ops).2.afterOnePass) := by
  have hrests := rests_of_cycle hs ht hcycle
  constructor
  · intro n
    suffices hrun : ∀ s'' : Session, s''.circuit.devices = s'.circuit.devices →
        ∃ s₁, s''.run (List.replicate n .cycle) = (List.replicate n (.cycled 1), s₁) ∧
          s₁.circuit.devices = s'.circuit.devices from hrun s' rfl
    induction n with
    | zero => exact fun s'' heq => ⟨s'', rfl, heq⟩
    | succ n ih =>
      intro s'' heq
      obtain ⟨s₁, hrun, heq'⟩ := ih s''.afterOnePass heq
      refine ⟨s₁, ?_, heq'⟩
      rw [List.replicate_succ, run, hrests.perform_cycle heq]
      simp only [hrun]
      rfl
  · intro ops hops hset
    have hidles : s'.Idles (s'.run ops).2 :=
      Idles.run hrests ⟨hrests.reachable, rfl, fun _ _ _ => rfl⟩ hops
    have heq := hidles.devices_eq hrests hset
    exact ⟨heq, hrests.perform_cycle heq⟩

/-- Two NOR gates that hold each other, and the switches that set and reset them. The first switch has
set the pair, and is LOW again. -/
def norLatch : List Operation :=
  [.create .switch set (.ofString "1"), .create .switch reset (.ofString "0"),
    .create .nor hold (.ofString "2"), .create .nor hold' (.ofString "2"),
    .connect reset none hold Pin.i1, .connect hold' none hold Pin.i2,
    .connect set none hold' Pin.i1, .connect hold none hold' Pin.i2, .cycle, .setSwitch set false]
where
  set : NameId := 22
  reset : NameId := 23
  hold : NameId := 24
  hold' : NameId := 25

/-- The pair holds its value, and takes no notice of switches that are set back in time. -/
theorem quiescent_norLatch :
    let s := ((start {}).run norLatch).2
    let s' := (s.perform .cycle).2
    let set := Operation.setSwitch norLatch.set
    let reset := Operation.setSwitch norLatch.reset
    let ops := [.cycle, reset true, .record, set true, reset false, set false, .cycle, reset true,
      reset false]
    s'.circuit.devices.output? norLatch.hold none = some true ∧
      (s'.run (List.replicate 3 .cycle)).1 = List.replicate 3 (.cycled 1) ∧
      (s'.run ops).2.circuit.devices = s'.circuit.devices ∧
      ((s'.run ops).2.perform .cycle).1 = .cycled 1 := by
  intro s s' set reset ops
  have hs : s.Reachable := ⟨_, _, by decide, rfl⟩
  have ht : s.circuit.devices.IsTimeless := by
    unfold Registry.IsTimeless
    decide +kernel
  have hcycled : (s.perform .cycle).1 = .cycled 1 := by decide +kernel
  have hcycle : s.perform .cycle = (.cycled 1, s') := by rw [← hcycled]
  obtain ⟨hcycles, hundisturbed⟩ := quiescent hs ht hcycle
  obtain ⟨s₁, hrun, -⟩ := hcycles 3
  obtain ⟨heq, hnext⟩ := hundisturbed ops (by decide +kernel) (by decide +kernel)
  exact ⟨by decide +kernel, by rw [hrun], heq, by rw [hnext]⟩

end Session

end GateSim
