import GateSim.Proofs.Cold
import GateSim.Proofs.Course

/-!
# What sources show

Switches, clocks, RCs and generators read nothing, so what they show after a cold start is a matter of
how many cycles have succeeded since and, for a switch, of how it was set
(`Device.InClosedForm`, `Session.sources_of_coldStart`). Attempts that fail do not count.
-/

namespace GateSim

namespace State

/-- The device reads nothing. -/
def isSource : State → Bool
  | .switch _ _ | .clock _ _ | .rc _ _ | .siggen _ _ => true
  | .gate _ | .xor | .dtype _ _ => false

theorem isSource_reset (s : State) : s.reset.isSource = s.isSource := by cases s <;> rfl

end State

/-- What the operation sets a switch to. -/
def Operation.setting? (id : NameId) : Operation → Option Signal
  | .setSwitch id' v => if id' = id then some v else none
  | _ => none

/-- What operations set a switch to, one after the other. -/
def Operation.settings (id : NameId) (ops : List Operation) : List Signal :=
  ops.filterMap (·.setting? id)

theorem Operation.settings_cons (id : NameId) (op : Operation) (ops : List Operation) :
    settings id (op :: ops) = (op.setting? id).toList ++ settings id ops := by
  rw [settings, List.filterMap_cons]
  cases op.setting? id <;> rfl

namespace Device
variable {d d' : Device} {pins : Pins} {n : Nat} {settings : List Signal}

/-- If the device is a source then it is as it should be after so many cycles since a cold start,
with these settings since then, the latest last. -/
def InClosedForm (n : Nat) (settings : List Signal) (d : Device) : Prop :=
  match d.state with
  | .switch initial setting =>
    setting = settings.getLast?.getD initial ∧ d.outputs.get? none = some setting
  | .clock halfPeriod counter =>
    counter = n % halfPeriod ∧ d.outputs.get? none = some (n / halfPeriod % 2 == 1)
  | .rc period countdown =>
    countdown = period - n ∧ d.outputs.get? none = some (decide (n ≤ period))
  | .siggen waveform cursor =>
    cursor = n % waveform.length ∧ ∃ v, d.outputs.get? none = some v ∧
      waveform[if n = 0 then 0 else (n - 1) % waveform.length]? = some v
  | .gate _ | .xor | .dtype _ _ => True

theorem inClosedForm_of_not_source (h : d.state.isSource = false) : d.InClosedForm n settings := by
  unfold InClosedForm
  cases hs : d.state <;> simp_all [State.isSource]

theorem InClosedForm.congr (h : d.InClosedForm n settings) (hstate : d'.state = d.state)
    (houtputs : d'.outputs = d.outputs) : d'.InClosedForm n settings := by
  unfold InClosedForm at h ⊢
  rwa [hstate, houtputs]

/-! ### The start -/

/-- A device in the state in which it starts, with the outputs that it starts with. -/
theorem inClosedForm_start {m : PinMap OutputPin Signal} (hr : d.state.InRange)
    (hreset : d.state.reset = d.state)
    (hout : d.outputs = PinMap.putAll (d.state.startOutputs pins) m) : d.InClosedForm 0 [] := by
  unfold InClosedForm
  cases hs : d.state <;> rw [hs] at hr hreset hout <;>
    simp only [State.reset, State.switch.injEq, State.clock.injEq, State.rc.injEq,
      State.siggen.injEq, true_and] at hreset <;>
    simp only [hout, PinMap.get?_putAll, State.startOutputs, List.reverse_singleton,
      List.lookup_cons_self, Option.some_or]
  case switch initial setting => exact ⟨hreset.symm, by rw [hreset]⟩
  case clock halfPeriod counter => simp [hreset.symm]
  case rc period countdown => simp [hreset]
  case siggen waveform cursor =>
    obtain ⟨hne, -⟩ := hr
    obtain ⟨v, vs, rfl⟩ := List.exists_cons_of_ne_nil hne
    exact ⟨by simp [hreset.symm], v, rfl, rfl⟩

theorem inClosedForm_reset (hr : d.state.InRange) : (d.reset pins).InClosedForm 0 [] := by
  have hout : (d.reset pins).outputs =
      PinMap.putAll ((d.reset pins).state.startOutputs pins) d.outputs := by
    rw [reset_eq_start, State.startOutputs_reset]
  exact inClosedForm_start hr.reset (State.reset_reset _) hout

theorem inClosedForm_make {kind : Kind} {id : NameId} {parameter : Text}
    (h : make pins kind id parameter = .ok d) : d.InClosedForm 0 [] := by
  have hr := inRange_make h
  obtain ⟨s, hs, heq⟩ := make_eq_ok_iff.1 h
  have hout : d.outputs = PinMap.putAll (d.state.startOutputs pins) [] := by rw [heq]
  have hreset : d.state.reset = d.state := by rw [heq, (State.fits_of_ofParameter hs).2]
  exact inClosedForm_start hr hreset hout

/-! ### One more cycle -/

/-- The counter of a clock is back at zero when its half period is full, and the clock turns over
then. -/
theorem succ_div_mod {h n : Nat} (hn : n % h < h) :
    (h ≤ n % h + 1 → (n + 1) % h = 0 ∧ (n + 1) / h = n / h + 1) ∧
      (¬ h ≤ n % h + 1 → (n + 1) % h = n % h + 1 ∧ (n + 1) / h = n / h) := by
  have hpos : 0 < h := Nat.zero_lt_of_lt hn
  have hsplit : n + 1 = (n % h + 1) + h * (n / h) := by
    rw [Nat.add_right_comm, Nat.mod_add_div]
  rw [hsplit, Nat.add_mul_mod_self_left, Nat.add_mul_div_left _ _ hpos]
  constructor
  · intro hfull
    have heq : n % h + 1 = h := Nat.le_antisymm hn hfull
    rw [heq, Nat.mod_self, Nat.div_self hpos]
    omega
  · intro hlt
    rw [Nat.mod_eq_of_lt (Nat.lt_of_not_le hlt), Nat.div_eq_of_lt (Nat.lt_of_not_le hlt)]
    omega

/-- The step of a source takes it from one closed form to the next. -/
theorem InClosedForm.advance (hr : d.state.InRange) (h : d.InClosedForm n settings) :
    d.advance.InClosedForm (n + 1) settings := by
  unfold InClosedForm at h
  cases hs : d.state with
  | switch initial setting =>
    simp only [hs] at h
    simp only [Device.advance, hs, InClosedForm, putOutput, PinMap.get?_put]
    exact ⟨h.1, rfl⟩
  | clock halfPeriod counter =>
    rw [hs] at hr
    simp only [hs] at h
    obtain ⟨rfl, hout⟩ := h
    obtain ⟨hfull, hlater⟩ := succ_div_mod hr.2.2
    have hvalue : d.value = (n / halfPeriod % 2 == 1) := by rw [value, hout]; rfl
    by_cases hle : halfPeriod ≤ n % halfPeriod + 1
    · obtain ⟨hmod, hdiv⟩ := hfull hle
      simp only [Device.advance, hs, if_pos hle, InClosedForm, putOutput, PinMap.get?_put, hvalue,
        hmod, hdiv, true_and, beq_self_eq_true, if_true, Option.some.injEq]
      rcases Nat.mod_two_eq_zero_or_one (n / halfPeriod) with heven | hodd <;>
        simp [Nat.add_mod, *]
    · obtain ⟨hmod, hdiv⟩ := hlater hle
      simp only [Device.advance, hs, if_neg hle, InClosedForm, hmod, hdiv, true_and]
      exact hout
  | rc period countdown =>
    simp only [hs] at h
    obtain ⟨hcountdown, -⟩ := h
    cases countdown with
    | zero =>
      simp only [Device.advance, hs, InClosedForm, putOutput, PinMap.get?_put]
      exact ⟨by omega, by simp; omega⟩
    | succ countdown =>
      simp only [Device.advance, hs, InClosedForm, putOutput, PinMap.get?_put]
      exact ⟨by omega, by simp; omega⟩
  | siggen waveform cursor =>
    rw [hs] at hr
    simp only [hs] at h
    obtain ⟨rfl, -⟩ := h
    simp only [Device.advance, hs, InClosedForm, putOutput, PinMap.get?_put, Nat.mod_add_mod,
      true_and, if_neg (Nat.succ_ne_zero n), Nat.add_sub_cancel]
    exact ⟨_, rfl, by simp [hr.2]⟩
  | gate _ | xor | dtype _ _ =>
    have hstate : d.advance.state = d.state := by simp only [Device.advance, hs]
    exact inClosedForm_of_not_source (by rw [hstate, hs]; rfl)

/-! ### One operation -/

theorem isGate_of_isSource (hw : d.WellFormed pins) (h : d.state.isSource = true) :
    d.kind.isGate = false := by
  rw [Bool.eq_false_iff]
  intro hg
  rcases state_of_isGate hw hg with ⟨n, hs⟩ | hs <;> rw [hs] at h <;> cases h

theorem clockDevice_of_isSource {r : Registry} (h : d.state.isSource = true) :
    r.clockDevice d = d := by
  unfold Registry.clockDevice
  cases hs : d.state <;> simp_all [State.isSource]

/-- What is set is the closed form of a switch, and no other source takes notice of it. -/
theorem InClosedForm.heed (h : d.InClosedForm n settings) (op : Operation) :
    (d.heed op).InClosedForm n (settings ++ (op.setting? d.id).toList) := by
  unfold InClosedForm at h
  cases hs : d.state with
  | switch initial setting =>
    simp only [hs] at h
    cases op with
    | setSwitch id v =>
      by_cases hid : d.id = id
      · simp only [Device.heed, hs, if_pos hid, Operation.setting?, if_pos hid.symm, InClosedForm,
          putOutput, PinMap.get?_put]
        simp
      · simp only [Device.heed, hs, if_neg hid, Operation.setting?, if_neg (Ne.symm hid),
          InClosedForm, Option.toList_none, List.append_nil]
        exact h
    | _ => simpa only [Device.heed, InClosedForm, hs, Operation.setting?, Option.toList_none,
        List.append_nil] using h
  | _ =>
    rw [heed_of_not_switch fun initial setting heq => by rw [hs] at heq; cases heq]
    unfold InClosedForm
    rw [hs] at h ⊢
    exact h

theorem InClosedForm.course {s : Session} {op : Operation} (hc : d.Course s op d')
    (hw : d.WellFormed pins) (hr : d.state.InRange) (hd : d.Continues d')
    (h : d.InClosedForm n settings) :
    d'.InClosedForm (n + if (s.perform op).1.isCycled then 1 else 0)
      (settings ++ (op.setting? d.id).toList) := by
  cases hsource : d.state.isSource with
  | false =>
    have hsource' : d'.state.isSource = false := by
      rw [← State.isSource_reset, hd.parameter, State.isSource_reset, hsource]
    exact inClosedForm_of_not_source hsource'
  | true =>
    cases hc with
    | cycled f g hcycled heq =>
      obtain ⟨rfl, -⟩ := Session.cycle_of_isCycled hcycled
      have hwiring := wiring_advance hw
      have hadvance : d.advance.state.isSource = true := by
        obtain ⟨-, -, -, -, hreset⟩ := wiring_eq_iff.1 hwiring
        rw [← State.isSource_reset, hreset, State.isSource_reset, hsource]
      have hgate := isGate_of_isSource
        (wellFormed_wiring.1 (hwiring ▸ wellFormed_wiring.2 hw)) hadvance
      -- the gates and the flip-flops are none of its business
      have heq' : d' = d.advance := by
        rw [heq, setGate_of_not_isGate hgate, clockDevice_of_isSource hadvance,
          setGate_of_not_isGate hgate]
      rw [heq', if_pos hcycled]
      simpa only [Operation.setting?, Option.toList_none, List.append_nil] using h.advance hr
    | still hstill hstate houtputs =>
      rw [if_neg (by rw [hstill]; exact Bool.false_ne_true), Nat.add_zero]
      exact (h.heed op).congr hstate houtputs

end Device

/-! ### Whole runs -/

namespace Session
variable {s : Session}

/-- A device that is in closed form is so after any operations, with as many more cycles as succeed
in them. -/
theorem inClosedForm_run (hs : s.Intact) {ops : List Operation}
    (hops : ∀ op ∈ ops, op.isOnward = true) {i : Nat} {d : Device} {n : Nat}
    {settings : List Signal} (hd : s.circuit.devices.devices[i]? = some d)
    (h : d.InClosedForm n settings) :
    ∃ d', (s.run ops).2.circuit.devices.devices[i]? = some d' ∧ d.Continues d' ∧
      d'.InClosedForm (n + s.cyclesIn ops) (settings ++ Operation.settings d.id ops) := by
  induction ops generalizing s d n settings with
  | nil => exact ⟨d, hd, .refl d, by simpa [Operation.settings, cyclesIn, run] using h⟩
  | cons op ops ih =>
    obtain ⟨hop, hops⟩ := List.forall_mem_cons.1 hops
    have hmem := List.mem_of_getElem? hd
    obtain ⟨d₁, hd₁, hdd₁, hcourse⟩ := course_perform hs.sound hop hd
    have h₁ := h.course hcourse (hs.sound.wellFormed.devices d hmem) (hs.inRange d hmem) hdd₁
    obtain ⟨d', hd', hdd', h'⟩ := ih (hs.perform (Operation.isDamage_of_isOnward hop)) hops hd₁ h₁
    refine ⟨d', hd', hdd₁.trans hdd', ?_⟩
    rw [hdd₁.id] at h'
    rwa [cyclesIn_cons, ← Nat.add_assoc, Operation.settings_cons, ← List.append_assoc]

theorem exists_make_of_created {s' : Session} {kind : Kind} {id : NameId} {parameter : Text}
    (h : s.perform (.create kind id parameter) = (.created none, s')) :
    ∃ d, Device.make s.circuit.devices.pins kind id parameter = .ok d ∧
      d ∈ s'.circuit.devices.devices := by
  rw [perform, Circuit.create] at h
  cases hc : s.circuit.devices.create kind id parameter with
  | error f => simp [hc] at h
  | ok r =>
    obtain ⟨-, d, hmake, rfl⟩ := Registry.create_eq_ok_iff.1 hc
    simp only [hc, Prod.mk.injEq, true_and] at h
    rw [← h]
    exact ⟨d, hmake, List.mem_append_right _ (List.mem_singleton_self d)⟩

theorem exists_inClosedForm (hs : s.Intact) {ops : List Operation}
    (hops : ∀ op ∈ ops, op.isOnward = true) {d : Device} (hd : d ∈ s.circuit.devices.devices)
    (h : d.InClosedForm 0 []) :
    ∃ d', (s.run ops).2.circuit.devices.device? d.id = some d' ∧ d.Continues d' ∧
      d'.state.fits d'.kind = true ∧
      d'.InClosedForm (s.cyclesIn ops) (Operation.settings d.id ops) := by
  obtain ⟨i, hi⟩ := List.getElem?_of_mem hd
  obtain ⟨d', hd', hdd', h'⟩ := inClosedForm_run hs hops hi h
  have hw := (hs.run_onward hops).sound.wellFormed
  have hmem := List.mem_of_getElem? hd'
  rw [Nat.zero_add, List.nil_append] at h'
  exact ⟨d', hdd'.id ▸ hw.device?_of_mem hmem, hdd', (hw.devices d' hmem).fits, h'⟩

/-- After a cold start, and after any operations since then, a source is in the closed form that
belongs to the number of cycles that have succeeded. So is a source that is made later, as if there
had been a cold start when it was made. -/
theorem sources_of_coldStart (hs : s.Reachable) {ops : List Operation}
    (hops : ∀ op ∈ ops, op.isOnward = true) :
    (∀ d ∈ s.circuit.devices.devices, ∃ d',
      ((s.perform .coldStart).2.run ops).2.circuit.devices.device? d.id = some d' ∧
      d.Continues d' ∧ d'.state.fits d'.kind = true ∧
      d'.InClosedForm ((s.perform .coldStart).2.cyclesIn ops) (Operation.settings d.id ops)) ∧
    ∀ kind id parameter s', s.perform (.create kind id parameter) = (.created none, s') →
      ∃ d', (s'.run ops).2.circuit.devices.device? id = some d' ∧ d'.kind = kind ∧
        State.ofParameter kind parameter = .ok d'.state.reset ∧ d'.state.fits d'.kind = true ∧
        d'.InClosedForm (s'.cyclesIn ops) (Operation.settings id ops) := by
  have hintact := hs.intact
  constructor
  · intro d hd
    have hcold : d.reset s.circuit.devices.pins ∈
        (s.perform .coldStart).2.circuit.devices.devices := List.mem_map_of_mem hd
    obtain ⟨d', hd', hdd', hfits, h'⟩ := exists_inClosedForm (hintact.perform rfl) hops hcold
      (Device.inClosedForm_reset (hintact.inRange d hd))
    have hreset := Device.wiring_reset (hintact.sound.wellFormed.devices d hd)
    exact ⟨d', hd', (Device.continues_of_wiring_eq hreset).trans hdd', hfits, h'⟩
  · intro kind id parameter s' hcreate
    obtain ⟨d, hmake, hd⟩ : ∃ d, Device.make s.circuit.devices.pins kind id parameter = .ok d ∧
        d ∈ s'.circuit.devices.devices := exists_make_of_created hcreate
    have hs' : s'.Intact := by
      have hmade : (s.perform (.create kind id parameter)).2.Intact := hintact.perform rfl
      rwa [hcreate] at hmade
    have hstart := Device.inClosedForm_make hmake
    obtain ⟨state, hstate, rfl⟩ := Device.make_eq_ok_iff.1 hmake
    obtain ⟨d', hd', hdd', hfits, h'⟩ := exists_inClosedForm hs' hops hd hstart
    have hparameter : d'.state.reset = state :=
      hdd'.parameter.trans (State.fits_of_ofParameter hstate).2
    exact ⟨d', hd', hdd'.kind, hparameter ▸ hstate, hfits, h'⟩

/-- A source of each kind, and a gate that feeds back on itself while a second switch is HIGH. -/
def eachSource : List Operation :=
  [.create .switch switch (.ofString "0"), .create .clock clock (.ofString "3"),
    .create .rc rc (.ofString "2"), .create .siggen siggen (.ofString "011"),
    .create .switch enable (.ofString "0"), .create .nand gate (.ofString "2"),
    .connect enable none gate Pin.i1, .connect gate none gate Pin.i2, .setSwitch switch true,
    .cycle, .cycle]
where
  switch : NameId := 22
  clock : NameId := 23
  rc : NameId := 24
  siggen : NameId := 25
  enable : NameId := 26
  gate : NameId := 27
  later : NameId := 28
  sources : List NameId := [switch, clock, rc, siggen, later]

theorem sources_of_coldStart_eachSource :
    let s := ((start {}).run eachSource).2
    let ops := [.cycle, .setSwitch eachSource.enable true, .cycle,
      .setSwitch eachSource.enable false, .cycle, .cycle, .setSwitch eachSource.switch true,
      .create .clock eachSource.later (.ofString "1"), .cycle]
    (∀ d ∈ s.circuit.devices.devices, ∃ d',
      ((s.perform .coldStart).2.run ops).2.circuit.devices.device? d.id = some d' ∧
        d'.InClosedForm 4 (Operation.settings d.id ops)) ∧
      eachSource.sources.map
          (((s.perform .coldStart).2.run ops).2.circuit.devices.output? · none) =
        [some true, some true, some false, some false, some true] := by
  intro s ops
  have hs : s.Reachable := ⟨_, _, by decide, rfl⟩
  have hops : ∀ op ∈ ops, op.isOnward = true := by decide
  have hcycles : (s.perform .coldStart).2.cyclesIn ops = 4 := by decide +kernel
  refine ⟨fun d hd => ?_, by decide +kernel⟩
  obtain ⟨d', hd', -, -, h'⟩ := (sources_of_coldStart hs hops).1 d hd
  rw [hcycles] at h'
  exact ⟨d', hd', h'⟩

end Session

end GateSim
