import GateSim.Proofs.CycleFault
import GateSim.Proofs.Parameter
import GateSim.Proofs.Restart

/-!
# Creation

`Kind.Starts` lists what each kind accepts as a parameter and the state in which a device of the kind
starts with it; these are exactly the parameters that are read (`State.ofParameter_eq_ok_iff`). So
whether a device is made is settled by its id first and by its parameter then, and either it comes
behind all others, with nothing connected, or nothing changes (`Session.create_exact`).
-/

namespace GateSim

/-! ### Parameters -/

/-- A signal as it is written in a parameter. -/
def bitByte (v : Signal) : Byte := if v then '1'.toUInt8 else '0'.toUInt8

/-- The parameters that a kind accepts, and the state in which a device of the kind starts with
each. -/
inductive Kind.Starts : Kind → Text → State → Prop
  | switch (v : Signal) : Starts .switch [bitByte v] (.switch v v)
  | clock {t : Text} {n : Nat} (ht : t.Denotes n) (hl : t.length ≤ 9) (hn : n ≠ 0) :
    Starts .clock t (.clock n 0)
  | rc {t : Text} {n : Nat} (ht : t.Denotes n) (hl : t.length ≤ 9) (hn : n ≠ 0) :
    Starts .rc t (.rc n n)
  | gate {kind : Kind} {t : Text} {n : Nat} (hk : kind.isCountedGate = true) (ht : t.Denotes n)
    (hl : t.length ≤ 9) (hn : 1 ≤ n ∧ n ≤ 16) : Starts kind t (.gate n)
  | xor : Starts .xor [] .xor
  | dtype : Starts .dtype [] (.dtype false false)
  | siggen {waveform : List Signal} (hw : waveform ≠ []) :
    Starts .siggen (waveform.map bitByte) (.siggen waveform 0)

theorem bind_eq_ok_iff {ε α β : Type} {x : Except ε α} {f : α → Except ε β} {b : β} :
    (x >>= f) = .ok b ↔ ∃ a, x = .ok a ∧ f a = .ok b := by
  cases x <;> simp [bind, Except.bind]

namespace Quantity
variable {q : Quantity} {t : Text} {n : Nat}

theorem read_eq_ok_iff : q.read t = .ok n ↔ t.Denotes n ∧ t.length ≤ 9 := by
  rw [Text.denotes_iff, Text.IsNumber, ← List.all_eq_true, ← List.isEmpty_eq_false_iff, read,
    maxDigits]
  by_cases hempty : t.isEmpty = true
  · simp [hempty]
  · by_cases hlength : 9 < t.length
    · simp [hempty, hlength]
    · by_cases hdigits : t.all Byte.isDigit = true
      · simp [hempty, hdigits, hlength, Nat.not_lt.1 hlength]
      · simp [hempty, hlength, hdigits]

theorem readPositive_eq_ok_iff :
    q.readPositive t = .ok n ↔ (t.Denotes n ∧ t.length ≤ 9) ∧ n ≠ 0 := by
  rw [readPositive, bind_eq_ok_iff]
  constructor
  · rintro ⟨m, hread, heq⟩
    split at heq
    · cases heq
    · next hm =>
      cases heq
      exact ⟨read_eq_ok_iff.1 hread, hm⟩
  · rintro ⟨hread, hn⟩
    exact ⟨n, read_eq_ok_iff.2 hread, if_neg hn⟩

end Quantity

namespace State
variable {kind : Kind} {t : Text} {s : State}

theorem all_bits_iff : (t.all fun b => b == '0'.toUInt8 || b == '1'.toUInt8) = true ↔
    (t.map (· == '1'.toUInt8)).map bitByte = t := by
  induction t with
  | nil => simp
  | cons b t ih =>
    rw [List.all_cons, Bool.and_eq_true, ih, List.map_cons, List.map_cons, List.cons.injEq]
    refine and_congr_left fun _ => ?_
    by_cases hb : b = '1'.toUInt8
    · simp [bitByte, hb]
    · simp only [bitByte, beq_eq_false_iff_ne.2 hb, Bool.or_false, beq_iff_eq, Bool.false_eq_true,
        if_false]
      exact eq_comm

theorem map_bitByte (waveform : List Signal) :
    (waveform.map bitByte).map (· == '1'.toUInt8) = waveform := by
  rw [List.map_map]
  refine (List.map_congr_left fun v _ => ?_).trans (List.map_id waveform)
  cases v <;> decide

theorem starts_of_ofParameter (h : ofParameter kind t = .ok s) : kind.Starts t s := by
  have hgate (hk : kind.isCountedGate = true) : kind.Starts t s := by
    rw [ofParameter_eq_bind hk] at h
    obtain ⟨n, hread, heq⟩ := bind_eq_ok_iff.1 h
    obtain ⟨ht, hl⟩ := Quantity.read_eq_ok_iff.1 hread
    split at heq
    · cases heq
    · next hn =>
      cases heq
      rw [PinWord.maxGateInputs] at hn
      exact .gate hk ht hl (by omega)
  cases kind with
  | switch =>
    simp only [ofParameter] at h
    split at h
    · next ht =>
      cases h
      exact ht ▸ .switch false
    split at h
    · next ht =>
      cases h
      exact ht ▸ .switch true
    · cases h
  | clock =>
    obtain ⟨n, hread, heq⟩ := bind_eq_ok_iff.1 h
    obtain ⟨⟨ht, hl⟩, hn⟩ := Quantity.readPositive_eq_ok_iff.1 hread
    cases heq
    exact .clock ht hl hn
  | rc =>
    obtain ⟨n, hread, heq⟩ := bind_eq_ok_iff.1 h
    obtain ⟨⟨ht, hl⟩, hn⟩ := Quantity.readPositive_eq_ok_iff.1 hread
    cases heq
    exact .rc ht hl hn
  | and | or | nand | nor => exact hgate rfl
  | xor =>
    cases t with
    | nil =>
      cases h
      exact .xor
    | cons b t => cases h
  | dtype =>
    cases t with
    | nil =>
      cases h
      exact .dtype
    | cons b t => cases h
  | siggen =>
    simp only [ofParameter] at h
    split at h
    · cases h
    split at h
    · next hne hbits =>
      cases h
      have hwaveform : t.map (· == '1'.toUInt8) ≠ [] := by simpa using hne
      have hstarts := Kind.Starts.siggen hwaveform
      rwa [all_bits_iff.1 hbits] at hstarts
    · cases h

theorem ofParameter_of_starts (h : kind.Starts t s) : ofParameter kind t = .ok s := by
  cases h with
  | switch v => cases v <;> rfl
  | clock ht hl hn =>
    exact bind_eq_ok_iff.2 ⟨_, Quantity.readPositive_eq_ok_iff.2 ⟨⟨ht, hl⟩, hn⟩, rfl⟩
  | rc ht hl hn =>
    exact bind_eq_ok_iff.2 ⟨_, Quantity.readPositive_eq_ok_iff.2 ⟨⟨ht, hl⟩, hn⟩, rfl⟩
  | gate hk ht hl hn =>
    rw [ofParameter_eq_bind hk]
    refine bind_eq_ok_iff.2 ⟨_, Quantity.read_eq_ok_iff.2 ⟨ht, hl⟩, if_neg ?_⟩
    rw [PinWord.maxGateInputs]
    omega
  | xor => rfl
  | dtype => rfl
  | @siggen waveform hw =>
    have hbits := all_bits_iff.2 (congrArg (List.map bitByte) (map_bitByte waveform))
    have hne : (waveform.map bitByte).isEmpty = false := by simpa using hw
    simp only [ofParameter, hne, hbits, Bool.false_eq_true, if_false, if_true, map_bitByte]

/-- What is read as a parameter of a kind is what the kind accepts. -/
theorem ofParameter_eq_ok_iff : ofParameter kind t = .ok s ↔ kind.Starts t s :=
  ⟨starts_of_ofParameter, ofParameter_of_starts⟩

theorem ofParameter_error (h : ∀ s, ¬ kind.Starts t s) : ∃ f, ofParameter kind t = .error f := by
  cases hs : ofParameter kind t with
  | error f => exact ⟨f, rfl⟩
  | ok s => exact absurd (ofParameter_eq_ok_iff.1 hs) (h s)

end State

/-! ### Devices -/

/-- A device as it is made: it has the pins of its kind, no input has a source, and the outputs are
those of a cold device. -/
structure Device.IsNew (pins : Pins) (kind : Kind) (id : NameId) (s : State) (d : Device) :
    Prop where
  id : d.id = id
  kind : d.kind = kind
  state : d.state = s
  inputs : ∀ pin, d.inputs.get? pin = if pin ∈ s.inputPins pins then some none else none
  wellFormed : d.WellFormed pins
  cold : d.reset pins = d

theorem Device.exists_isNew (pins : Pins) (id : NameId) {kind : Kind} {t : Text} {s : State}
    (h : kind.Starts t s) : ∃ d, make pins kind id t = .ok d ∧ d.IsNew pins kind id s := by
  have hs := State.ofParameter_eq_ok_iff.2 h
  obtain ⟨d, hmake⟩ : ∃ d, make pins kind id t = .ok d :=
    ⟨_, make_eq_ok_iff.2 ⟨s, hs, rfl⟩⟩
  have hwell := wellFormed_make hmake
  have hcold := reset_make hmake
  obtain ⟨s', hs', rfl⟩ := make_eq_ok_iff.1 hmake
  obtain rfl : s = s' := Except.ok.inj (hs.symm.trans hs')
  refine ⟨_, hmake, rfl, rfl, rfl, fun pin => ?_, hwell, hcold⟩
  have hmem := hwell.mem_inputs pin
  cases hget : PinMap.get? (PinMap.putAll ((s.inputPins pins).map (·, none)) []) pin with
  | none => exact (if_neg fun hpin => PinMap.get?_eq_none_iff.1 hget (hmem.2 hpin)).symm
  | some source =>
    obtain rfl := get?_inputs_make hmake hget
    exact (if_pos (hmem.1 (List.mem_map_of_mem (PinMap.mem_of_get? hget)))).symm

namespace Registry
variable {r r' : Registry} {kind : Kind} {id id' : NameId} {t : Text}

/-- The device that is found for another id is the same. -/
theorem WellFormed.device?_create (h : r.WellFormed) (hc : r.create kind id t = .ok r')
    (hne : id' ≠ id) : r'.device? id' = r.device? id' := by
  obtain ⟨-, d, -, rfl⟩ := create_eq_ok_iff.1 hc
  rw [device?, device?, List.lookup_cons, beq_eq_false_iff_ne.2 hne]
  cases hi : r.places.lookup id' with
  | none => rfl
  | some i =>
    obtain ⟨hlt, -⟩ := List.getElem?_eq_some_iff.1 ((h.places id' i).1 hi)
    rw [length_ids] at hlt
    exact List.getElem?_append_left hlt

end Registry

/-! ### Sessions -/

namespace Session
variable {s : Session} {kind : Kind} {id : NameId} {t : Text}

theorem perform_create_of_ok {r : Registry} (hc : s.circuit.devices.create kind id t = .ok r) :
    s.perform (.create kind id t) =
      (.created none, { s with circuit := { s.circuit with devices := r } }) := by
  simp only [perform, Circuit.create, hc]

theorem perform_create_of_error {f : CreateFault}
    (hc : s.circuit.devices.create kind id t = .error f) :
    s.perform (.create kind id t) = (.created (some (f.report s.names)), s) := by
  simp only [perform, Circuit.create, hc]

/-- To make a device fails if its id is taken, whatever the parameter, and otherwise if its kind does
not accept the parameter; then nothing changes. Else the device comes behind all others, in the state
that its parameter stands for and with nothing connected, and nothing else changes. An id that is
taken has a name to blame if devices were made for names. -/
theorem create_exact (s : Session) (kind : Kind) (id : NameId) (t : Text) :
    let r := s.circuit.devices
    let reply := (s.perform (.create kind id t)).1
    let s' := (s.perform (.create kind id t)).2
    (r.has id = true → s' = s ∧ ∀ name, s.names.text? id = some name →
      reply = .created (some (.duplicateDevice
        (.ofString "Device " ++ name ++ .ofString " already exists")))) ∧
    (r.has id = false → (∀ st, ¬ kind.Starts t st) → s' = s ∧
      ∃ fault : ParameterFault, reply = .created (some (.invalidParameter fault.message))) ∧
    (r.has id = false → ∀ st, kind.Starts t st → reply = .created none ∧
      ∃ d, d.IsNew r.pins kind id st ∧ s' = { s with circuit := { s.circuit with devices :=
        { r with devices := r.devices ++ [d], places := (id, r.size) :: r.places } } }) ∧
    (s.Reachable → (r.has id = true ↔ ∃ d ∈ r.devices, d.id = id) ∧
      ∀ id', id' ≠ id → s'.circuit.devices.device? id' = r.device? id') ∧
    (s.NamedReachable → r.has id = true → ∃ name, s.names.text? id = some name) := by
  intro r reply s'
  refine ⟨fun hid => ?_, fun hid ht => ?_, fun hid st ht => ?_, fun hs => ⟨?_, fun id' hne => ?_⟩,
    fun hs hid => ?_⟩
  · have hp : s.perform _ = _ := perform_create_of_error (if_pos hid : r.create kind id t = _)
    refine ⟨congrArg Prod.snd hp, fun name hname => (congrArg Prod.fst hp).trans ?_⟩
    simp only [CreateFault.report, NameTable.text, hname]
  · obtain ⟨f, hf⟩ := State.ofParameter_error ht
    have hmake : Device.make r.pins kind id t = .error f := by rw [Device.make, hf]; rfl
    have hc : r.create kind id t = .error (.parameter f) := by
      simp only [Registry.create, hid, hmake, Bool.false_eq_true, if_false]
    have hp := perform_create_of_error hc
    exact ⟨congrArg Prod.snd hp, f, congrArg Prod.fst hp⟩
  · obtain ⟨d, hmake, hd⟩ := Device.exists_isNew r.pins id ht
    have hp := perform_create_of_ok (Registry.create_eq_ok_iff.2 ⟨hid, d, hmake, rfl⟩)
    exact ⟨congrArg Prod.fst hp, d, hd, congrArg Prod.snd hp⟩
  · rw [hs.sound.wellFormed.has_iff, Registry.ids, List.mem_map]
  · cases hc : r.create kind id t with
    | error f =>
      exact congrArg (fun p => p.2.circuit.devices.device? id') (perform_create_of_error hc)
    | ok r' =>
      have hp := congrArg (fun p => p.2.circuit.devices.device? id') (perform_create_of_ok hc)
      exact hp.trans (hs.sound.wellFormed.device?_create hc hne)
  · have hmem := hs.reachable.sound.wellFormed.has_iff.1 hid
    obtain ⟨name, hname, rfl⟩ := hs.named id hmem
    exact ⟨name, NameTable.text?_idOf hname⟩

/-- A switch is there. Its id is taken whatever is to be made, ten digits are too many for a clock, and
a gate may be declared with a zero before its number of inputs. -/
theorem create_exact_switch :
    let switch : NameId := 22
    let gate : NameId := 23
    let s := ((start {}).run [.intern (.ofString "S"), .intern (.ofString "G"),
      .create .switch switch (.ofString "1")]).2
    s.perform (.create .xor switch (.ofString "x")) =
        (.created (some (.duplicateDevice (.ofString "Device S already exists"))), s) ∧
      (s.perform (.create .clock gate (.ofString "0000000002"))).2 = s ∧
      (s.perform (.create .nor gate (.ofString "016"))).1 = .created none ∧
      ∃ d, d.IsNew s.circuit.devices.pins .nor gate (.gate 16) ∧
        (s.perform (.create .nor gate (.ofString "016"))).2.circuit.devices.devices =
          s.circuit.devices.devices ++ [d] := by
  intro switch gate s
  have htaken : s.circuit.devices.has switch = true := by decide +kernel
  have hfree : s.circuit.devices.has gate = false := by decide +kernel
  have hname : s.names.text? switch = some (.ofString "S") := by decide +kernel
  have hlong : ∀ st, ¬ Kind.Starts .clock (.ofString "0000000002") st := by
    intro st h
    cases h with
    | clock ht hl hn => exact absurd hl (by decide)
    | gate hk => cases hk
  have hgate : Kind.Starts .nor (.ofString "016") (.gate 16) :=
    .gate rfl ⟨1, by decide⟩ (by decide) (by decide)
  obtain ⟨hsame, hreply⟩ := (create_exact s .xor switch (.ofString "x")).1 htaken
  obtain ⟨hmade, d, hd, hs'⟩ := (create_exact s .nor gate (.ofString "016")).2.2.1 hfree _ hgate
  have hunmade := ((create_exact s .clock gate _).2.1 hfree hlong).1
  refine ⟨Prod.ext (hreply _ hname) hsame, hunmade, hmade, d, hd, ?_⟩
  rw [hs']

end Session

end GateSim
