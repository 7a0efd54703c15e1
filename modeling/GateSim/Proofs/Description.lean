import Mathlib.Data.List.Nodup
import GateSim.Circuit
import GateSim.Proofs.Grammar
import GateSim.Proofs.Parameter
import GateSim.Proofs.Registry

/-!
# What statements describe

The statements of a circuit definition, taken by their texts alone. `Description.Meaningful` tells
which descriptions make sense, and `Description.circuit` is the circuit that such a description
stands for.
-/

namespace GateSim

/-- A device as it is declared. The parameter is empty if there is none. -/
structure Declaration where
  kind : Kind
  name : Text
  parameter : Text

/-- An output, by the name of its device and its own name. -/
structure Port where
  device : Text
  pin : Option Text
  deriving DecidableEq

/-- An output, and the input that it drives. -/
structure Connection where
  source : Port
  target : Text
  pin : Text

/-- All that the statements of a circuit definition say. -/
structure Description where
  devices : List Declaration := []
  connections : List Connection := []
  monitors : List Port := []

namespace Declaration

def inputs (d : Declaration) : List Text :=
  match d.kind with
  | .and | .or | .nand | .nor => PinWord.gateInputs.take d.parameter.value
  | .xor => PinWord.gateInputs.take 2
  | .dtype => [PinWord.data, PinWord.clk, PinWord.set, PinWord.clear]
  | .switch | .clock | .rc | .siggen => []

/-- The outputs of a declared device, with the values that they start with. -/
def outputs (d : Declaration) : List (Option Text × Signal) :=
  match d.kind with
  | .switch => [(none, d.parameter = .ofString "1")]
  | .clock | .and | .or | .nand | .nor | .xor => [(none, false)]
  | .dtype => [(some PinWord.q, false), (some PinWord.qbar, true)]
  | .rc => [(none, true)]
  | .siggen => [(none, d.parameter.head? = some '1'.toUInt8)]

end Declaration

namespace Port

/-- The output that a name stands for, with a pin or without one. -/
def ofSymbols (device : Symbol) (pin : Option Symbol) : Port := ⟨device.text, pin.map (·.text)⟩

def source (names : NameTable) (p : Port) : Source := ⟨names.idOf p.device, p.pin.map names.idOf⟩

def monitor (names : NameTable) (p : Port) : Monitor where
  device := names.idOf p.device
  pin := p.pin.map names.idOf

end Port

namespace Description

def add (D : Description) : Statement → Description
  | .device kind name parameter =>
    { D with devices := D.devices ++ [⟨kind, name.text, (parameter.map (·.text)).getD []⟩] }
  | .connection source sourcePin target targetPin =>
    { D with
      connections := D.connections ++ [⟨.ofSymbols source sourcePin, target.text, targetPin.text⟩] }
  | .monitor device pin => { D with monitors := D.monitors ++ [.ofSymbols device pin] }

def ofStatements (sts : List Statement) : Description := sts.foldl add {}

def names (D : Description) : List Text := D.devices.map (·.name)

def targets (D : Description) : List (Text × Text) := D.connections.map fun c => (c.target, c.pin)

def HasOutput (D : Description) (p : Port) : Prop :=
  ∃ d ∈ D.devices, d.name = p.device ∧ p.pin ∈ d.outputs.map (·.1)

def HasInput (D : Description) (device pin : Text) : Prop :=
  ∃ d ∈ D.devices, d.name = device ∧ pin ∈ d.inputs

structure Meaningful (D : Description) : Prop where
  names : D.names.Nodup
  parameters : ∀ d ∈ D.devices, d.kind.Accepts d.parameter
  sources : ∀ c ∈ D.connections, D.HasOutput c.source
  targets : ∀ c ∈ D.connections, D.HasInput c.target c.pin
  single : D.targets.Nodup
  monitors : ∀ m ∈ D.monitors, D.HasOutput m

def source? (D : Description) (device pin : Text) : Option Port :=
  (D.connections.find? fun c => c.target = device ∧ c.pin = pin).map (·.source)

/-- A declared device in its first state, with the sources of its connected inputs. -/
def device (D : Description) (names : NameTable) (d : Declaration) : Device where
  id := names.idOf d.name
  kind := d.kind
  inputs := PinMap.putAll (d.inputs.map fun pin =>
    (names.idOf pin, (D.source? d.name pin).map (·.source names))) []
  outputs := PinMap.putAll (d.outputs.map fun e => (e.1.map names.idOf, e.2)) []
  state := d.kind.start d.parameter

/-- The devices in the order of their declarations, and one monitor for each monitored output. -/
def circuit (D : Description) (names : NameTable) : Circuit where
  devices :=
    { pins := .ofNames names
      devices := D.devices.map (D.device names)
      places := (D.names.map names.idOf).zipIdx.reverse }
  monitors := D.monitors.eraseDups.map (·.monitor names)

/-- The next statement makes sense after those before it. -/
def Fits (D : Description) : Statement → Prop
  | .device kind name parameter =>
    name.text ∉ D.names ∧ kind.Accepts ((parameter.map (·.text)).getD [])
  | .connection source sourcePin target targetPin =>
    D.HasOutput (.ofSymbols source sourcePin) ∧ D.HasInput target.text targetPin.text ∧
      (target.text, targetPin.text) ∉ D.targets
  | .monitor device pin => D.HasOutput (.ofSymbols device pin)

/-! ### One statement after the other -/

variable {D D' : Description} {p : Port} {st : Statement}

theorem HasOutput.mono (h : D.HasOutput p) (hs : D.devices ⊆ D'.devices) : D'.HasOutput p := by
  obtain ⟨d, hd, h⟩ := h
  exact ⟨d, hs hd, h⟩

theorem HasInput.mono {device pin : Text} (h : D.HasInput device pin)
    (hs : D.devices ⊆ D'.devices) : D'.HasInput device pin := by
  obtain ⟨d, hd, h⟩ := h
  exact ⟨d, hs hd, h⟩

theorem meaningful_empty : Meaningful {} where
  names := List.nodup_nil
  parameters := by simp
  sources := by simp
  targets := by simp
  single := List.nodup_nil
  monitors := by simp

theorem Meaningful.add (h : D.Meaningful) (hf : D.Fits st) : (D.add st).Meaningful := by
  cases st with
  | device kind name parameter =>
    have hsub : D.devices ⊆ (D.add (.device kind name parameter)).devices :=
      List.subset_append_left ..
    refine ⟨?_, ?_, fun c hc => (h.sources c hc).mono hsub, fun c hc => (h.targets c hc).mono hsub,
      h.single, fun m hm => (h.monitors m hm).mono hsub⟩
    · simp only [Description.add, Description.names, List.map_append]
      exact List.concat_eq_append ▸ h.names.concat hf.1
    · intro d hd
      rcases List.mem_append.1 hd with hd | hd
      · exact h.parameters d hd
      · rw [List.mem_singleton.1 hd]
        exact hf.2
  | connection source sourcePin target targetPin =>
    obtain ⟨hout, hin, hfree⟩ := hf
    refine ⟨h.names, h.parameters, fun c hc => ?_, fun c hc => ?_, ?_, h.monitors⟩
    · rcases List.mem_append.1 hc with hc | hc
      · exact h.sources c hc
      · rw [List.mem_singleton.1 hc]
        exact hout
    · rcases List.mem_append.1 hc with hc | hc
      · exact h.targets c hc
      · rw [List.mem_singleton.1 hc]
        exact hin
    · simp only [Description.add, Description.targets, List.map_append]
      exact List.concat_eq_append ▸ h.single.concat hfree
  | monitor device pin =>
    refine ⟨h.names, h.parameters, h.sources, h.targets, h.single, fun m hm => ?_⟩
    rcases List.mem_append.1 hm with hm | hm
    · exact h.monitors m hm
    · rw [List.mem_singleton.1 hm]
      exact hf

theorem exists_foldl_add (D : Description) (sts : List Statement) :
    ∃ ds cs ms, sts.foldl Description.add D =
        ⟨D.devices ++ ds, D.connections ++ cs, D.monitors ++ ms⟩ ∧
      ((∀ s ∈ sts, s.isDevice = false) → ds = []) := by
  induction sts generalizing D with
  | nil => exact ⟨[], [], [], by simp, fun _ => rfl⟩
  | cons st sts ih =>
    obtain ⟨ds, cs, ms, heq, hds⟩ := ih (D.add st)
    rw [List.foldl_cons, heq]
    have hrest (h : ∀ s ∈ st :: sts, s.isDevice = false) : ds = [] :=
      hds fun s hs => h s (List.mem_cons_of_mem _ hs)
    cases st with
    | device kind name parameter =>
      refine ⟨⟨kind, name.text, (parameter.map (·.text)).getD []⟩ :: ds, cs, ms, by simp [add], ?_⟩
      exact fun h => absurd (h _ (List.mem_cons_self ..)) (by simp [Statement.isDevice])
    | connection source sourcePin target targetPin =>
      exact ⟨ds, ⟨.ofSymbols source sourcePin, target.text, targetPin.text⟩ :: cs, ms,
        by simp [add], hrest⟩
    | monitor device pin => exact ⟨ds, cs, .ofSymbols device pin :: ms, by simp [add], hrest⟩

/-- A statement of a meaningful description fits after those before it, if it is a declaration or
no declaration comes later. -/
theorem Meaningful.fits {sts : List Statement} (h : ((st :: sts).foldl Description.add D).Meaningful)
    (hd : st.isDevice = true ∨ ∀ s ∈ sts, s.isDevice = false) : D.Fits st := by
  obtain ⟨ds, cs, ms, heq, hds⟩ := exists_foldl_add (D.add st) sts
  rw [List.foldl_cons, heq] at h
  cases st with
  | device kind name parameter =>
    have hnames := h.names
    simp only [Description.names, Description.add, List.map_append, List.append_assoc] at hnames
    have hmem : (⟨kind, name.text, (parameter.map (·.text)).getD []⟩ : Declaration) ∈
        (D.add (.device kind name parameter)).devices ++ ds :=
      List.mem_append_left _ (List.mem_append_right _ (List.mem_singleton.2 rfl))
    refine ⟨fun hm => ?_, h.parameters _ hmem⟩
    exact (List.disjoint_of_nodup_append hnames) hm (List.mem_append_left _ (by simp))
  | connection source sourcePin target targetPin =>
    obtain rfl := hds (hd.resolve_left (by simp [Statement.isDevice]))
    have hmem : (⟨.ofSymbols source sourcePin, target.text, targetPin.text⟩ : Connection) ∈
        (D.add (.connection source sourcePin target targetPin)).connections ++ cs :=
      List.mem_append_left _ (List.mem_append_right _ (List.mem_singleton.2 rfl))
    have hsub : (D.devices ++ [] : List Declaration) ⊆ D.devices := by simp
    refine ⟨(h.sources _ hmem).mono hsub, (h.targets _ hmem).mono hsub, fun hm => ?_⟩
    have hsingle := h.single
    simp only [Description.targets, Description.add, List.map_append, List.append_assoc] at hsingle
    exact (List.disjoint_of_nodup_append hsingle) hm (List.mem_append_left _ (by simp))
  | monitor device pin =>
    obtain rfl := hds (hd.resolve_left (by simp [Statement.isDevice]))
    have hsub : (D.devices ++ [] : List Declaration) ⊆ D.devices := by simp
    exact (h.monitors _ (List.mem_append_left _ (List.mem_append_right _
      (List.mem_singleton.2 rfl)))).mono hsub

def FitAll (D : Description) : List Statement → Prop
  | [] => True
  | st :: sts => D.Fits st ∧ (D.add st).FitAll sts

theorem fitAll_iff {sts : List Statement} (hD : D.Meaningful)
    (h : sts.Pairwise fun a b => b.isDevice = true → a.isDevice = true) :
    D.FitAll sts ↔ (sts.foldl Description.add D).Meaningful := by
  induction sts generalizing D with
  | nil => exact ⟨fun _ => hD, fun _ => trivial⟩
  | cons st sts ih =>
    obtain ⟨hst, hsts⟩ := List.pairwise_cons.1 h
    constructor
    · rintro ⟨hfit, hrest⟩
      exact (ih (hD.add hfit) hsts).1 hrest
    · intro hm
      have hfit : D.Fits st := hm.fits <| by
        cases hd : st.isDevice with
        | true => exact Or.inl rfl
        | false =>
          refine Or.inr fun s hs => Bool.eq_false_iff.2 fun hs' => ?_
          rw [hst s hs hs'] at hd
          cases hd
      exact ⟨hfit, (ih (hD.add hfit) hsts).2 hm⟩

end Description

/-! ### Declared devices -/

namespace Declaration
variable {names : NameTable} {d : Declaration}

theorem inputs_subset (d : Declaration) : d.inputs ⊆ PinWord.inputs := by
  have htake : ∀ n, PinWord.gateInputs.take n ⊆ PinWord.inputs := fun n =>
    List.Subset.trans (List.take_subset n _) (List.subset_append_left ..)
  unfold inputs
  split
  · exact htake _
  · exact htake _
  · exact htake _
  · exact htake _
  · exact htake _
  · exact List.subset_append_right ..
  all_goals exact List.nil_subset _

theorem mem_outputs_of_some {d : Declaration} {t : Text} (h : some t ∈ d.outputs.map (·.1)) :
    t ∈ PinWord.outputs := by
  unfold outputs at h
  split at h <;> simp_all [PinWord.outputs]

theorem inputPins_start (names : NameTable) (d : Declaration) :
    (d.kind.start d.parameter).inputPins (.ofNames names) = d.inputs.map names.idOf := by
  obtain ⟨kind, name, parameter⟩ := d
  cases kind <;> simp [Kind.start, State.inputPins, inputs, Pins.ofNames, List.map_take]

theorem startOutputs_start (names : NameTable) (d : Declaration) :
    (d.kind.start d.parameter).startOutputs (.ofNames names) =
      d.outputs.map fun e => (e.1.map names.idOf, e.2) := by
  obtain ⟨kind, name, parameter⟩ := d
  cases kind with
  | siggen => cases parameter <;> simp [Kind.start, State.startOutputs, outputs]
  | _ => simp [Kind.start, State.startOutputs, outputs, Pins.ofNames]

end Declaration

/-! ### Described circuits -/

namespace Description
variable {D : Description} {names : NameTable}

theorem make_eq (D : Description) (names : NameTable) {d : Declaration} (ht : d.kind.Takes d.parameter)
    (ha : d.kind.Accepts d.parameter) (hfree : ∀ pin ∈ d.inputs, D.source? d.name pin = none) :
    Device.make (.ofNames names) d.kind (names.idOf d.name) d.parameter =
      .ok (D.device names d) := by
  refine Device.make_eq_ok_iff.2 ⟨_, State.ofParameter_of_accepts ht ha, ?_⟩
  have hinputs : (d.inputs.map fun pin =>
      (names.idOf pin, (D.source? d.name pin).map (·.source names))) =
      (d.inputs.map names.idOf).map (·, none) := by
    rw [List.map_map]
    exact List.map_congr_left fun pin hpin => by simp [hfree pin hpin]
  rw [Declaration.inputPins_start, Declaration.startOutputs_start, ← hinputs]
  rfl

/-- Everything that a description names has been seen. -/
structure Known (names : NameTable) (D : Description) : Prop where
  pins : names.KnowsPins
  devices : ∀ t ∈ D.names, t ∈ names.texts

namespace Known
variable (h : Known names D)
include h

theorem mem_ids_iff {t : Text} (ht : t ∈ names.texts) :
    names.idOf t ∈ (D.circuit names).devices.ids ↔ t ∈ D.names := by
  have hids : (D.circuit names).devices.ids = D.names.map names.idOf := by
    simp [circuit, Registry.ids, device, Description.names]
  rw [hids, List.mem_map]
  refine ⟨?_, fun hm => ⟨t, hm, rfl⟩⟩
  rintro ⟨s, hs, heq⟩
  exact (NameTable.idOf_inj (h.devices s hs) ht).1 heq ▸ hs

theorem mem_texts_of_input {d : Declaration} {t : Text} (ht : t ∈ d.inputs) : t ∈ names.texts :=
  h.pins t (List.mem_append_left _ (d.inputs_subset ht))

/-- The inputs of a device have different ids. -/
theorem inputs_inj (d : Declaration) :
    ∀ t ∈ d.inputs, ∀ t' ∈ d.inputs, names.idOf t = names.idOf t' → t = t' := by
  intro t ht t' ht' heq
  exact (NameTable.idOf_inj (h.mem_texts_of_input ht) (h.mem_texts_of_input ht')).1 heq

theorem id_eq_iff {d : Declaration} {t : Text} (hd : d ∈ D.devices) (ht : t ∈ names.texts) :
    (D.device names d).id = names.idOf t ↔ d.name = t :=
  NameTable.idOf_inj (h.devices d.name (List.mem_map_of_mem hd)) ht

theorem mem_outputs_iff {d : Declaration} {pin : Option Text} (hp : ∀ t ∈ pin, t ∈ names.texts) :
    pin.map names.idOf ∈ (D.device names d).outputs.keys ↔ pin ∈ d.outputs.map (·.1) := by
  have hkeys : pin.map names.idOf ∈ (D.device names d).outputs.keys ↔
      pin.map names.idOf ∈ (d.outputs.map (·.1)).map (·.map names.idOf) := by
    rw [device, PinMap.mem_keys_putAll]
    simp [Function.comp_def]
  rw [hkeys, List.mem_map]
  refine ⟨?_, fun hm => ⟨pin, hm, rfl⟩⟩
  rintro ⟨pin', hpin', heq⟩
  suffices pin' = pin from this ▸ hpin'
  match pin', pin, hp, hpin', heq with
  | none, none, _, _, _ => rfl
  | some t', some t, hp, hpin', heq =>
    have ht' : t' ∈ names.texts :=
      h.pins t' (List.mem_append_right _ (Declaration.mem_outputs_of_some hpin'))
    exact congrArg some ((NameTable.idOf_inj ht' (hp t rfl)).1 (Option.some.inj heq))

theorem mem_inputs_iff {d : Declaration} {pin : Text} (hp : pin ∈ names.texts) :
    names.idOf pin ∈ (D.device names d).inputs.keys ↔ pin ∈ d.inputs := by
  have hkeys : names.idOf pin ∈ (D.device names d).inputs.keys ↔
      names.idOf pin ∈ d.inputs.map names.idOf := by
    rw [device, PinMap.mem_keys_putAll]
    simp [Function.comp_def]
  rw [hkeys, List.mem_map]
  refine ⟨?_, fun hm => ⟨pin, hm, rfl⟩⟩
  rintro ⟨pin', hpin', heq⟩
  exact (NameTable.idOf_inj (h.mem_texts_of_input hpin') hp).1 heq ▸ hpin'

variable (hw : (D.circuit names).devices.WellFormed)
include hw

theorem isOutput_iff {p : Port} (hd : p.device ∈ names.texts) (hp : ∀ t ∈ p.pin, t ∈ names.texts) :
    (D.circuit names).devices.isOutput (names.idOf p.device) (p.pin.map names.idOf) = true ↔
      D.HasOutput p := by
  rw [hw.isOutput_iff]
  constructor
  · rintro ⟨_, hdev, hid, hpin⟩
    obtain ⟨d, hmem, rfl⟩ := List.mem_map.1 hdev
    exact ⟨d, hmem, (h.id_eq_iff hmem hd).1 hid, (h.mem_outputs_iff hp).1 hpin⟩
  · rintro ⟨d, hmem, hid, hpin⟩
    exact ⟨_, List.mem_map_of_mem hmem, (h.id_eq_iff hmem hd).2 hid,
      (h.mem_outputs_iff hp).2 hpin⟩

theorem isInput_iff {device pin : Text} (hd : device ∈ names.texts) (hp : pin ∈ names.texts) :
    (D.circuit names).devices.isInput (names.idOf device) (names.idOf pin) = true ↔
      D.HasInput device pin := by
  rw [hw.isInput_iff]
  constructor
  · rintro ⟨_, hdev, hid, hpin⟩
    obtain ⟨d, hmem, rfl⟩ := List.mem_map.1 hdev
    exact ⟨d, hmem, (h.id_eq_iff hmem hd).1 hid, (h.mem_inputs_iff hp).1 hpin⟩
  · rintro ⟨d, hmem, hid, hpin⟩
    exact ⟨_, List.mem_map_of_mem hmem, (h.id_eq_iff hmem hd).2 hid,
      (h.mem_inputs_iff hp).2 hpin⟩

theorem has_iff {t : Text} (ht : t ∈ names.texts) :
    (D.circuit names).devices.has (names.idOf t) = true ↔ t ∈ D.names := by
  rw [hw.has_iff, h.mem_ids_iff ht]

end Known

end Description

end GateSim
