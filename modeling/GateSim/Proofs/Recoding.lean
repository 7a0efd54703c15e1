import Mathlib.Data.List.Basic
import Mathlib.Logic.Function.Defs
import GateSim.Proofs.Cycle
import GateSim.Proofs.Registry

/-!
# Other ids

Devices and pins are known by ids, and little depends on what these are: what is done to a registry
whose devices and pins have other ids is what is done to the registry, under these ids
(`Change.Equivariant`, `Circuit.Recodes`). The one thing that depends on the order of ids is which
floating input of a device is blamed first (`Registry.cycle_recode`).
-/

namespace GateSim

def Source.recode (ρ π : NameId → NameId) (s : Source) : Source := ⟨ρ s.device, s.pin.map π⟩

/-- Other ids for devices and for pins, and what becomes of pin maps. Different ids stay different,
and nothing else may happen to the entries of a pin map, but they may be put in another order. -/
structure Recoding where
  device : NameId → NameId
  pin : NameId → NameId
  inputs : PinMap NameId (Option Source) → PinMap NameId (Option Source)
  outputs : PinMap OutputPin Signal → PinMap OutputPin Signal
  device_injective : Function.Injective device
  pin_injective : Function.Injective pin
  inputs_nil : inputs [] = []
  inputs_put : ∀ m p s,
    inputs (m.put p s) = (inputs m).put (pin p) (s.map (Source.recode device pin))
  get?_inputs : ∀ m p,
    (inputs m).get? (pin p) = (m.get? p).map (Option.map (Source.recode device pin))
  inputs_perm : ∀ m, m.Ascending →
    (inputs m).Perm (m.map fun e => (pin e.1, e.2.map (Source.recode device pin)))
  outputs_nil : outputs [] = []
  outputs_put : ∀ m p v, outputs (m.put p v) = (outputs m).put (p.map pin) v
  get?_outputs : ∀ m (p : OutputPin), (outputs m).get? (p.map pin) = m.get? p
  outputs_perm : ∀ m, m.Ascending → (outputs m).Perm (m.map fun e => (e.1.map pin, e.2))

namespace Recoding
variable (T : Recoding)

def source : Source → Source := Source.recode T.device T.pin

theorem map_pin_inj {p q : OutputPin} : p.map T.pin = q.map T.pin ↔ p = q :=
  (Option.map_injective T.pin_injective).eq_iff

theorem inputs_putAll (entries : List (NameId × Option Source))
    (m : PinMap NameId (Option Source)) :
    T.inputs (m.putAll entries) =
      (T.inputs m).putAll (entries.map fun e => (T.pin e.1, e.2.map T.source)) := by
  unfold PinMap.putAll
  induction entries generalizing m with
  | nil => rfl
  | cons e es ih =>
    rw [List.foldl_cons, ih, T.inputs_put]
    rfl

theorem outputs_putAll (entries : List (OutputPin × Signal)) (m : PinMap OutputPin Signal) :
    T.outputs (m.putAll entries) =
      (T.outputs m).putAll (entries.map fun e => (e.1.map T.pin, e.2)) := by
  unfold PinMap.putAll
  induction entries generalizing m with
  | nil => rfl
  | cons e es ih =>
    rw [List.foldl_cons, ih, T.outputs_put]
    rfl

/-- Pins are listed in the order of their new ids. -/
def ofIds (ρ π : NameId → NameId) (hρ : Function.Injective ρ) (hπ : Function.Injective π) :
    Recoding where
  device := ρ
  pin := π
  inputs := PinMap.relabel π (Option.map (Source.recode ρ π))
  outputs := PinMap.relabel (Option.map π) id
  device_injective := hρ
  pin_injective := hπ
  inputs_nil := rfl
  inputs_put m p s := PinMap.relabel_put _ m hπ p s
  get?_inputs m p := PinMap.get?_relabel _ m hπ p
  inputs_perm _ h := PinMap.relabel_perm _ hπ h
  outputs_nil := rfl
  outputs_put m p v := PinMap.relabel_put _ m (Option.map_injective hπ) p v
  get?_outputs m p :=
    (PinMap.get?_relabel _ m (Option.map_injective hπ) p).trans (congrFun Option.map_id _)
  outputs_perm _ h := PinMap.relabel_perm _ (Option.map_injective hπ) h

end Recoding

variable (T : Recoding)

def Pins.recode (pins : Pins) : Pins where
  gateInputs := pins.gateInputs.map T.pin
  data := T.pin pins.data
  clk := T.pin pins.clk
  set := T.pin pins.set
  clear := T.pin pins.clear
  q := T.pin pins.q
  qbar := T.pin pins.qbar

def Device.recode (d : Device) : Device where
  id := T.device d.id
  kind := d.kind
  inputs := T.inputs d.inputs
  outputs := T.outputs d.outputs
  state := d.state

def Registry.recode (r : Registry) : Registry where
  pins := r.pins.recode T
  devices := r.devices.map (Device.recode T)
  places := r.places.map fun p => (T.device p.1, p.2)

def RunFault.recode : RunFault → RunFault
  | .floating device pin => .floating (T.device device) (T.pin pin)
  | .oscillation passes => .oscillation passes
  | .missingOutput device pin source =>
    .missingOutput (T.device device) (T.pin pin) (T.source source)
  | .gateState kind => .gateState kind
  | .lostMonitor device pin => .lostMonitor (T.device device) (pin.map T.pin)

def CreateFault.rename (ρ : NameId → NameId) : CreateFault → CreateFault
  | .taken id => .taken (ρ id)
  | .parameter f => .parameter f

def Monitor.recode (m : Monitor) : Monitor :=
  { m with device := T.device m.device, pin := m.pin.map T.pin }

namespace State

theorem inputPins_recode (pins : Pins) (s : State) :
    s.inputPins (pins.recode T) = (s.inputPins pins).map T.pin := by
  cases s <;> simp [inputPins, Pins.recode, List.map_take]

theorem startOutputs_recode (pins : Pins) (s : State) :
    s.startOutputs (pins.recode T) =
      (s.startOutputs pins).map fun e => (e.1.map T.pin, e.2) := by
  cases s <;> rfl

end State

/-! ### Devices -/

namespace Device
variable (d : Device)

theorem make_recode (pins : Pins) (kind : Kind) (id : NameId) (parameter : Text) :
    make (pins.recode T) kind (T.device id) parameter =
      (make pins kind id parameter).map (Device.recode T) := by
  simp only [make]
  cases State.ofParameter kind parameter with
  | error f => rfl
  | ok s =>
    refine congrArg Except.ok (Device.mk.injEq .. |>.mpr ⟨rfl, rfl, ?_, ?_, rfl⟩)
    · rw [T.inputs_putAll, T.inputs_nil, State.inputPins_recode, List.map_map, List.map_map]
      rfl
    · rw [T.outputs_putAll, T.outputs_nil, State.startOutputs_recode]

theorem putOutput_recode (pin : OutputPin) (v : Signal) :
    (d.recode T).putOutput (pin.map T.pin) v = (d.putOutput pin v).recode T :=
  Device.mk.injEq .. |>.mpr ⟨rfl, rfl, rfl, (T.outputs_put ..).symm, rfl⟩

theorem putOutput_none_recode (v : Signal) :
    (d.recode T).putOutput none v = (d.putOutput none v).recode T := d.putOutput_recode T none v

theorem value_recode : (d.recode T).value = d.value :=
  congrArg (·.getD false) (T.get?_outputs _ none)

theorem reset_recode (pins : Pins) :
    (d.recode T).reset (pins.recode T) = (d.reset pins).recode T := by
  rw [reset_eq_start, reset_eq_start]
  refine Device.mk.injEq .. |>.mpr ⟨rfl, rfl, rfl, ?_, rfl⟩
  show PinMap.putAll (d.state.startOutputs (pins.recode T)) (T.outputs d.outputs) =
    T.outputs (PinMap.putAll (d.state.startOutputs pins) d.outputs)
  rw [T.outputs_putAll, State.startOutputs_recode]

theorem advance_recode : (d.recode T).advance = d.advance.recode T := by
  have hstate : (d.recode T).state = d.state := rfl
  have hout := d.putOutput_none_recode T
  cases hs : d.state with
  | rc period countdown =>
    cases countdown with
    | zero => simp only [advance, hstate, hs, hout]
    | succ n =>
      simp only [advance, hstate, hs, hout]
      rfl
  | clock halfPeriod counter =>
    simp only [advance, hstate, hs, hout, value_recode]
    split <;> rfl
  | _ => simp only [advance, hstate, hs, hout] <;> rfl

/-- Which input floats first depends on the ids, but not whether one floats. -/
theorem floating_recode (h : d.inputs.Ascending) :
    (d.recode T).floating = [] ↔ d.floating = [] := by
  have hmem : ∀ {e : NameId × Option Source}, e ∈ (d.recode T).inputs ↔
      ∃ e' ∈ d.inputs, (T.pin e'.1, e'.2.map T.source) = e := fun {e} => by
    rw [← List.mem_map]
    exact (T.inputs_perm _ h).mem_iff
  simp only [floating, List.filterMap_eq_nil_iff, hmem]
  constructor
  · intro hnone e he
    have := hnone _ ⟨e, he, rfl⟩
    cases hs : e.2 with
    | none => simp [hs] at this
    | some s => rfl
  · rintro hnone _ ⟨e, he, rfl⟩
    have := hnone e he
    cases hs : e.2 with
    | none => simp [hs] at this
    | some s => rfl

end Device

/-! ### Registries -/

namespace Registry
variable (r : Registry) (a : NameId)

theorem lookup_recode (places : List (NameId × Nat)) :
    (places.map fun p => (T.device p.1, p.2)).lookup (T.device a) = places.lookup a := by
  induction places with
  | nil => rfl
  | cons p places ih =>
    have hbeq : (T.device a == T.device p.1) = (a == p.1) := by
      rw [Bool.eq_iff_iff, beq_iff_eq, beq_iff_eq, T.device_injective.eq_iff]
    rw [List.map_cons, List.lookup_cons, List.lookup_cons, hbeq, ih]

theorem has_recode : (r.recode T).has (T.device a) = r.has a := by
  rw [has, has, recode, lookup_recode]

theorem device?_recode :
    (r.recode T).device? (T.device a) = (r.device? a).map (Device.recode T) := by
  rw [device?, device?, recode, lookup_recode]
  cases r.places.lookup a with
  | none => rfl
  | some i => simp

theorem output?_recode (pin : OutputPin) :
    (r.recode T).output? (T.device a) (pin.map T.pin) = r.output? a pin := by
  rw [output?, output?, device?_recode, Option.bind_map]
  exact congrArg _ (funext fun d => T.get?_outputs _ _)

theorem isOutput_recode (pin : OutputPin) :
    (r.recode T).isOutput (T.device a) (pin.map T.pin) = r.isOutput a pin := by
  rw [isOutput, isOutput, device?_recode, Option.any_map]
  exact congrArg (Option.any · _) (funext fun d => congrArg Option.isSome (T.get?_outputs _ _))

theorem isInput_recode (pin : NameId) :
    (r.recode T).isInput (T.device a) (T.pin pin) = r.isInput a pin := by
  rw [isInput, isInput, device?_recode, Option.any_map]
  refine congrArg (Option.any · _) (funext fun d => ?_)
  show ((T.inputs d.inputs).get? (T.pin pin)).isSome = (d.inputs.get? pin).isSome
  rw [T.get?_inputs, Option.isSome_map]

theorem source?_recode (pin : NameId) :
    (r.recode T).source? (T.device a) (T.pin pin) = (r.source? a pin).map T.source := by
  rw [source?, source?, device?_recode]
  cases r.device? a with
  | none => rfl
  | some d =>
    show ((T.inputs d.inputs).get? (T.pin pin)).join = ((d.inputs.get? pin).join).map T.source
    rw [T.get?_inputs]
    rcases d.inputs.get? pin with _ | _ | s <;> rfl

theorem update_recode {f g : Device → Device} (h : ∀ d, g (d.recode T) = (f d).recode T) :
    (r.recode T).update (T.device a) g = (r.update a f).recode T := by
  rw [update, update, recode, lookup_recode]
  cases r.places.lookup a with
  | none => rfl
  | some i =>
    refine Registry.mk.injEq .. |>.mpr ⟨rfl, List.ext_getElem? fun j => ?_, rfl⟩
    simp only [List.getElem?_modify, List.getElem?_map]
    cases r.devices[j]? with
    | none => rfl
    | some d =>
      by_cases hij : i = j
      · simp [hij, h]
      · simp [hij]

theorem create_recode (kind : Kind) (parameter : Text) :
    (r.recode T).create kind (T.device a) parameter =
      ((r.create kind a parameter).map (Registry.recode T)).mapError
        (CreateFault.rename T.device) := by
  rw [create, create, has_recode]
  have hpins : (r.recode T).pins = r.pins.recode T := rfl
  cases r.has a with
  | true => rfl
  | false =>
    rw [hpins, Device.make_recode]
    cases Device.make r.pins kind a parameter with
    | error f => rfl
    | ok d => simp [Except.map, Except.mapError, recode, size]

theorem connect_recode (sourcePin : OutputPin) (b pin : NameId) :
    (r.recode T).connect (T.device a) (sourcePin.map T.pin) (T.device b) (T.pin pin) =
      ((r.connect a sourcePin b pin).1, (r.connect a sourcePin b pin).2.recode T) := by
  rw [connect, connect, device?_recode, has_recode, isOutput_recode]
  cases r.device? b with
  | none => rfl
  | some d =>
    have hget :
        (d.recode T).inputs.get? (T.pin pin) = (d.inputs.get? pin).map (Option.map T.source) :=
      T.get?_inputs ..
    simp only [Option.map_some, hget]
    split
    · rfl
    split
    · rfl
    rcases d.inputs.get? pin with _ | _ | s
    · rfl
    · refine Prod.ext rfl (update_recode T r b fun d => ?_)
      refine Device.mk.injEq .. |>.mpr ⟨rfl, rfl, ?_, rfl, rfl⟩
      exact (T.inputs_put d.inputs pin (some ⟨a, sourcePin⟩)).symm
    · rfl

theorem setSwitch_recode (v : Signal) :
    (r.recode T).setSwitch (T.device a) v = (r.setSwitch a v).map (Registry.recode T) := by
  have hstate : ((r.recode T).device? (T.device a)).map Device.state =
      (r.device? a).map Device.state := by
    rw [device?_recode, Option.map_map]
    rfl
  rw [setSwitch, setSwitch, hstate]
  rcases (r.device? a).map Device.state with _ | s
  · rfl
  · cases s with
    | switch initial setting =>
      refine congrArg some (update_recode T r a fun d => ?_)
      rw [Device.putOutput_none_recode]
      rfl
    | _ => rfl

theorem coldStart_recode : (r.recode T).coldStart = r.coldStart.recode T := by
  simp [coldStart, recode, Function.comp_def, Device.reset_recode]

theorem advance_recode : (r.recode T).advance = r.advance.recode T := by
  simp [advance, recode, Function.comp_def, Device.advance_recode]

theorem size_recode : (r.recode T).size = r.size := List.length_map ..

theorem ids_recode : (r.recode T).ids = r.ids.map T.device := by
  simp [ids, recode, Device.recode]

/-- If an input floats, one of the same device floats under the other ids. -/
theorem floating_recode (h : ∀ d ∈ r.devices, d.inputs.Ascending) :
    (r.recode T).floating.head?.map (·.1) = (r.floating.head?.map (·.1)).map T.device := by
  unfold floating recode
  dsimp only
  revert h
  induction r.devices with
  | nil => exact fun _ => rfl
  | cons d ds ih =>
    intro h
    obtain ⟨hd, hds⟩ := List.forall_mem_cons.1 h
    have hiff := d.floating_recode T hd
    rw [List.map_cons, List.flatMap_cons, List.flatMap_cons]
    cases hf : d.floating with
    | nil =>
      rw [hiff.2 hf]
      exact ih hds
    | cons p ps =>
      cases hf' : (d.recode T).floating with
      | nil => rw [hiff.1 hf'] at hf; cases hf
      | cons p' ps' => rfl

end Registry

/-! ### Changes -/

namespace Change
variable {α β : Type} {T : Recoding}

def recodeResult (T : Recoding) :
    EStateM.Result RunFault Registry α → EStateM.Result RunFault Registry α
  | .ok a r => .ok a (r.recode T)
  | .error f r => .error (f.recode T) (r.recode T)

/-- Under other ids the change does the same. -/
def Equivariant (T : Recoding) (x : Change α) : Prop :=
  ∀ r, x (r.recode T) = recodeResult T (x r)

theorem equivariant_pure (a : α) : Equivariant T (pure a) := fun _ => rfl

theorem equivariant_throw {f : RunFault} (h : f.recode T = f) :
    Equivariant T (throw f : Change α) :=
  fun r => by
    show EStateM.Result.error f _ = EStateM.Result.error (f.recode T) _
    rw [h]

theorem Equivariant.bind {x : Change α} {k : α → Change β} (hx : Equivariant T x)
    (hk : ∀ a, Equivariant T (k a)) : Equivariant T (x >>= k) := by
  intro r
  have hxr := hx r
  cases h : x r with
  | ok a r' =>
    rw [h] at hxr
    rw [bind_ok h, bind_ok hxr]
    exact hk a r'
  | error f r' =>
    rw [h] at hxr
    rw [bind_error h, bind_error hxr]
    rfl

theorem equivariant_modify {g : Registry → Registry} (h : ∀ r, g (r.recode T) = (g r).recode T) :
    Equivariant T (modify g) := fun r => congrArg (EStateM.Result.ok PUnit.unit) (h r)

/-- What is read from the registry may contain ids. -/
theorem equivariant_read_bind {g : Registry → Except RunFault α} {t : α → α} {k : α → Change β}
    (hg : ∀ r, g (r.recode T) = ((g r).map t).mapError (RunFault.recode T))
    (hk : ∀ a r, k (t a) (r.recode T) = recodeResult T (k a r)) :
    Equivariant T (ofRead g >>= k) := by
  intro r
  have hgr := hg r
  cases h : g r with
  | ok a =>
    rw [h] at hgr
    rw [bind_ok (ofRead_ok h), bind_ok (ofRead_ok hgr)]
    exact hk a r
  | error f =>
    have herror : ∀ {r f}, g r = .error f → ofRead g r = .error f r := fun h => by rw [ofRead, h]
    rw [h] at hgr
    rw [bind_error (herror h), bind_error (herror hgr)]
    rfl

/-- What is done may depend on the registry, but not on its ids. -/
theorem equivariant_get_bind {k : Registry → Change β} (hk : ∀ r, Equivariant T (k r))
    (h : ∀ r, k (r.recode T) = k r) : Equivariant T (get >>= k) := fun r => by
  show k (r.recode T) (r.recode T) = recodeResult T (k r r)
  rw [h, hk r]

end Change

open Change

/-! ### Cycles -/

namespace Registry

/-- What is read, or the fault under the other ids. -/
theorem read_recode (r : Registry) (d : Device) (pin : NameId) :
    (r.recode T).read (d.recode T) (T.pin pin) = (r.read d pin).mapError (RunFault.recode T) := by
  have hget :
      (d.recode T).inputs.get? (T.pin pin) = (d.inputs.get? pin).map (Option.map T.source) :=
    T.get?_inputs ..
  rw [read, read, hget]
  rcases d.inputs.get? pin with _ | _ | s
  · rfl
  · rfl
  · simp only [Option.map_some, Option.join_some]
    have hout :
        (r.recode T).output? (T.source s).device (T.source s).pin = r.output? s.device s.pin :=
      r.output?_recode T s.device s.pin
    rw [hout]
    cases r.output? s.device s.pin <;> rfl

theorem mapM_read_recode (r : Registry) (d : Device) (pins : List NameId) :
    (pins.map T.pin).mapM ((r.recode T).read (d.recode T)) =
      (pins.mapM (r.read d)).mapError (RunFault.recode T) := by
  induction pins with
  | nil => rfl
  | cons pin pins ih =>
    rw [List.map_cons, List.mapM_cons, List.mapM_cons, read_recode, ih]
    cases r.read d pin with
    | error f => rfl
    | ok v => cases pins.mapM (r.read d) <;> rfl

theorem gateOutput_recode (r : Registry) (d : Device) :
    (r.recode T).gateOutput (d.recode T) = (r.gateOutput d).mapError (RunFault.recode T) := by
  have hstate : (d.recode T).state = d.state := rfl
  have hpins : (r.recode T).pins.gateInputs = r.pins.gateInputs.map T.pin := rfl
  have hkind : (d.recode T).kind = d.kind := rfl
  simp only [gateOutput, hstate, hpins, hkind, ← List.map_take, mapM_read_recode]
  cases d.state with
  | gate n =>
    dsimp only
    cases (r.pins.gateInputs.take n).mapM (r.read d) with
    | error f => rfl
    | ok vs => cases hk : d.kind <;> rfl
  | xor =>
    dsimp only
    cases (r.pins.gateInputs.take 2).mapM (r.read d) <;> rfl
  | _ => rfl

theorem gateAt_recode (i : Nat) (r : Registry) :
    gateAt i (r.recode T) = ((gateAt i r).map (Option.map fun p => (p.1.recode T, p.2))).mapError
      (RunFault.recode T) := by
  have hget : (r.recode T).devices[i]? = (r.devices[i]?).map (Device.recode T) :=
    List.getElem?_map ..
  rw [gateAt, gateAt, hget]
  cases r.devices[i]? with
  | none => rfl
  | some d =>
    simp only [Option.map_some, gateOutput_recode]
    rcases r.gateOutput d with f | (_ | v) <;> rfl

theorem equivariant_evaluate (i : Nat) : Equivariant T (evaluate i) := by
  refine equivariant_read_bind (gateAt_recode T i) fun a r => ?_
  rcases a with _ | ⟨d, v⟩
  · rfl
  · show EStateM.Result.ok ((d.recode T).value != v) _ = EStateM.Result.ok (d.value != v) _
    rw [Device.value_recode]
    refine congrArg (EStateM.Result.ok _) (Registry.mk.injEq .. |>.mpr ⟨rfl, ?_, rfl⟩)
    show (r.devices.map (Device.recode T)).set i ((d.recode T).putOutput none v) =
      (r.devices.set i (d.putOutput none v)).map (Device.recode T)
    rw [List.map_set, Device.putOutput_none_recode]

theorem equivariant_sweep (n : Nat) : Equivariant T (sweep n) := by
  induction n with
  | zero => exact equivariant_pure _
  | succ n ih => exact ih.bind fun _ => (equivariant_evaluate T n).bind fun _ => equivariant_pure _

theorem equivariant_pass : Equivariant T pass :=
  equivariant_get_bind (fun r => equivariant_sweep T r.size) fun r => by rw [size_recode]

theorem equivariant_settleWithin (left done : Nat) : Equivariant T (settleWithin left done) := by
  induction left generalizing done with
  | zero => exact equivariant_throw rfl
  | succ left ih =>
    refine (equivariant_pass T).bind fun changed => ?_
    cases changed with
    | true => exact ih (done + 1)
    | false => exact equivariant_pure _

theorem equivariant_settle : Equivariant T settle :=
  equivariant_get_bind (fun r => equivariant_settleWithin T r.settleLimit 0) fun r => by
    rw [settleLimit, size_recode, settleLimit]

theorem sample_recode (r : Registry) (d : Device) (q lastClk : Signal) :
    (r.recode T).sample (d.recode T) q lastClk =
      (r.sample d q lastClk).mapError (RunFault.recode T) := by
  have hread := r.read_recode T d
  have hclk : (r.recode T).pins.clk = T.pin r.pins.clk := rfl
  have hset : (r.recode T).pins.set = T.pin r.pins.set := rfl
  have hclear : (r.recode T).pins.clear = T.pin r.pins.clear := rfl
  have hdata : (r.recode T).pins.data = T.pin r.pins.data := rfl
  simp only [sample, hclk, hset, hclear, hdata, hread]
  cases r.read d r.pins.clk with
  | error f => rfl
  | ok clk =>
    cases r.read d r.pins.set with
    | error f => rfl
    | ok set =>
      cases set with
      | true => rfl
      | false =>
        rcases r.read d r.pins.clear with f | (_ | _)
        · rfl
        · simp only [bind, Except.bind, Except.mapError, Bool.false_eq_true, if_false]
          by_cases hrise : (clk && !lastClk) = true
          · simp only [if_pos hrise]
            cases r.read d r.pins.data <;> rfl
          · simp only [if_neg hrise]
            rfl
        · rfl

theorem latch_recode (r : Registry) (d : Device) :
    (r.recode T).latch (d.recode T) =
      ((r.latch d).map fun p => (p.1.recode T, p.2)).mapError (RunFault.recode T) := by
  have hstate : (d.recode T).state = d.state := rfl
  simp only [latch, hstate]
  cases d.state with
  | dtype q lastClk =>
    dsimp only
    rw [sample_recode]
    cases r.sample d q lastClk with
    | error f => rfl
    | ok p =>
      refine congrArg Except.ok (Prod.ext (Device.mk.injEq .. |>.mpr ⟨rfl, rfl, rfl, ?_, rfl⟩) rfl)
      rw [T.outputs_put, T.outputs_put]
      rfl
  | _ => rfl

theorem equivariant_latchAll : Equivariant T latchAll := by
  have hmap : ∀ (r : Registry) (ds : List Device),
      (ds.map (Device.recode T)).mapM (r.recode T).latch =
      ((ds.mapM r.latch).map (List.map fun p => (p.1.recode T, p.2))).mapError
        (RunFault.recode T) := by
    intro r ds
    induction ds with
    | nil => rfl
    | cons d ds ih =>
      rw [List.map_cons, List.mapM_cons, List.mapM_cons, latch_recode, ih]
      cases r.latch d with
      | error f => rfl
      | ok p => cases ds.mapM r.latch <;> rfl
  refine equivariant_read_bind (fun r => hmap r r.devices) fun latched r => ?_
  show EStateM.Result.ok _ _ = EStateM.Result.ok _ _
  simp [recode, Function.comp_def]

theorem equivariant_phases : Equivariant T phases := by
  refine (equivariant_modify (advance_recode T)).bind fun _ => ?_
  refine (equivariant_settle T).bind fun _ => (equivariant_latchAll T).bind fun changed => ?_
  cases changed with
  | false => exact equivariant_pure _
  | true => exact (equivariant_settle T).bind fun _ => equivariant_pure _

/-- A cycle does the same under other ids, if no input floats. -/
theorem cycle_recode_of_floating {r : Registry} (hf : r.floating = [])
    (hf' : (r.recode T).floating = []) : cycle (r.recode T) = recodeResult T (cycle r) := by
  have hphases := equivariant_phases T r
  rw [cycle_eq hf, cycle_eq hf', hphases]
  cases phases r <;> rfl

/-- A cycle does the same under other ids, but another floating input of the same device may be
blamed. -/
theorem cycle_recode {r : Registry} (h : ∀ d ∈ r.devices, d.inputs.Ascending) :
    (∃ a p p', cycle r = .error (.floating a p) r ∧
      cycle (r.recode T) = .error (.floating (T.device a) p') (r.recode T)) ∨
    cycle (r.recode T) = recodeResult T (cycle r) := by
  have hhead := r.floating_recode T h
  cases hf : r.floating with
  | nil =>
    rw [hf] at hhead
    refine Or.inr (cycle_recode_of_floating T hf ?_)
    cases hf' : (r.recode T).floating with
    | nil => rfl
    | cons e l => rw [hf'] at hhead; cases hhead
  | cons e l =>
    rw [hf] at hhead
    cases hf' : (r.recode T).floating with
    | nil => rw [hf'] at hhead; cases hhead
    | cons e' l' =>
      rw [hf'] at hhead
      have hdevice : e'.1 = T.device e.1 := Option.some.inj hhead
      exact Or.inl ⟨e.1, e.2, e'.2, cycle_of_floating hf, hdevice ▸ cycle_of_floating hf'⟩

end Registry

/-! ### Monitors -/

namespace Monitors
variable (r : Registry) (ms : Monitors) (a : NameId) (pin : OutputPin)

theorem watches_recode (m : Monitor) :
    (m.recode T).watches (T.device a) (pin.map T.pin) = m.watches a pin := by
  rw [Monitor.watches, Monitor.watches, Bool.eq_iff_iff]
  simp only [Bool.and_eq_true, beq_iff_eq]
  exact and_congr T.device_injective.eq_iff T.map_pin_inj

theorem watches_comp_recode : (fun m : Monitor => m.watches (T.device a) (pin.map T.pin)) ∘
    Monitor.recode T = fun m => m.watches a pin := funext fun m => watches_recode T a pin m

theorem isMonitored_recode :
    isMonitored (ms.map (Monitor.recode T)) (T.device a) (pin.map T.pin) =
      ms.isMonitored a pin := by
  rw [isMonitored, isMonitored, find?, find?, List.find?_map, watches_comp_recode,
    Option.isSome_map]

theorem insert_recode :
    insert (r.recode T) (ms.map (Monitor.recode T)) (T.device a) (pin.map T.pin) =
      ((insert r ms a pin).1, (insert r ms a pin).2.map (Monitor.recode T)) := by
  rw [insert, insert, Registry.has_recode, Registry.isOutput_recode, isMonitored_recode]
  repeat' split
  all_goals simp [Monitor.recode]

theorem erase_recode :
    erase (ms.map (Monitor.recode T)) (T.device a) (pin.map T.pin) =
      ((ms.erase a pin).1, (ms.erase a pin).2.map (Monitor.recode T)) := by
  rw [erase, erase, isMonitored_recode, List.eraseP_map, watches_comp_recode]
  split <;> rfl

theorem record_recode : record (r.recode T) (ms.map (Monitor.recode T)) =
    ((record r ms).1.map (RunFault.recode T), (record r ms).2.map (Monitor.recode T)) := by
  induction ms with
  | nil => rfl
  | cons m ms ih =>
    have hout : (r.recode T).output? (m.recode T).device (m.recode T).pin =
        r.output? m.device m.pin := r.output?_recode T ..
    rw [List.map_cons, record, record, hout, ih]
    cases r.output? m.device m.pin <;> rfl

theorem reset_recode : reset (ms.map (Monitor.recode T)) = ms.reset.map (Monitor.recode T) := by
  simp [reset, Function.comp_def, Monitor.recode, Monitor.reset]

end Monitors

/-! ### Circuits -/

namespace Circuit

/-- The other circuit has the same devices and monitors under other ids. How many passes the last
cycles took plays no part. -/
structure Recodes (T : Recoding) (c c' : Circuit) : Prop where
  devices : c'.devices = c.devices.recode T
  monitors : c'.monitors = c.monitors.map (Monitor.recode T)

namespace Recodes
variable {T : Recoding} {c c' : Circuit} (h : Recodes T c c')
include h

theorem coldStart : Recodes T c.coldStart c'.coldStart where
  devices := by
    show c'.devices.coldStart = _
    rw [h.devices, Registry.coldStart_recode]
    rfl
  monitors := h.monitors

theorem resetMonitors : Recodes T c.resetMonitors c'.resetMonitors where
  devices := h.devices
  monitors := by
    show c'.monitors.reset = _
    rw [h.monitors, Monitors.reset_recode]
    rfl

theorem create (kind : Kind) (a : NameId) (parameter : Text) :
    (c'.create kind (T.device a) parameter).1 =
        (c.create kind a parameter).1.mapError (CreateFault.rename T.device) ∧
      Recodes T (c.create kind a parameter).2 (c'.create kind (T.device a) parameter).2 := by
  rw [Circuit.create, Circuit.create, h.devices, Registry.create_recode]
  cases c.devices.create kind a parameter with
  | error f => exact ⟨rfl, h⟩
  | ok r => exact ⟨rfl, rfl, h.monitors⟩

theorem connect (source : NameId) (sourcePin : OutputPin) (target pin : NameId) :
    (c'.connect (T.device source) (sourcePin.map T.pin) (T.device target) (T.pin pin)).1 =
        (c.connect source sourcePin target pin).1 ∧
      Recodes T (c.connect source sourcePin target pin).2
        (c'.connect (T.device source) (sourcePin.map T.pin) (T.device target) (T.pin pin)).2 := by
  rw [Circuit.connect, Circuit.connect, h.devices, Registry.connect_recode]
  exact ⟨rfl, rfl, h.monitors⟩

theorem setSwitch (a : NameId) (v : Signal) :
    (c'.setSwitch (T.device a) v).1 = (c.setSwitch a v).1 ∧
      Recodes T (c.setSwitch a v).2 (c'.setSwitch (T.device a) v).2 := by
  rw [Circuit.setSwitch, Circuit.setSwitch, h.devices, Registry.setSwitch_recode]
  cases c.devices.setSwitch a v with
  | none => exact ⟨rfl, h⟩
  | some r => exact ⟨rfl, rfl, h.monitors⟩

theorem monitor (a : NameId) (pin : OutputPin) :
    (c'.monitor (T.device a) (pin.map T.pin)).1 = (c.monitor a pin).1 ∧
      Recodes T (c.monitor a pin).2 (c'.monitor (T.device a) (pin.map T.pin)).2 := by
  rw [Circuit.monitor, Circuit.monitor, h.devices, h.monitors, Monitors.insert_recode]
  exact ⟨rfl, rfl, rfl⟩

theorem unmonitor (a : NameId) (pin : OutputPin) :
    (c'.unmonitor (T.device a) (pin.map T.pin)).1 = (c.unmonitor a pin).1 ∧
      Recodes T (c.unmonitor a pin).2 (c'.unmonitor (T.device a) (pin.map T.pin)).2 := by
  rw [Circuit.unmonitor, Circuit.unmonitor, h.monitors, Monitors.erase_recode]
  exact ⟨rfl, h.devices, rfl⟩

theorem record :
    c'.record.1 = c.record.1.mapError (RunFault.recode T) ∧ Recodes T c.record.2 c'.record.2 := by
  rw [Circuit.record, Circuit.record, h.devices, h.monitors, Monitors.record_recode]
  rcases Monitors.record c.devices c.monitors with ⟨_ | f, ms⟩
  · exact ⟨rfl, rfl, rfl⟩
  · exact ⟨rfl, rfl, rfl⟩

/-- The circuits take cycles alike if their registries do. -/
theorem cycle_of_eq (hcycle : Registry.cycle (c.devices.recode T) =
    recodeResult T (Registry.cycle c.devices)) :
    c'.cycle.1 = c.cycle.1.mapError (RunFault.recode T) ∧ Recodes T c.cycle.2 c'.cycle.2 := by
  rw [Circuit.cycle, Circuit.cycle, EStateM.run, EStateM.run, h.devices, hcycle]
  cases Registry.cycle c.devices with
  | ok passes r => exact ⟨rfl, rfl, h.monitors⟩
  | error f r => exact ⟨rfl, rfl, h.monitors⟩

/-- A cycle that takes place takes as many passes in both. If one fails, so does the other, and a
floating input of the same device may be blamed for it. -/
theorem cycle (ha : ∀ d ∈ c.devices.devices, d.inputs.Ascending) :
    (∃ a p p', c.cycle = (.error (.floating a p), c) ∧
      c'.cycle = (.error (.floating (T.device a) p'), c')) ∨
    c'.cycle.1 = c.cycle.1.mapError (RunFault.recode T) ∧ Recodes T c.cycle.2 c'.cycle.2 := by
  rcases Registry.cycle_recode T ha with ⟨a, p, p', hc, hc'⟩ | hcycle
  · refine Or.inl ⟨a, p, p', ?_, ?_⟩
    · rw [Circuit.cycle, EStateM.run, hc]
    · rw [Circuit.cycle, EStateM.run, h.devices, hc', ← h.devices]
  · exact Or.inr (h.cycle_of_eq hcycle)

end Recodes

end Circuit

end GateSim
