import GateSim.Proofs.Embedding
import GateSim.Proofs.Recoding

/-!
# Other ids for devices

Devices alone have other ids here (`Recoding.ofDevices`), while pins keep theirs. Then the pins of a
device stay in their order, so that cycles fail alike as well (`Registry.equivariant_cycle`).
-/

namespace GateSim

/-- The registry with other ids for its devices. -/
def Registry.rename (ρ : NameId → NameId) (r : Registry) : Registry where
  pins := r.pins
  devices := r.devices.map (Device.rename ρ)
  places := r.places.map fun p => (ρ p.1, p.2)

def RunFault.rename (ρ : NameId → NameId) : RunFault → RunFault
  | .floating device pin => .floating (ρ device) pin
  | .oscillation passes => .oscillation passes
  | .missingOutput device pin source => .missingOutput (ρ device) pin (source.rename ρ)
  | .gateState kind => .gateState kind
  | .lostMonitor device pin => .lostMonitor (ρ device) pin

def Monitor.rename (ρ : NameId → NameId) (m : Monitor) : Monitor := { m with device := ρ m.device }

variable {ρ : NameId → NameId}

theorem Source.recode_id (ρ : NameId → NameId) : Source.recode ρ id = Source.rename ρ :=
  funext fun s => by rw [recode, Option.map_id]; rfl

/-- Pins keep their ids. -/
def Recoding.ofDevices (ρ : NameId → NameId) (hρ : Function.Injective ρ) : Recoding where
  device := ρ
  pin := id
  inputs m := m.map fun e => (e.1, e.2.map (Source.rename ρ))
  outputs m := m
  device_injective := hρ
  pin_injective := Function.injective_id
  inputs_nil := rfl
  inputs_put m p s := by
    rw [Source.recode_id]
    exact PinMap.map_putAll (Option.map (Source.rename ρ)) [(p, s)] m
  get?_inputs m p := by
    rw [Source.recode_id]
    exact PinMap.get?_map _ m p
  inputs_perm m _ := by rw [Source.recode_id]; rfl
  outputs_nil := rfl
  outputs_put m p v := by rw [Option.map_id]; rfl
  get?_outputs m p := by rw [Option.map_id]; rfl
  outputs_perm m _ := by simp

section
variable (hρ : Function.Injective ρ)
include hρ

theorem Recoding.map_pin_ofDevices (pin : OutputPin) : pin.map (ofDevices ρ hρ).pin = pin :=
  congrFun Option.map_id pin

theorem Registry.recode_ofDevices (r : Registry) : r.recode (.ofDevices ρ hρ) = r.rename ρ := by
  refine Registry.mk.injEq .. |>.mpr ⟨?_, rfl, rfl⟩
  exact Pins.mk.injEq .. |>.mpr ⟨List.map_id _, rfl, rfl, rfl, rfl, rfl, rfl⟩

theorem RunFault.recode_ofDevices : recode (.ofDevices ρ hρ) = rename ρ := by
  funext f
  cases f with
  | missingOutput device pin source => exact congrArg _ (congrFun (Source.recode_id ρ) source)
  | lostMonitor device pin => exact congrArg _ (Recoding.map_pin_ofDevices hρ pin)
  | _ => rfl

theorem Monitor.recode_ofDevices : recode (.ofDevices ρ hρ) = rename ρ := by
  funext m
  exact congrArg (Monitor.mk _ · _) (Recoding.map_pin_ofDevices hρ m.pin)

end

namespace Registry
variable (hρ : Function.Injective ρ) (r : Registry) (a : NameId)

section
include hρ

theorem has_rename : (r.rename ρ).has (ρ a) = r.has a := by
  rw [← recode_ofDevices hρ]
  exact r.has_recode (.ofDevices ρ hρ) a

theorem device?_rename : (r.rename ρ).device? (ρ a) = (r.device? a).map (Device.rename ρ) := by
  rw [← recode_ofDevices hρ]
  exact r.device?_recode (.ofDevices ρ hρ) a

theorem output?_rename (pin : OutputPin) : (r.rename ρ).output? (ρ a) pin = r.output? a pin := by
  have hout := r.output?_recode (.ofDevices ρ hρ) a pin
  rwa [recode_ofDevices, Recoding.map_pin_ofDevices] at hout

end

theorem idsOf_rename (ρ : NameId → NameId) (kind : Kind) :
    (r.rename ρ).idsOf kind = (r.idsOf kind).map ρ := by
  simp only [idsOf, rename, List.filter_map, List.map_map]
  rfl

theorem ids_rename (ρ : NameId → NameId) : (r.rename ρ).ids = r.ids.map ρ := by
  simp [ids, rename, Device.rename]

theorem floating_rename (ρ : NameId → NameId) :
    (r.rename ρ).floating = r.floating.map fun p => (ρ p.1, p.2) := by
  have hdevice : ∀ d : Device, (d.rename ρ).floating = d.floating := by
    intro d
    unfold Device.floating Device.rename
    rw [List.filterMap_map]
    refine List.filterMap_congr fun e _ => ?_
    obtain ⟨pin, source⟩ := e
    cases source <;> rfl
  simp only [floating, rename, List.flatMap_map, List.map_flatMap, hdevice, List.map_map]
  rfl

theorem equivariant_cycle : Change.Equivariant (.ofDevices ρ hρ) cycle := by
  intro r
  have hfloating := r.floating_rename ρ
  rw [← recode_ofDevices hρ] at hfloating
  cases hf : r.floating with
  | cons e l =>
    rw [hf, List.map_cons] at hfloating
    rw [cycle_of_floating hf, cycle_of_floating hfloating]
    rfl
  | nil =>
    rw [hf, List.map_nil] at hfloating
    exact cycle_recode_of_floating _ hf hfloating

end Registry

/-! ### Circuits -/

theorem Monitors.isMonitored_rename (hρ : Function.Injective ρ) (ms : Monitors) (a : NameId)
    (pin : OutputPin) :
    isMonitored (ms.map (Monitor.rename ρ)) (ρ a) pin = ms.isMonitored a pin := by
  have hmonitored := isMonitored_recode (.ofDevices ρ hρ) ms a pin
  rwa [Monitor.recode_ofDevices, Recoding.map_pin_ofDevices] at hmonitored

namespace Circuit

/-- The other circuit has the same devices and monitors under other ids. How many passes the last
cycles took plays no part. -/
structure Copies (ρ : NameId → NameId) (c c' : Circuit) : Prop where
  devices : c'.devices = c.devices.rename ρ
  monitors : c'.monitors = c.monitors.map (Monitor.rename ρ)

theorem copies_iff (hρ : Function.Injective ρ) {c c' : Circuit} :
    c.Copies ρ c' ↔ c.Recodes (.ofDevices ρ hρ) c' := by
  refine ⟨fun h => ⟨?_, ?_⟩, fun h => ⟨?_, ?_⟩⟩
  · rw [h.devices, Registry.recode_ofDevices]
  · rw [h.monitors, Monitor.recode_ofDevices]
  · rw [h.devices, Registry.recode_ofDevices]
  · rw [h.monitors, Monitor.recode_ofDevices]

namespace Copies
variable {c c' : Circuit} (h : Copies ρ c c') (hρ : Function.Injective ρ)
include h hρ

theorem coldStart : Copies ρ c.coldStart c'.coldStart :=
  (copies_iff hρ).2 ((copies_iff hρ).1 h).coldStart

theorem resetMonitors : Copies ρ c.resetMonitors c'.resetMonitors :=
  (copies_iff hρ).2 ((copies_iff hρ).1 h).resetMonitors

theorem setSwitch (a : NameId) (v : Signal) :
    (c'.setSwitch (ρ a) v).1 = (c.setSwitch a v).1 ∧
      Copies ρ (c.setSwitch a v).2 (c'.setSwitch (ρ a) v).2 := by
  obtain ⟨hresult, hrecodes⟩ := ((copies_iff hρ).1 h).setSwitch a v
  exact ⟨hresult, (copies_iff hρ).2 hrecodes⟩

theorem monitor (a : NameId) (pin : OutputPin) :
    (c'.monitor (ρ a) pin).1 = (c.monitor a pin).1 ∧
      Copies ρ (c.monitor a pin).2 (c'.monitor (ρ a) pin).2 := by
  obtain ⟨hresult, hrecodes⟩ := ((copies_iff hρ).1 h).monitor a pin
  rw [Recoding.map_pin_ofDevices] at hresult hrecodes
  exact ⟨hresult, (copies_iff hρ).2 hrecodes⟩

theorem unmonitor (a : NameId) (pin : OutputPin) :
    (c'.unmonitor (ρ a) pin).1 = (c.unmonitor a pin).1 ∧
      Copies ρ (c.unmonitor a pin).2 (c'.unmonitor (ρ a) pin).2 := by
  obtain ⟨hresult, hrecodes⟩ := ((copies_iff hρ).1 h).unmonitor a pin
  rw [Recoding.map_pin_ofDevices] at hresult hrecodes
  exact ⟨hresult, (copies_iff hρ).2 hrecodes⟩

theorem cycle : c'.cycle.1 = c.cycle.1.mapError (RunFault.rename ρ) ∧
    Copies ρ c.cycle.2 c'.cycle.2 := by
  obtain ⟨hresult, hrecodes⟩ :=
    ((copies_iff hρ).1 h).cycle_of_eq (Registry.equivariant_cycle hρ c.devices)
  rw [RunFault.recode_ofDevices] at hresult
  exact ⟨hresult, (copies_iff hρ).2 hrecodes⟩

theorem record :
    c'.record.1 = c.record.1.mapError (RunFault.rename ρ) ∧ Copies ρ c.record.2 c'.record.2 := by
  obtain ⟨hresult, hrecodes⟩ := ((copies_iff hρ).1 h).record
  rw [RunFault.recode_ofDevices] at hresult
  exact ⟨hresult, (copies_iff hρ).2 hrecodes⟩

theorem step : c'.step.1 = c.step.1.mapError (RunFault.rename ρ) ∧ Copies ρ c.step.2 c'.step.2 := by
  obtain ⟨hresult, hcopies⟩ := h.cycle hρ
  rw [Circuit.step, Circuit.step]
  rcases hc : c.cycle with ⟨f | passes, c₁⟩ <;> rcases hc' : c'.cycle with ⟨f' | passes', c₁'⟩ <;>
    rw [hc, hc'] at hresult hcopies <;> cases hresult
  · exact ⟨rfl, hcopies⟩
  obtain ⟨hresult, hcopies⟩ := hcopies.record hρ
  dsimp only at hresult hcopies ⊢
  rcases hr : c₁.record with ⟨f | _, c₂⟩ <;> rcases hr' : c₁'.record with ⟨f' | _, c₂'⟩ <;>
    rw [hr, hr'] at hresult hcopies <;> cases hresult
  · exact ⟨rfl, hcopies⟩
  · exact ⟨rfl, hcopies⟩

end Copies

end Circuit

end GateSim
