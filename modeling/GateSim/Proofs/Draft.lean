import GateSim.Build
import GateSim.Proofs.Events
import GateSim.Proofs.Registry

/-!
# Drafts never fail

`Draft.Sound`: the devices made so far are well formed, and their names are among the declared ones.
Every event keeps a draft sound, and no event makes a sound draft fail, so every definition is built
(`Definition.build_eq`). An event that is a fault leads to an error unless an earlier one did
(`Draft.isFault_of_run`).
-/

namespace GateSim

namespace Diagnostics

theorem hasErrors_eq_false_iff {ds : Diagnostics} :
    ds.hasErrors = false ↔ ∀ d ∈ ds, d.isError = false := by
  simp [hasErrors, errorCount, List.countP_eq_zero]

end Diagnostics

namespace Circuit

theorem monitor_of_isOutput {c : Circuit} {device : NameId} {pin : OutputPin}
    (h : c.devices.isOutput device pin = true) :
    c.monitor device pin =
      if c.monitors.isMonitored device pin = true then (.present, c)
      else (.ok, { c with monitors := c.monitors ++ [{ device := device, pin := pin }] }) := by
  simp only [monitor, Monitors.insert, Registry.has_of_isOutput h, h]
  by_cases hm : c.monitors.isMonitored device pin = true <;> simp [hm]

end Circuit

namespace Draft

structure Sound (d : Draft) : Prop where
  devices : d.circuit.devices.WellFormed
  declared : ∀ id ∈ d.circuit.devices.ids, id ∈ d.declared

theorem sound_empty {names : NameTable} (h : names.KnowsPins) :
    Sound { circuit := .empty names } where
  devices := .empty (Pins.distinct_ofNames h)
  declared := fun _ hid => absurd hid List.not_mem_nil

variable {d d' : Draft} {names : NameTable}

theorem Sound.abandon (h : d.Sound) (id : NameId) : (d.abandon id).Sound :=
  ⟨h.devices, fun i hi => List.mem_cons_of_mem _ (h.declared i hi)⟩

/-! ### Statements -/

/-- A statement was performed: the draft is sound, and what is known of syntax errors is kept. -/
structure Performed (d d' : Draft) : Prop where
  sound : d'.Sound
  lastReject : d'.lastReject = d.lastReject
  ended : d'.ended = d.ended

theorem Performed.refl (h : d.Sound) : Performed d d := ⟨h, rfl, rfl⟩

theorem device_ok (h : d.Sound) (kind : Kind) (name : Symbol) (parameter : Option Symbol) :
    ∃ d' f, d.device names kind name parameter = .ok (d', f) ∧ Performed d d' := by
  simp only [device]
  split
  · exact ⟨d, _, rfl, .refl h⟩
  next hdecl =>
  have hfresh : d.circuit.devices.has (name.id names) = false := Bool.eq_false_iff.2 fun hhas =>
    hdecl (List.contains_iff_mem.2 (h.declared _ (h.devices.has_iff.1 hhas)))
  cases hc : d.circuit.devices.create kind (name.id names) ((parameter.map (·.text)).getD []) with
  | ok r =>
    obtain ⟨-, dev, hmake, rfl⟩ := Registry.create_eq_ok_iff.1 hc
    simp only [Circuit.create, hc]
    refine ⟨_, _, rfl, ⟨h.devices.create hc, fun id hid => ?_⟩, rfl, rfl⟩
    rw [Registry.ids, List.map_append, List.mem_append] at hid
    rcases hid with hid | hid
    · exact List.mem_cons_of_mem _ (h.declared id hid)
    · rw [List.map_singleton, List.mem_singleton, Device.id_make hmake] at hid
      exact hid ▸ List.mem_cons_self ..
  | error f =>
    simp only [Circuit.create, hc]
    cases f with
    | taken id =>
      unfold Registry.create at hc
      rw [hfresh] at hc
      simp only [Bool.false_eq_true, if_false] at hc
      split at hc <;> cases hc
    | parameter f => exact ⟨_, _, rfl, h.abandon _, rfl, rfl⟩

theorem has_of_undefined {device : Symbol} (h : d.undefined names device = none) :
    d.circuit.devices.has (device.id names) = true := by
  simp only [undefined] at h
  split at h
  · assumption
  · split at h <;> cases h

theorem isOutput_of_noOutput {device : Symbol} {pin : Option Symbol} (hd : d.Sound)
    (hu : d.undefined names device = none) (h : d.noOutput names device pin = none) :
    d.circuit.devices.isOutput (device.id names) (pin.map (·.id names)) = true := by
  obtain ⟨dev, hdev⟩ := hd.devices.exists_device?_of_has (has_of_undefined hu)
  by_cases hout : d.circuit.devices.isOutput (device.id names) (pin.map (·.id names)) = true
  · exact hout
  · simp [noOutput, hout, hdev] at h

theorem isInput_of_noInput {device pin : Symbol} (hd : d.Sound)
    (hu : d.undefined names device = none) (h : d.noInput names device pin = none) :
    d.circuit.devices.isInput (device.id names) (pin.id names) = true := by
  obtain ⟨dev, hdev⟩ := hd.devices.exists_device?_of_has (has_of_undefined hu)
  by_cases hin : d.circuit.devices.isInput (device.id names) (pin.id names) = true
  · exact hin
  · simp [noInput, hin, hdev] at h

theorem connection_ok (h : d.Sound) (source : Symbol) (sourcePin : Option Symbol)
    (target targetPin : Symbol) :
    ∃ d' f, d.connection names source sourcePin target targetPin = .ok (d', f) ∧
      Performed d d' := by
  simp only [connection]
  split
  · exact ⟨d, _, rfl, .refl h⟩
  next hu =>
  split
  · exact ⟨d, _, rfl, .refl h⟩
  next hp =>
  obtain ⟨hus, hut⟩ := Option.or_eq_none_iff.1 hu
  obtain ⟨hout, hin⟩ := Option.or_eq_none_iff.1 hp
  replace hout := isOutput_of_noOutput h hus hout
  obtain ⟨dev, hdev, hpin⟩ := h.devices.exists_of_isInput (isInput_of_noInput h hut hin)
  rcases hpin with hpin | ⟨s, hpin⟩
  · have hc := h.devices.connect_of_free hout hdev hpin
    have hwf := h.devices.connect (source.id names) (sourcePin.map (·.id names))
      (target.id names) (targetPin.id names)
    have hids := h.devices.ids_connect (source.id names) (sourcePin.map (·.id names))
      (target.id names) (targetPin.id names)
    rw [hc] at hwf hids
    simp only [Circuit.connect, hc]
    exact ⟨_, _, rfl, ⟨hwf, hids ▸ h.declared⟩, rfl, rfl⟩
  · simp only [Circuit.connect, Registry.connect_of_taken hout hdev hpin]
    exact ⟨_, _, rfl, h, rfl, rfl⟩

theorem monitor_ok (h : d.Sound) (device : Symbol) (pin : Option Symbol) :
    ∃ d' f, d.monitor names device pin = .ok (d', f) ∧ Performed d d' := by
  simp only [monitor]
  split
  · exact ⟨d, _, rfl, .refl h⟩
  next hu =>
  split
  · exact ⟨d, _, rfl, .refl h⟩
  next hp =>
  rw [Circuit.monitor_of_isOutput (isOutput_of_noOutput h hu hp)]
  by_cases hm : d.circuit.monitors.isMonitored (device.id names) (pin.map (·.id names)) = true
  · simp only [hm, if_true]
    exact ⟨_, _, rfl, .refl h⟩
  · simp only [hm, Bool.false_eq_true, if_false]
    exact ⟨_, _, rfl, ⟨h.devices, h.declared⟩, rfl, rfl⟩

theorem perform_ok (names : NameTable) (h : d.Sound) (st : Statement) :
    ∃ d' f, d.perform names st = .ok (d', f) ∧ Performed d d' := by
  cases st with
  | device kind name parameter => exact device_ok h kind name parameter
  | connection source sourcePin target targetPin => exact connection_ok h ..
  | monitor device pin => exact monitor_ok h device pin

/-! ### Events -/

variable {text : Definition}

theorem sound_reject (h : d.Sound) (symbol : Symbol) (code : Code) (message : Text) :
    (d.reject text symbol code message).1.Sound := by
  unfold reject
  split
  · exact h
  · exact ⟨h.devices, h.declared⟩

theorem step_complete {st : Statement} {f : Option SemanticFault}
    (h : d.perform names st = .ok (d', f)) :
    d.step text names (.note (.complete st)) = .ok (d', f.map fun f =>
      text.diagnose f.symbol .semantic f.code f.message f.severity) := by
  simp [step, h, bind, Except.bind, pure, Except.pure]

theorem step_ok (text : Definition) (names : NameTable) (h : d.Sound) (e : Event) :
    ∃ d' x, d.step text names e = .ok (d', x) ∧ d'.Sound := by
  cases e with
  | stray symbol => exact ⟨d, _, rfl, h⟩
  | note n =>
    cases n with
    | pass => exact ⟨d, _, rfl, h⟩
    | reject symbol fault => exact ⟨_, _, rfl, sound_reject h ..⟩
    | endsEarly =>
      have hended : ({ d with ended := true } : Draft).Sound := ⟨h.devices, h.declared⟩
      simp only [step]
      split
      · exact ⟨d, _, rfl, h⟩
      · exact ⟨_, _, rfl, sound_reject hended ..⟩
    | abandon name => exact ⟨_, _, rfl, h.abandon _⟩
    | complete st =>
      obtain ⟨d', f, hp, hd'⟩ := perform_ok names h st
      exact ⟨d', _, step_complete hp, hd'.sound⟩

theorem run_cons {d'' : Draft} {e : Event} {events : List Event} {x : Option Diagnostic}
    {ds : Diagnostics} (h : d.step text names e = .ok (d', x))
    (hr : d'.run text names events = .ok (d'', ds)) :
    d.run text names (e :: events) = .ok (d'', x.toList ++ ds) := by
  simp [run, h, hr, bind, Except.bind, pure, Except.pure]

theorem run_ok (text : Definition) (names : NameTable) (h : d.Sound) (events : List Event) :
    ∃ d' ds, d.run text names events = .ok (d', ds) ∧ d'.Sound := by
  induction events generalizing d with
  | nil => exact ⟨d, [], rfl, h⟩
  | cons e events ih =>
    obtain ⟨d₁, x, hstep, hd₁⟩ := step_ok text names h e
    obtain ⟨d₂, ds, hrun, hd₂⟩ := ih hd₁
    exact ⟨d₂, _, run_cons hstep hrun, hd₂⟩

/-- A run takes a step and goes on from a sound draft. -/
theorem run_cons_cases {d'' : Draft} {e : Event} {events : List Event} {ds : Diagnostics}
    (h : d.Sound) (hr : d.run text names (e :: events) = .ok (d'', ds)) :
    ∃ d' x ds', d.step text names e = .ok (d', x) ∧ d'.Sound ∧
      d'.run text names events = .ok (d'', ds') ∧ x.toList ++ ds' = ds := by
  obtain ⟨d₁, x, hstep, hd₁⟩ := step_ok text names h e
  obtain ⟨d₂, ds', hrun, -⟩ := run_ok text names hd₁ events
  cases (run_cons hstep hrun).symm.trans hr
  exact ⟨d₁, x, ds', hstep, hd₁, hrun, rfl⟩

def Unharmed (d : Draft) : Prop := d.lastReject = none ∧ d.ended = false

/-- The first fault leads to an error. -/
theorem step_of_isFault (text : Definition) (names : NameTable) (hu : d.Unharmed) {e : Event}
    (he : e.isFault = true) : ∃ d' x, d.step text names e = .ok (d', some x) ∧ x.isError = true := by
  have hreject : ∀ (d : Draft), d.lastReject = none → ∀ symbol code message,
      ∃ d' x, d.reject text symbol code message = (d', some x) ∧ x.isError = true := by
    intro d hd symbol code message
    exact ⟨_, _, by rw [reject, hd, if_neg (by simp)], rfl⟩
  cases e with
  | stray symbol =>
    refine ⟨d, text.stray symbol, rfl, ?_⟩
    unfold Definition.stray
    split <;> rfl
  | note n =>
    cases n with
    | reject symbol fault =>
      obtain ⟨d', x, h, hx⟩ := hreject d hu.1 (symbol.getD text.last) fault.code
        (fault.message (symbol.getD text.last))
      exact ⟨d', x, congrArg Except.ok h, hx⟩
    | endsEarly =>
      obtain ⟨d', x, h, hx⟩ := hreject { d with ended := true } hu.1 text.last .unexpectedEndOfFile
        (.ofString "File ends too early. Check for missing sections or 'END;'")
      refine ⟨d', x, ?_, hx⟩
      simp only [step, hu.2, Bool.false_eq_true, if_false, h]
    | pass => cases he
    | abandon name => cases he
    | complete st => cases he

theorem unharmed_step (h : d.Sound) (hu : d.Unharmed) {e : Event} (he : e.isFault = false)
    {x : Option Diagnostic} (hs : d.step text names e = .ok (d', x)) : d'.Unharmed := by
  cases e with
  | stray symbol => cases he
  | note n =>
    cases n with
    | reject symbol fault => cases he
    | endsEarly => cases he
    | pass => cases hs; exact hu
    | abandon name => cases hs; exact hu
    | complete st =>
      obtain ⟨d₁, f, hp, hd₁⟩ := perform_ok names h st
      rw [step_complete hp] at hs
      cases hs
      exact ⟨hd₁.lastReject.trans hu.1, hd₁.ended.trans hu.2⟩

theorem isFault_of_run (h : d.Sound) (hu : d.Unharmed) {events : List Event} {ds : Diagnostics}
    (hr : d.run text names events = .ok (d', ds)) (hds : ds.hasErrors = false) :
    ∀ e ∈ events, e.isFault = false := by
  rw [Diagnostics.hasErrors_eq_false_iff] at hds
  induction events generalizing d ds with
  | nil => simp
  | cons e events ih =>
    obtain ⟨d₁, x, ds', hstep, hd₁, hrun, rfl⟩ := run_cons_cases h hr
    have he : e.isFault = false := by
      refine Bool.eq_false_iff.2 fun hf => ?_
      obtain ⟨d₃, x', hstep', hx'⟩ :=
        step_of_isFault text names hu hf
      rw [hstep] at hstep'
      cases hstep'
      simp [hds x' (by simp)] at hx'
    intro e' he'
    rcases List.mem_cons.1 he' with rfl | he'
    · exact he
    · exact ih hd₁ (unharmed_step h hu he hstep) hrun
        (fun y hy => hds y (List.mem_append_right _ hy)) e' he'

end Draft

namespace Definition

variable (d : Definition) (names : NameTable)

theorem knowsPins_names : (d.names names).KnowsPins :=
  NameTable.knowsPins_insertPins.insertAll _

/-- Every definition is built, from a draft without devices. -/
theorem build_eq : ∃ draft diagnostics,
    Draft.run d (d.names names) { circuit := .empty (d.names names) } d.events =
      .ok (draft, diagnostics) ∧
    d.build names = .ok { names := d.names names, circuit := draft.circuit, diagnostics } := by
  obtain ⟨draft, ds, hrun, -⟩ := Draft.run_ok d (d.names names)
    (Draft.sound_empty (d.knowsPins_names names)) d.events
  refine ⟨draft, ds, hrun, ?_⟩
  simp [build, hrun, bind, Except.bind, pure, Except.pure]

theorem regular_of_run {draft : Draft} {ds : Diagnostics}
    (h : Draft.run d (d.names names) { circuit := .empty (d.names names) } d.events =
      .ok (draft, ds)) (hds : ds.hasErrors = false) : d.Regular :=
  Draft.isFault_of_run (Draft.sound_empty (d.knowsPins_names names)) ⟨rfl, rfl⟩ h hds

end Definition

end GateSim
