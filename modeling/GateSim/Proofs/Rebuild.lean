import Mathlib.Data.List.Basic
import GateSim.Proofs.Rearrange
import GateSim.Proofs.Sketch
import GateSim.Proofs.Walk

/-!
# Building over two tables

A definition is built over what a name table knows, and gives the same over every other table: the
same diagnostics, and the same circuit under other ids (`Definition.build_relabels`). A statement is
performed only after its symbols have been seen, so both tables know all names in it; whatever else
they know does not come up. Over standard tables the circuits are twins (`Definition.build_twin`).
-/

namespace GateSim

open Grammar

/-- The ids of one table become those of the other. -/
structure Recoding.Carries (T : Recoding) (names names' : NameTable) : Prop where
  device : ∀ t, t ∈ names.texts → t ∈ names'.texts → T.device (names.idOf t) = names'.idOf t
  pin : ∀ t ∈ PinWord.inputs ++ PinWord.outputs, T.pin (names.idOf t) = names'.idOf t

theorem Pins.recode_ofNames {T : Recoding} {names names' : NameTable}
    (hpin : ∀ t ∈ PinWord.inputs ++ PinWord.outputs, T.pin (names.idOf t) = names'.idOf t) :
    (ofNames names).recode T = ofNames names' := by
  simp only [PinWord.inputs, PinWord.outputs, List.forall_mem_append, List.forall_mem_cons] at hpin
  obtain ⟨⟨hgates, hdata, hclk, hset, hclear, -⟩, hq, hqbar, -⟩ := hpin
  refine Pins.mk.injEq .. |>.mpr ⟨?_, hdata, hclk, hset, hclear, hq, hqbar⟩
  exact (List.map_map ..).trans (List.map_congr_left hgates)

/-- Both tables have seen the symbol. -/
structure Symbol.Shared (names names' : NameTable) (x : Symbol) : Prop where
  seen : x.Seen names
  seen' : x.Seen names'

theorem Symbol.Shared.id_eq {names names' : NameTable} {x : Symbol} (h : x.Shared names names')
    {T : Recoding} (hT : T.Carries names names') : x.id names' = T.device (x.id names) := by
  rw [h.seen.id_eq, h.seen'.id_eq, hT.device x.text h.seen.known h.seen'.known]

theorem Circuit.ids_create {c c₁ : Circuit} {kind : Kind} {id : NameId} {parameter : Text}
    (h : c.create kind id parameter = (.ok (), c₁)) :
    c₁.devices.ids = c.devices.ids ++ [id] := by
  unfold Circuit.create at h
  split at h
  · next r hr =>
    cases h
    exact Registry.ids_create hr
  · cases h

/-- Under the same names outputs have the same labels. -/
theorem Session.Relabels.label_eq {s s' : Session} {T : Recoding} (h : s.Relabels id T s')
    (hs : s.Intact) (hs' : s'.Intact) {a : NameId} {pin : OutputPin}
    (hout : ∃ d ∈ s.circuit.devices.devices, d.id = a ∧ pin ∈ d.outputs.keys) :
    s'.names.label (T.device a) (pin.map T.pin) = s.names.label a pin := by
  obtain ⟨d, hd, rfl, hpin⟩ := hout
  have hdevice := h.nameOf_device (List.mem_map_of_mem hd)
  have hname := h.nameOf_output hs hs' hd hpin
  cases pin with
  | none => exact hdevice
  | some pin =>
    rw [Option.map_some, NameTable.label, NameTable.label, hdevice, id]
    exact congrArg _ (Option.some.inj hname)

namespace Draft

/-- The drafts differ by the ids of their names and pins only. -/
structure Recodes (T : Recoding) (names names' : NameTable) (d d' : Draft) : Prop where
  carries : T.Carries names names'
  circuits : Session.Relabels id T ⟨names, d.circuit⟩ ⟨names', d'.circuit⟩
  dotless : ∀ a ∈ d.circuit.devices.ids, '.'.toUInt8 ∉ names.nameOf a
  declared : d'.declared = d.declared.map T.device
  broken : d'.broken = d.broken.map T.device
  lastReject : d'.lastReject = d.lastReject
  ended : d'.ended = d.ended

/-- What is known of a draft over a table. -/
structure Proper (names : NameTable) (d : Draft) : Prop where
  sound : d.Sound
  reachable : Session.Reachable ⟨names, d.circuit⟩

theorem Proper.step {text : Definition} {names : NameTable} {d d' : Draft} {e : Event}
    {x : Option Diagnostic} (h : d.Proper names) (hs : d.step text names e = .ok (d', x)) :
    d'.Proper names := by
  obtain ⟨d₁, x₁, hs₁, hsound⟩ := step_ok text names h.sound e
  cases hs.symm.trans hs₁
  exact ⟨hsound, (follows_step hs).reachable h.reachable⟩

namespace Recodes
variable {T : Recoding} {names names' : NameTable} {d d' : Draft} (h : Recodes T names names' d d')
include h

theorem devices : d'.circuit.devices = d.circuit.devices.recode T := h.circuits.circuit.devices

/-- Both drafts after a change of their circuits that leaves the ids alone. -/
theorem of_ids {c c' : Circuit} (hids : c.devices.ids = d.circuit.devices.ids)
    (hc : c.Recodes T c') :
    Recodes T names names' { d with circuit := c } { d' with circuit := c' } where
  carries := h.carries
  circuits := h.circuits.of_ids rfl rfl hids hc
  dotless := hids ▸ h.dotless
  declared := h.declared
  broken := h.broken
  lastReject := h.lastReject
  ended := h.ended

section
variable {x : Symbol} (hx : x.Shared names names')
include hx

theorem contains_declared :
    d'.declared.contains (x.id names') = d.declared.contains (x.id names) := by
  rw [h.declared, hx.id_eq h.carries, Bool.eq_iff_iff, List.contains_iff_mem, List.contains_iff_mem]
  exact List.mem_map_of_injective T.device_injective

theorem contains_broken : d'.broken.contains (x.id names') = d.broken.contains (x.id names) := by
  rw [h.broken, hx.id_eq h.carries, Bool.eq_iff_iff, List.contains_iff_mem, List.contains_iff_mem]
  exact List.mem_map_of_injective T.device_injective

theorem abandon : Recodes T names names' (d.abandon (x.id names)) (d'.abandon (x.id names')) where
  carries := h.carries
  circuits := h.circuits
  dotless := h.dotless
  declared := by rw [Draft.abandon, Draft.abandon, h.declared, hx.id_eq h.carries, List.map_cons]
  broken := by rw [Draft.abandon, Draft.abandon, h.broken, hx.id_eq h.carries, List.map_cons]
  lastReject := h.lastReject
  ended := h.ended

theorem undefined : d'.undefined names' x = d.undefined names x := by
  have hhas : d'.circuit.devices.has (x.id names') = d.circuit.devices.has (x.id names) := by
    rw [h.devices, hx.id_eq h.carries, Registry.has_recode]
  rw [Draft.undefined, Draft.undefined, hhas, h.contains_broken hx]

theorem device (hdot : '.'.toUInt8 ∉ x.text) {kind : Kind} {parameter : Option Symbol} {d₁ : Draft}
    {f : Option SemanticFault} (hok : d.device names kind x parameter = .ok (d₁, f)) :
    ∃ d₁', d'.device names' kind x parameter = .ok (d₁', f) ∧ Recodes T names names' d₁ d₁' := by
  obtain ⟨hresult, hcircuit⟩ := h.circuits.circuit.create kind (x.id names)
    ((parameter.map (·.text)).getD [])
  simp only [← hx.id_eq h.carries] at hresult hcircuit
  simp only [Draft.device, h.contains_declared hx] at hok ⊢
  by_cases hdecl : d.declared.contains (x.id names) = true
  · rw [if_pos hdecl] at hok ⊢
    cases hok
    exact ⟨_, rfl, h⟩
  rw [if_neg hdecl] at hok ⊢
  rcases hc : d.circuit.create kind (x.id names) ((parameter.map (·.text)).getD [])
    with ⟨(id | fault) | _, c⟩ <;>
  rcases hc' : d'.circuit.create kind (x.id names') ((parameter.map (·.text)).getD [])
    with ⟨r', c'⟩ <;> rw [hc, hc'] at hresult hcircuit <;> cases hresult <;> rw [hc] at hok <;>
    rw [hc'] <;> cases hok
  · exact ⟨_, rfl, h.abandon hx⟩
  have hids := Circuit.ids_create hc
  refine ⟨_, rfl, h.carries, ⟨hcircuit, h.circuits.pin, ?_⟩, ?_, ?_, h.broken, h.lastReject,
    h.ended⟩
  · show ∀ a ∈ c.devices.ids, _
    rw [hids]
    refine List.forall_mem_append.2 ⟨h.circuits.known, fun a ha => ?_⟩
    rw [List.mem_singleton.1 ha]
    exact ⟨x.text, hx.seen.known, hx.seen.id_eq.symm, hx.seen'.known,
      (hx.id_eq h.carries).symm.trans hx.seen'.id_eq⟩
  · show ∀ a ∈ c.devices.ids, _
    rw [hids]
    refine List.forall_mem_append.2 ⟨h.dotless, fun a ha => ?_⟩
    rwa [List.mem_singleton.1 ha, hx.seen.id_eq, NameTable.nameOf_idOf hx.seen.known]
  · show x.id names' :: d'.declared = _
    rw [h.declared, hx.id_eq h.carries, List.map_cons]

end

/-! ### Connections and monitors -/

section
variable {x p : Symbol} {pin : Option Symbol}

theorem noOutput (hx : x.Shared names names')
    (hpin : pin.map (·.id names') = (pin.map (·.id names)).map T.pin) :
    d'.noOutput names' x pin = d.noOutput names x pin := by
  simp only [Draft.noOutput, hpin, hx.id_eq h.carries, h.devices, Registry.isOutput_recode,
    Registry.device?_recode]
  rw [Option.map_map]
  rfl

theorem noInput (hx : x.Shared names names') (hp : p.id names' = T.pin (p.id names)) :
    d'.noInput names' x p = d.noInput names x p := by
  simp only [Draft.noInput, hp, hx.id_eq h.carries, h.devices, Registry.isInput_recode,
    Registry.device?_recode, Option.map_map]
  rfl

/-- The source of an input goes by the same name. -/
theorem source_label (hd : d.Proper names) (hd' : d'.Proper names') (a pin : NameId) :
    ((d'.circuit.devices.source? (T.device a) (T.pin pin)).map fun s =>
        names'.label s.device s.pin) =
      (d.circuit.devices.source? a pin).map fun s => names.label s.device s.pin := by
  rw [h.devices, Registry.source?_recode, Option.map_map]
  cases hsource : d.circuit.devices.source? a pin with
  | none => rfl
  | some s =>
    obtain ⟨dev, hdev, hget⟩ := Option.bind_eq_some_iff.1 hsource
    obtain ⟨hmem, -⟩ := hd.sound.devices.device?_eq_some_iff.1 hdev
    exact congrArg some (h.circuits.label_eq hd.reachable.intact hd'.reachable.intact
      (hd.sound.devices.sources dev hmem pin s (Option.join_eq_some_iff.1 hget)))

theorem connection (hd : d.Proper names) (hd' : d'.Proper names')
    {source target targetPin : Symbol} {sourcePin : Option Symbol}
    (hsource : source.Shared names names') (htarget : target.Shared names names')
    (hsourcePin : sourcePin.map (·.id names') = (sourcePin.map (·.id names)).map T.pin)
    (htargetPin : targetPin.id names' = T.pin (targetPin.id names)) {d₁ : Draft}
    {f : Option SemanticFault}
    (hok : d.connection names source sourcePin target targetPin = .ok (d₁, f)) :
    ∃ d₁', d'.connection names' source sourcePin target targetPin = .ok (d₁', f) ∧
      Recodes T names names' d₁ d₁' := by
  obtain ⟨hresult, hcircuit⟩ := h.circuits.circuit.connect (source.id names)
    (sourcePin.map (·.id names)) (target.id names) (targetPin.id names)
  have hlabel := h.source_label hd hd' (target.id names) (targetPin.id names)
  simp only [← hsource.id_eq h.carries, ← htarget.id_eq h.carries, ← hsourcePin, ← htargetPin]
    at hresult hcircuit hlabel
  simp only [Draft.connection, h.undefined hsource, h.undefined htarget,
    h.noOutput hsource hsourcePin, h.noInput htarget htargetPin] at hok ⊢
  split at hok
  · cases hok
    exact ⟨_, rfl, h⟩
  split at hok
  · cases hok
    exact ⟨_, rfl, h⟩
  rcases hc : d.circuit.connect (source.id names) (sourcePin.map (·.id names)) (target.id names)
    (targetPin.id names) with ⟨status, c⟩
  rcases hc' : d'.circuit.connect (source.id names') (sourcePin.map (·.id names'))
    (target.id names') (targetPin.id names') with ⟨status', c'⟩
  have hids := hd.sound.devices.ids_connect (source.id names) (sourcePin.map (·.id names))
    (target.id names) (targetPin.id names)
  replace hids : c.devices.ids = d.circuit.devices.ids := by
    rw [← hids, ← congrArg (·.2.devices.ids) hc]
    rfl
  rw [hc, hc'] at hresult hcircuit
  obtain rfl : status' = status := hresult
  rw [hc] at hok
  rw [hc']
  cases status' with
  | ok =>
    cases hok
    exact ⟨_, rfl, h.of_ids hids hcircuit⟩
  | inputConnected =>
    cases hok
    refine ⟨d', ?_, h⟩
    revert hlabel
    rcases d.circuit.devices.source? (target.id names) (targetPin.id names) with _ | s <;>
      rcases d'.circuit.devices.source? (target.id names') (targetPin.id names') with _ | s' <;>
      intro hlabel
    · rfl
    · cases hlabel
    · cases hlabel
    · simp only [Option.some.inj hlabel]
  | deviceAbsent => cases hok
  | pinAbsent => cases hok

theorem monitor (hd : d.Proper names) (hd' : d'.Proper names') (hx : x.Shared names names')
    (hpin : pin.map (·.id names') = (pin.map (·.id names)).map T.pin) {d₁ : Draft}
    {f : Option SemanticFault} (hok : d.monitor names x pin = .ok (d₁, f)) :
    ∃ d₁', d'.monitor names' x pin = .ok (d₁', f) ∧ Recodes T names names' d₁ d₁' := by
  obtain ⟨hresult, hcircuit⟩ := h.circuits.circuit.monitor (x.id names) (pin.map (·.id names))
  simp only [← hx.id_eq h.carries, ← hpin] at hresult hcircuit
  simp only [Draft.monitor, h.undefined hx, h.noOutput hx hpin] at hok ⊢
  split at hok
  · cases hok
    exact ⟨_, rfl, h⟩
  next hundefined =>
  split at hok
  · cases hok
    exact ⟨_, rfl, h⟩
  next hno =>
  have hlabel : names'.label (x.id names') (pin.map (·.id names')) =
      names.label (x.id names) (pin.map (·.id names)) := by
    rw [hx.id_eq h.carries, hpin]
    exact h.circuits.label_eq hd.reachable.intact hd'.reachable.intact
      (hd.sound.devices.isOutput_iff.1 (isOutput_of_noOutput hd.sound hundefined hno))
  rcases hc : d.circuit.monitor (x.id names) (pin.map (·.id names)) with ⟨status, c⟩
  rcases hc' : d'.circuit.monitor (x.id names') (pin.map (·.id names')) with ⟨status', c'⟩
  have hids : c.devices.ids = d.circuit.devices.ids := (congrArg (·.2.devices.ids) hc).symm
  rw [hc, hc'] at hresult hcircuit
  obtain rfl : status' = status := hresult
  rw [hc] at hok
  rw [hc', hlabel]
  cases status' with
  | ok =>
    cases hok
    exact ⟨_, rfl, h.of_ids hids hcircuit⟩
  | present =>
    cases hok
    exact ⟨d', rfl, h⟩
  | deviceAbsent => cases hok
  | notOutput => cases hok
  | notMonitored => cases hok

end

/-! ### Statements and events -/

theorem pin_id {x : Symbol} (hx : x.Shared names names')
    (ht : x.text ∈ PinWord.inputs ++ PinWord.outputs) : x.id names' = T.pin (x.id names) := by
  rw [hx.seen.id_eq, hx.seen'.id_eq, h.carries.pin _ ht]

theorem output_id {xs : List Symbol} {name : Symbol} {pin : Option Symbol}
    (ho : IsOutput xs name pin) (hpin : ∀ x ∈ pin, x.Shared names names') :
    pin.map (·.id names') = (pin.map (·.id names)).map T.pin := by
  cases ho with
  | unnamed => rfl
  | named _ _ hp => exact congrArg some (h.pin_id (hpin _ rfl) (List.mem_append_right _ hp.2))

theorem perform (hd : d.Proper names) (hd' : d'.Proper names') {s : Section} {xs : List Symbol}
    {st : Statement} (hst : IsStatement s xs st) (hxs : ∀ x ∈ st.symbols, x.Shared names names')
    (hdot : ∀ x ∈ st.symbols, x.type = .name → '.'.toUInt8 ∉ x.text) {d₁ : Draft}
    {f : Option SemanticFault} (hok : d.perform names st = .ok (d₁, f)) :
    ∃ d₁', d'.perform names' st = .ok (d₁', f) ∧ Recodes T names names' d₁ d₁' := by
  cases hst with
  | @device kind k name xs parameter _ hname _ =>
    have hmem : name ∈ Statement.symbols (.device kind name parameter) := List.mem_cons_self ..
    exact h.device (hxs name hmem) (hdot name hmem hname) hok
  | @connection xs source arrow target dot pin sourcePin ho _ _ _ hpin =>
    simp only [Statement.symbols, List.forall_mem_cons, Option.mem_toList] at hxs
    obtain ⟨hsource, htarget, htargetPin, hsourcePin⟩ := hxs
    exact h.connection hd hd' hsource htarget (h.output_id ho hsourcePin)
      (h.pin_id htargetPin (List.mem_append_left _ hpin.2)) hok
  | @monitor xs name pin ho =>
    simp only [Statement.symbols, List.forall_mem_cons, Option.mem_toList] at hxs
    exact h.monitor hd hd' hxs.1 (h.output_id ho hxs.2) hok

theorem reject {text : Definition} {symbol : Symbol} {code : Code} {message : Text} {d₁ : Draft}
    {x : Option Diagnostic} (hr : d.reject text symbol code message = (d₁, x)) :
    ∃ d₁', d'.reject text symbol code message = (d₁', x) ∧ Recodes T names names' d₁ d₁' := by
  simp only [Draft.reject, h.lastReject] at hr ⊢
  by_cases hlast : d.lastReject = some symbol.position
  · rw [if_pos hlast] at hr ⊢
    cases hr
    exact ⟨d', rfl, h⟩
  · rw [if_neg hlast] at hr ⊢
    cases hr
    exact ⟨_, rfl, h.carries, h.circuits, h.dotless, h.declared, h.broken, rfl, h.ended⟩

end Recodes

end Draft

/-- Both tables have seen what the event names. -/
def Event.Shared (names names' : NameTable) : Event → Prop
  | .note (.abandon name) => name.Shared names names'
  | .note (.complete st) => (∃ s xs, IsStatement s xs st) ∧ ∀ x ∈ st.symbols,
      x.Shared names names' ∧ (x.type = .name → '.'.toUInt8 ∉ x.text)
  | _ => True

namespace Draft.Recodes
variable {T : Recoding} {names names' : NameTable} {d d' : Draft} {text : Definition}

theorem step (h : Recodes T names names' d d') (hd : d.Proper names) (hd' : d'.Proper names')
    {e : Event} (he : e.Shared names names') {d₁ : Draft} {x : Option Diagnostic}
    (hok : d.step text names e = .ok (d₁, x)) :
    ∃ d₁', d'.step text names' e = .ok (d₁', x) ∧ Recodes T names names' d₁ d₁' := by
  cases e with
  | stray symbol =>
    cases hok
    exact ⟨d', rfl, h⟩
  | note n =>
    cases n with
    | pass =>
      cases hok
      exact ⟨d', rfl, h⟩
    | reject symbol fault =>
      obtain ⟨d₁', hr, hnext⟩ := h.reject (Except.ok.inj hok)
      exact ⟨d₁', congrArg Except.ok hr, hnext⟩
    | endsEarly =>
      simp only [Draft.step, h.ended] at hok ⊢
      by_cases hend : d.ended = true
      · rw [if_pos hend] at hok ⊢
        cases hok
        exact ⟨d', rfl, h⟩
      · rw [if_neg hend] at hok ⊢
        have hended : Recodes T names names' { d with ended := true } { d' with ended := true } :=
          ⟨h.carries, h.circuits, h.dotless, h.declared, h.broken, h.lastReject, rfl⟩
        obtain ⟨d₁', hr, hnext⟩ := hended.reject (Except.ok.inj hok)
        exact ⟨d₁', congrArg Except.ok hr, hnext⟩
    | abandon name =>
      cases hok
      exact ⟨_, rfl, h.abandon he⟩
    | complete st =>
      obtain ⟨⟨s, xs, hst⟩, hxs⟩ := he
      cases hp : d.perform names st with
      | error f => simp [Draft.step, hp, bind, Except.bind] at hok
      | ok r =>
        obtain ⟨d₂, f⟩ := r
        rw [step_complete hp] at hok
        cases hok
        obtain ⟨d₁', hp', hnext⟩ := h.perform hd hd' hst (fun x hx => (hxs x hx).1)
          (fun x hx => (hxs x hx).2) hp
        exact ⟨d₁', step_complete hp', hnext⟩

theorem run (h : Recodes T names names' d d') (hd : d.Proper names) (hd' : d'.Proper names')
    {events : List Event} (he : ∀ e ∈ events, e.Shared names names') {d₁ : Draft}
    {ds : Diagnostics} (hok : d.run text names events = .ok (d₁, ds)) :
    ∃ d₁', d'.run text names' events = .ok (d₁', ds) ∧ Recodes T names names' d₁ d₁' := by
  induction events generalizing d d' ds with
  | nil =>
    cases hok
    exact ⟨d', rfl, h⟩
  | cons e events ih =>
    obtain ⟨he, hes⟩ := List.forall_mem_cons.1 he
    obtain ⟨d₂, x, ds', hstep, -, hrun, rfl⟩ := run_cons_cases hd.sound hok
    obtain ⟨d₂', hstep', hnext⟩ := h.step hd hd' he hstep
    obtain ⟨d₁', hrun', hlast⟩ := ih hnext (hd.step hstep) (hd'.step hstep') hes hrun
    exact ⟨d₁', run_cons hstep' hrun', hlast⟩

end Draft.Recodes

/-! ### What has been seen -/

/-- A name has no dot. -/
theorem Text.dotless_of_isName {t : Text} (h : t.isName = true) : '.'.toUInt8 ∉ t := fun hmem =>
  absurd (isNameByte_of_isName h _ hmem) (by decide)

/-- What the note names is among the symbols that have been seen. -/
def Note.From (seen : List Symbol) : Note → Prop
  | .abandon name => IsName name ∧ name ∈ seen
  | .complete st => ∃ s xs, IsStatement s xs st ∧ xs ⊆ seen
  | _ => True

theorem Note.From.mono {seen seen' : List Symbol} {n : Note} (h : n.From seen)
    (hsub : seen ⊆ seen') : n.From seen' := by
  cases n with
  | abandon name => exact ⟨h.1, hsub h.2⟩
  | complete st =>
    obtain ⟨s, xs, hst, hxs⟩ := h
    exact ⟨s, xs, hst, fun x hx => hsub (hxs hx)⟩
  | _ => trivial

theorem Walks.from_passed {passed ahead left : List Symbol} {notes : List Note}
    (h : Walks passed ahead notes left) :
    ∀ n ∈ notes, n.From (passed ++ ahead.take (notes.countP (· == .pass))) := by
  induction h with
  | nil => exact fun n hn => absurd hn List.not_mem_nil
  | pass _ ih =>
    refine List.forall_mem_cons.2 ⟨trivial, fun n hn => ?_⟩
    simpa using ih n hn
  | reject _ ih => exact List.forall_mem_cons.2 ⟨trivial, ih⟩
  | endsEarly _ ih => exact List.forall_mem_cons.2 ⟨trivial, ih⟩
  | abandon hpassed hname _ ih =>
    exact List.forall_mem_cons.2 ⟨⟨hname, List.mem_append_left _ hpassed⟩, ih⟩
  | complete hst hpassed _ ih =>
    exact List.forall_mem_cons.2
      ⟨⟨_, _, hst, fun x hx => List.mem_append_left _ (hpassed hx)⟩, ih⟩

namespace Definition
variable (d : Definition)

/-- The symbols that a load looks at. -/
def seen : List Symbol := d.valid.take (Outline.reach d.notes)

theorem shared_of_mem_seen (names names' : NameTable) {x : Symbol} (hx : x ∈ d.seen)
    (hnamed : x.type.isNamed = true) : x.Shared (d.names names) (d.names names') :=
  ⟨⟨hnamed, NameTable.mem_insertSymbols.2 (Or.inr ⟨x, hx, hnamed, rfl⟩)⟩,
    ⟨hnamed, NameTable.mem_insertSymbols.2 (Or.inr ⟨x, hx, hnamed, rfl⟩)⟩⟩

theorem dotless_of_mem_seen {x : Symbol} (hx : x ∈ d.seen) (hname : x.type = .name) :
    '.'.toUInt8 ∉ x.text := by
  have hmem : x ∈ d.text.symbols.1 := (List.mem_filter.1 (List.mem_of_mem_take hx)).1
  exact Text.dotless_of_isName (Scanner.isName_of_mem_symbols hmem hname)

theorem shared_events (names names' : NameTable) :
    ∀ e ∈ d.events, e.Shared (d.names names) (d.names names') := by
  obtain ⟨left, hwalks⟩ := Outline.walks_outline d.valid
  intro e he
  cases e with
  | stray x => trivial
  | note n =>
    have hfrom : n.From d.seen := (hwalks.from_passed n (note_mem_events.1 he).1).mono fun x hx =>
      (List.take_sublist_take_left (Nat.le_succ _)).subset hx
    cases n with
    | abandon name =>
      exact d.shared_of_mem_seen names names' hfrom.2 (by rw [hfrom.1]; rfl)
    | complete st =>
      obtain ⟨s, xs, hst, hxs⟩ := hfrom
      refine ⟨⟨s, xs, hst⟩, fun x hx => ⟨?_, ?_⟩⟩
      · exact d.shared_of_mem_seen names names' (hxs (hst.mem x hx).1) (hst.mem x hx).2
      · exact d.dotless_of_mem_seen (hxs (hst.mem x hx).1)
    | _ => trivial

/-- A definition gives the same diagnostics over all tables, and the same circuit under other
ids. -/
theorem build_relabels {names names' : NameTable} {T : Recoding}
    (hT : T.Carries (d.names names) (d.names names')) : ∃ c c' ds,
      d.build names = .ok ⟨d.names names, c, ds⟩ ∧
      d.build names' = .ok ⟨d.names names', c', ds⟩ ∧
      Session.Relabels id T ⟨d.names names, c⟩ ⟨d.names names', c'⟩ ∧
      ∀ a ∈ c.devices.ids, '.'.toUInt8 ∉ (d.names names).nameOf a := by
  have hempty : ∀ names, Draft.Proper (d.names names) { circuit := .empty (d.names names) } :=
    fun names => ⟨Draft.sound_empty (d.knowsPins_names names),
      Session.reachable_empty (d.knowsPins_names names)⟩
  have hstart : Draft.Recodes T (d.names names) (d.names names')
      { circuit := .empty (d.names names) } { circuit := .empty (d.names names') } := by
    refine ⟨hT, ⟨⟨?_, rfl⟩, hT.pin, fun a ha => absurd ha List.not_mem_nil⟩,
      fun a ha => absurd ha List.not_mem_nil, rfl, rfl, rfl, rfl⟩
    exact Registry.mk.injEq .. |>.mpr ⟨(Pins.recode_ofNames hT.pin).symm, rfl, rfl⟩
  obtain ⟨draft, ds, hrun, hbuild⟩ := d.build_eq names
  obtain ⟨draft', ds', hrun', hbuild'⟩ := d.build_eq names'
  obtain ⟨draft₁, hrun₁, hdrafts⟩ := hstart.run (hempty names) (hempty names')
    (d.shared_events names names') hrun
  cases hrun'.symm.trans hrun₁
  exact ⟨_, _, ds, hbuild, hbuild', hdrafts.circuits, hdrafts.dotless⟩

/-- A definition gives the same over all standard tables. -/
theorem build_twin {names names' : NameTable} (hn : (d.names names).Standard)
    (hn' : (d.names names').Standard) : ∃ c c' ds,
      d.build names = .ok ⟨d.names names, c, ds⟩ ∧
      d.build names' = .ok ⟨d.names names', c', ds⟩ ∧
      Session.Twin ⟨d.names names, c⟩ ⟨d.names names', c'⟩ := by
  have hinj := (d.names names).carry_injective (d.names names')
  have hpins : ∀ t ∈ PinWord.inputs ++ PinWord.outputs,
      (d.names names').idOf t = (d.names names).idOf t := fun t ht =>
    (hn' t ht).2.trans (hn t ht).2.symm
  obtain ⟨c, c', ds, hbuild, hbuild', hrelabels, hdot⟩ := d.build_relabels (T := .ofDevices _ hinj)
    ⟨fun t ht ht' => NameTable.carry_idOf ht ht', fun t ht => (hpins t ht).symm⟩
  refine ⟨c, c', ds, hbuild, hbuild', hpins, fun a ha => ?_,
    (Circuit.copies_iff hinj).2 hrelabels.circuit⟩
  obtain ⟨t, ht, rfl, ht', -⟩ := hrelabels.known a ha
  refine ⟨t, ⟨ht, ht', ?_⟩, rfl⟩
  have hdotless := hdot _ ha
  rwa [NameTable.nameOf_idOf ht] at hdotless

end Definition

end GateSim
