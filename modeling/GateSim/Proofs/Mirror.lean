import GateSim.Proofs.Embedding
import GateSim.Proofs.Invariant

/-!
# Circuits that mirror each other

Two sessions mirror each other (`Session.Mirrors`) if each has the devices of the other one, with
the same connections, by the names of the devices; the ids and the order of the devices may differ.
If the gates form no loop, nobody who uses names only can tell such sessions apart: commands have the
same success, and devices show the same (`Session.Mirrors.commands`, `Session.Mirrors.view_eq`).
-/

namespace GateSim

/-- The id of the same text in another table. -/
def NameTable.translate (names names' : NameTable) (a : NameId) : NameId :=
  names'.idOf (names.nameOf a)

theorem NameTable.translate_idOf {names : NameTable} (names' : NameTable) {t : Text}
    (h : t ∈ names.texts) : names.translate names' (names.idOf t) = names'.idOf t := by
  rw [translate, nameOf_idOf h]

/-- What can be asked of a circuit by the names of its devices. -/
inductive Command
  | setSwitch (name : Text) (v : Signal)
  | cycle
  deriving DecidableEq

namespace Session

/-- Does what is asked, and tells whether it succeeded. An unknown name is refused. -/
def command (s : Session) : Command → Bool × Session
  | .setSwitch name v =>
    match s.names.find? name with
    | none => (false, s)
    | some id =>
      let (reply, s) := s.perform (.setSwitch id v)
      (reply == .switched true, s)
  | .cycle =>
    let (reply, s) := s.perform .cycle
    (!reply.isFailedCycle, s)

/-- Does what is asked, one command after the other. Tells of each whether it succeeded. -/
def commands (s : Session) : List Command → List Bool × Session
  | [] => ([], s)
  | c :: cs =>
    let (success, s) := s.command c
    let (successes, s) := s.commands cs
    (success :: successes, s)

/-- What is seen of a device: the values of its outputs, by their names, and its hidden state. -/
def view (s : Session) (name : Text) : Option (List (Option Text × Signal) × State) :=
  ((s.names.find? name).bind s.circuit.devices.device?).map fun d =>
    (d.outputs.map fun e => (e.1.map s.names.nameOf, e.2), d.state)

variable {s s' : Session}

/-! ### Single commands -/

theorem perform_setSwitch_of_some {id : NameId} {v : Signal} {r : Registry}
    (h : s.circuit.devices.setSwitch id v = some r) :
    s.perform (.setSwitch id v) =
      (.switched true, { s with circuit := { s.circuit with devices := r } }) := by
  rw [perform, Circuit.setSwitch, h]

theorem perform_setSwitch_of_none {id : NameId} {v : Signal}
    (h : s.circuit.devices.setSwitch id v = none) :
    s.perform (.setSwitch id v) = (.switched false, s) := by
  rw [perform, Circuit.setSwitch, h]

/-- Without loops among the gates a cycle is one of the synchronous machine. -/
theorem perform_cycle_of_acyclic (hs : s.circuit.Sound) (hf : s.circuit.devices.floating = [])
    (ha : s.circuit.devices.Acyclic) :
    ∃ passes, s.perform .cycle = (.cycled passes, { s with circuit := { s.circuit with
      devices := s.circuit.devices.synchronous, lastPasses := passes } }) := by
  obtain ⟨passes, hc⟩ := Registry.cycle_of_acyclic hs.wellFormed hf hs.latched ha
  refine ⟨passes, perform_cycle_of_ok ?_⟩
  rw [Circuit.cycle, EStateM.run, hc]

/-- A cycle fails if an input floats, and changes nothing. -/
theorem perform_cycle_of_floating (hf : s.circuit.devices.floating ≠ []) :
    (s.perform .cycle).1.isFailedCycle = true ∧ (s.perform .cycle).2 = s := by
  have hfail : (s.perform .cycle).1.isFailedCycle = true := by
    rcases hc : s.circuit.cycle with ⟨_ | passes, c⟩
    · rw [perform, hc]
      rfl
    · exact absurd (Registry.floating_of_cycle (Circuit.cycle_eq_ok hc)) hf
  exact ⟨hfail, perform_of_isFailedCycle hfail⟩

/-- A command does no damage, and leaves the names and the connections alone. -/
theorem command_keeps (hs : s.Reachable) (c : Command) :
    (s.command c).2.Reachable ∧ (s.command c).2.names = s.names ∧
      (s.command c).2.circuit.devices.wiring = s.circuit.devices.wiring := by
  have hw := hs.sound.wellFormed
  cases c with
  | setSwitch name v =>
    simp only [command]
    split
    · exact ⟨hs, rfl, rfl⟩
    · next id _ =>
      refine ⟨hs.perform rfl, rfl, ?_⟩
      cases hset : s.circuit.devices.setSwitch id v with
      | none => rw [perform_setSwitch_of_none hset]
      | some r =>
        rw [perform_setSwitch_of_some hset]
        exact hw.wiring_setSwitch hset
  | cycle =>
    have hop : Operation.cycle.isDamage = false := rfl
    refine ⟨hs.perform hop, ?_, ?_⟩
    · simp only [command, perform]
      split <;> rfl
    · rcases hc : s.circuit.cycle with ⟨_ | passes, c⟩
      · simp only [command, perform, hc, Circuit.cycle_error hc]
      · simp only [command, perform, hc]
        exact (Registry.consistent_cycle hw hs.sound.latched (Circuit.cycle_eq_ok hc)).1

/-! ### Mirrored sessions -/

/-- Each of the sessions has the devices of the other one, by their names. -/
structure Mirrors (s s' : Session) : Prop where
  reachable : s.Reachable
  reachable' : s'.Reachable
  texts : ∀ t, t ∈ s'.names.texts ↔ t ∈ s.names.texts
  pins : ∀ t ∈ PinWord.inputs ++ PinWord.outputs, s'.names.idOf t = s.names.idOf t
  there : s.circuit.devices.Embeds (s.names.translate s'.names) s'.circuit.devices
  back : s'.circuit.devices.Embeds (s'.names.translate s.names) s.circuit.devices

namespace Mirrors
variable (h : s.Mirrors s')
include h

theorem symm : s'.Mirrors s where
  reachable := h.reachable'
  reachable' := h.reachable
  texts := fun t => (h.texts t).symm
  pins := fun t ht => (h.pins t ht).symm
  there := h.back
  back := h.there

theorem find?_eq_none {name : Text} (hname : name ∉ s.names.texts) :
    s.names.find? name = none ∧ s'.names.find? name = none :=
  ⟨if_neg hname, if_neg (mt (h.texts name).1 hname)⟩

theorem find?_eq_some {name : Text} (hname : name ∈ s.names.texts) :
    s.names.find? name = some (s.names.idOf name) ∧
      s'.names.find? name = some (s'.names.idOf name) :=
  ⟨if_pos hname, if_pos ((h.texts name).2 hname)⟩

theorem mem_ids {name : Text} (hname : name ∈ s.names.texts)
    (hid : s.names.idOf name ∈ s.circuit.devices.ids) :
    s'.names.idOf name ∈ s'.circuit.devices.ids := by
  obtain ⟨d, hd, heq⟩ := List.mem_map.1 hid
  refine List.mem_map.2 ⟨_, h.there.mem d hd, ?_⟩
  rw [← NameTable.translate_idOf s'.names hname, ← heq]
  rfl

theorem mem_ids_iff {name : Text} (hname : name ∈ s.names.texts) :
    s'.names.idOf name ∈ s'.circuit.devices.ids ↔ s.names.idOf name ∈ s.circuit.devices.ids :=
  ⟨h.symm.mem_ids ((h.texts name).2 hname), h.mem_ids hname⟩

theorem acyclic (ha : s.circuit.devices.Acyclic) : s'.circuit.devices.Acyclic :=
  h.back.acyclic ha

theorem floating_iff : s'.circuit.devices.floating = [] ↔ s.circuit.devices.floating = [] :=
  ⟨h.there.floating, h.back.floating⟩

/-- The name of an output is the same in both. -/
theorem nameOf_eq {d : Device} (hd : d ∈ s.circuit.devices.devices) {pin : OutputPin}
    (hpin : pin ∈ d.outputs.keys) : pin.map s'.names.nameOf = pin.map s.names.nameOf := by
  have hmem := ((h.reachable.intact.valid.devices d hd).outputs.mem_iff).1 hpin
  obtain ⟨word, hword, rfl⟩ := List.mem_map.1 hmem
  cases word with
  | none => rfl
  | some t =>
    have ht : t ∈ PinWord.inputs ++ PinWord.outputs :=
      List.mem_append_right _ (State.mem_outputWords hword)
    have hknown := h.reachable.intact.knowsPins t ht
    simp only [Option.map_some, NameTable.nameOf_idOf hknown]
    rw [← h.pins t ht, NameTable.nameOf_idOf ((h.texts t).2 hknown)]

/-- Devices of the same name show the same. -/
theorem view_eq (name : Text) : s'.view name = s.view name := by
  unfold view
  by_cases hname : name ∈ s.names.texts
  case neg =>
    obtain ⟨hfind, hfind'⟩ := h.find?_eq_none hname
    rw [hfind, hfind']
    rfl
  obtain ⟨hfind, hfind'⟩ := h.find?_eq_some hname
  rw [hfind, hfind', Option.bind_some, Option.bind_some]
  by_cases hid : s.names.idOf name ∈ s.circuit.devices.ids
  · rw [← NameTable.translate_idOf s'.names hname, h.there.device?_of_mem_ids hid, Option.map_map]
    cases hdev : s.circuit.devices.device? (s.names.idOf name) with
    | none => rfl
    | some d =>
      have hd := (h.there.source.device?_eq_some_iff.1 hdev).1
      refine congrArg some (Prod.ext (List.map_congr_left fun e he => ?_) rfl)
      rw [h.nameOf_eq hd (List.mem_map_of_mem he)]
  · rw [h.there.source.device?_eq_none hid,
      h.there.target.device?_eq_none (mt (h.mem_ids_iff hname).1 hid)]
    rfl

/-- What is done in both without a change of names keeps them mirrored, if it keeps the devices. -/
theorem of_devices {t t' : Session} (ht : t.Reachable) (ht' : t'.Reachable)
    (hn : t.names = s.names) (hn' : t'.names = s'.names)
    (there : t.circuit.devices.Embeds (s.names.translate s'.names) t'.circuit.devices)
    (back : t'.circuit.devices.Embeds (s'.names.translate s.names) t.circuit.devices) :
    t.Mirrors t' := by
  refine ⟨ht, ht', ?_, ?_, ?_, ?_⟩
  · rw [hn, hn']
    exact h.texts
  · rw [hn, hn']
    exact h.pins
  · rwa [hn, hn']
  · rwa [hn, hn']

theorem command_setSwitch (name : Text) (v : Signal) :
    (s'.command (.setSwitch name v)).1 = (s.command (.setSwitch name v)).1 ∧
      (s.command (.setSwitch name v)).2.Mirrors (s'.command (.setSwitch name v)).2 := by
  by_cases hname : name ∈ s.names.texts
  case neg =>
    obtain ⟨hfind, hfind'⟩ := h.find?_eq_none hname
    simp only [command, hfind, hfind', true_and]
    exact h
  obtain ⟨hfind, hfind'⟩ := h.find?_eq_some hname
  -- the name stands for the same device in both, or for none in both
  obtain ⟨ht, -, -⟩ := command_keeps h.reachable (.setSwitch name v)
  obtain ⟨ht', -, -⟩ := command_keeps h.reachable' (.setSwitch name v)
  by_cases hid : s.names.idOf name ∈ s.circuit.devices.ids
  · have hthere := h.there.setSwitch hid v
    have hback := h.back.setSwitch ((h.mem_ids_iff hname).2 hid) v
    rw [NameTable.translate_idOf s'.names hname] at hthere
    rw [NameTable.translate_idOf s.names ((h.texts name).2 hname)] at hback
    rcases hthere with ⟨hset, hset'⟩ | ⟨r, r', hset, hset', hembeds⟩
    · simp only [command, hfind, hfind', perform_setSwitch_of_none hset,
        perform_setSwitch_of_none hset', true_and]
      exact h
    · simp only [hset, hset'] at hback
      have hembeds' : r'.Embeds (s'.names.translate s.names) r := by simpa using hback
      simp only [command, hfind, hfind', perform_setSwitch_of_some hset,
        perform_setSwitch_of_some hset', true_and] at ht ht' ⊢
      exact h.of_devices ht ht' rfl rfl hembeds hembeds'
  · have hset := h.there.source.setSwitch_eq_none hid v
    have hset' := h.there.target.setSwitch_eq_none (mt (h.mem_ids_iff hname).1 hid) v
    simp only [command, hfind, hfind', perform_setSwitch_of_none hset,
      perform_setSwitch_of_none hset', true_and]
    exact h

theorem command_cycle (ha : s.circuit.devices.Acyclic) :
    (s'.command .cycle).1 = (s.command .cycle).1 ∧
      (s.command .cycle).2.Mirrors (s'.command .cycle).2 := by
  by_cases hf : s.circuit.devices.floating = []
  · obtain ⟨passes, hp⟩ := perform_cycle_of_acyclic h.reachable.sound hf ha
    obtain ⟨passes', hp'⟩ :=
      perform_cycle_of_acyclic h.reachable'.sound (h.floating_iff.2 hf) (h.acyclic ha)
    obtain ⟨ht, -, -⟩ := command_keeps h.reachable .cycle
    obtain ⟨ht', -, -⟩ := command_keeps h.reachable' .cycle
    simp only [command, hp, hp'] at ht ht' ⊢
    exact ⟨rfl, h.of_devices ht ht' rfl rfl (h.there.synchronous (h.acyclic ha))
      (h.back.synchronous ha)⟩
  · obtain ⟨hfail, hsame⟩ := perform_cycle_of_floating hf
    obtain ⟨hfail', hsame'⟩ := perform_cycle_of_floating (mt h.floating_iff.1 hf)
    simp only [command, hfail, hfail', hsame, hsame', true_and]
    exact h

theorem command (ha : s.circuit.devices.Acyclic) (c : Command) :
    (s'.command c).1 = (s.command c).1 ∧ (s.command c).2.Mirrors (s'.command c).2 := by
  cases c with
  | setSwitch name v => exact h.command_setSwitch name v
  | cycle => exact h.command_cycle ha

/-- Commands have the same success in both, whatever came before. -/
theorem commands (ha : s.circuit.devices.Acyclic) (cs : List Command) :
    (s'.commands cs).1 = (s.commands cs).1 ∧ (s.commands cs).2.Mirrors (s'.commands cs).2 := by
  induction cs generalizing s s' with
  | nil => exact ⟨rfl, h⟩
  | cons c cs ih =>
    obtain ⟨hsame, hnext⟩ := h.command ha c
    obtain ⟨-, -, hw⟩ := command_keeps h.reachable c
    obtain ⟨hsames, hrest⟩ := ih hnext (ha.of_wiring_eq h.reachable.sound.wellFormed hw)
    exact ⟨congrArg₂ List.cons hsame hsames, hrest⟩

end Mirrors

/-- An input that floats makes every cycle fail, whatever came before. -/
theorem command_cycle_of_floating (hs : s.Reachable) (hf : s.circuit.devices.floating ≠ [])
    (cs : List Command) : ((s.commands cs).2.command .cycle).1 = false := by
  induction cs generalizing s with
  | nil =>
    simp only [commands, command, (perform_cycle_of_floating hf).1]
    rfl
  | cons c cs ih =>
    obtain ⟨hnext, -, hw⟩ := command_keeps hs c
    have hf' : (s.command c).2.circuit.devices.floating ≠ [] := by
      rwa [Registry.floating_of_wiring_eq hw]
    exact ih hnext hf'

end Session

end GateSim
