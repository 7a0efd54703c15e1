import GateSim.Proofs.Rerun
import GateSim.Proofs.Traces

/-!
# Signals

A signal is an output of a device and goes by the name under which it is listed. A name of a device
has no dot, so what stands before the first dot of a listed name tells the device, and what stands
after it the pin: finding an output by a text is inverse to naming it
(`Engine.Shown.resolve_iff`). What is found by any other text is no output, although the text may be
made of names that the table knows: keywords, pins, numbers and what earlier circuits brought. So the
calls that take a signal go by the lists of names alone (`Engine.directory_of_reachable`).
-/

namespace GateSim

namespace Registry
variable {r : Registry}

/-- Every output of every device, in the order in which they are listed. -/
def outputs (r : Registry) : List Source :=
  r.devices.flatMap fun d => d.outputs.keys.map (Source.mk d.id)

theorem WellFormed.mem_outputs_iff (h : r.WellFormed) {p : Source} :
    p ∈ r.outputs ↔ r.isOutput p.device p.pin = true := by
  rw [h.isOutput_iff, outputs, List.mem_flatMap]
  refine exists_congr fun d => and_congr_right fun _ => ?_
  rw [List.mem_map]
  constructor
  · rintro ⟨pin, hpin, rfl⟩
    exact ⟨rfl, hpin⟩
  · rintro ⟨hid, hpin⟩
    exact ⟨p.pin, hpin, by rw [hid]⟩

theorem WellFormed.nodup_outputs (h : r.WellFormed) : r.outputs.Nodup := by
  refine List.nodup_flatMap.2 ⟨fun d hd => ?_, ?_⟩
  · exact (h.devices d hd).outputs.nodup_keys.map fun _ _ heq => (Source.mk.inj heq).2
  · refine (List.pairwise_map.1 h.nodup_ids).imp fun hne => ?_
    -- outputs of different devices differ in the device
    refine List.disjoint_left.2 fun p hp hp' => hne ?_
    obtain ⟨_, -, rfl⟩ := List.mem_map.1 hp
    obtain ⟨_, -, heq⟩ := List.mem_map.1 hp'
    exact (Source.mk.inj heq).1.symm

end Registry

/-- The name under which an output is listed. -/
def NameTable.labelOf (names : NameTable) (p : Source) : Text := names.label p.device p.pin

namespace Monitors
variable {r : Registry} {ms : Monitors} {a : NameId} {pin : OutputPin}

theorem Exist.subset (h : ms.Exist r) (hw : r.WellFormed) : ms.map Monitor.output ⊆ r.outputs := by
  intro p hp
  obtain ⟨m, hm, rfl⟩ := List.mem_map.1 hp
  exact hw.mem_outputs_iff.2 (hw.isOutput_iff.2 (h m hm))

theorem insert_of_isOutput (ms : Monitors) (h : r.isOutput a pin = true) :
    insert r ms a pin = if ms.isMonitored a pin then (.present, ms)
      else (.ok, ms ++ [{ device := a, pin := pin }]) := by
  rw [insert, Registry.has_of_isOutput h, h]
  rfl

theorem eraseP_congr {p q : Monitor → Bool} (h : ∀ m ∈ ms, p m = q m) :
    ms.eraseP p = ms.eraseP q := by
  induction ms with
  | nil => rfl
  | cons m ms ih =>
    obtain ⟨hm, hms⟩ := List.forall_mem_cons.1 h
    rw [List.eraseP_cons, List.eraseP_cons, hm, ih hms]

end Monitors

namespace Engine
variable {e : Engine} {c : Circuit} {signal : Text}

/-! ### Names and outputs -/

/-- The name of what a text stands for is the text again. -/
theorem label_of_resolve {p : NameId × OutputPin} (h : e.resolve c signal = some p) :
    e.names.label p.1 p.2 = signal := by
  have hsplit : deviceText signal ++ signal.dropWhile (fun b => !b == '.'.toUInt8) = signal :=
    List.takeWhile_append_dropWhile
  rw [resolve_eq] at h
  obtain ⟨a, ha, h⟩ := Option.bind_eq_some_iff.1 h
  split at h
  case isFalse => cases h
  rw [pinText?] at h
  split at h
  · next hdrop =>
    rw [hdrop, List.append_nil] at hsplit
    cases h
    exact (NameTable.nameOf_of_find? ha).trans hsplit
  · next b pin hdrop =>
    obtain ⟨i, hi, rfl⟩ := Option.map_eq_some_iff.1 h
    -- the rest of the text begins with the dot that ends the name of the device
    have hdot := List.head?_dropWhile_not (fun b => !b == '.'.toUInt8) signal
    rw [hdrop] at hdot hsplit
    have hb : b = '.'.toUInt8 := by simpa using hdot
    rw [hb] at hsplit
    rw [NameTable.label, NameTable.nameOf_of_find? ha, NameTable.nameOf_of_find? hi,
      List.append_assoc]
    exact hsplit

/-- A circuit is loaded. Its devices have names, and its monitors are on different outputs. -/
structure Shown (e : Engine) (c : Circuit) : Prop where
  circuit : e.circuit = some c
  intact : Session.Intact ⟨e.names, c⟩
  named : ∀ a ∈ c.devices.ids, (e.names.nameOf a).isName = true
  nodup : (c.monitors.map Monitor.output).Nodup

theorem Reachable.shown (h : e.Reachable) (hc : e.circuit = some c) : e.Shown c := by
  have hintact := (h.proper c hc).intact
  obtain ⟨calls, rfl⟩ := h
  exact ⟨hc, hintact, named_calls calls c hc, (follows_chronicle calls c hc).nodup⟩

namespace Shown
variable (h : e.Shown c)
include h

theorem wellFormed : c.devices.WellFormed := h.intact.sound.wellFormed

theorem exists_name {a : NameId} (ha : a ∈ c.devices.ids) :
    ∃ t ∈ e.names.texts, '.'.toUInt8 ∉ t ∧ e.names.idOf t = a := by
  have hname := h.named a ha
  cases ht : e.names.text? a with
  | none =>
    rw [NameTable.nameOf, ht] at hname
    cases hname
  | some t =>
    rw [NameTable.nameOf, ht] at hname
    obtain ⟨hmem, hid⟩ := NameTable.text?_eq_some_iff.1 ht
    exact ⟨t, hmem, Text.dotless_of_isName hname, hid⟩

/-- An output is found by its name and by no other text. -/
theorem resolve_iff {p : Source} (hp : p ∈ c.devices.outputs) :
    e.resolve c signal = some (p.device, p.pin) ↔ e.names.labelOf p = signal := by
  refine ⟨label_of_resolve, ?_⟩
  rintro rfl
  obtain ⟨d, hd, hid, hpin⟩ :=
    h.wellFormed.isOutput_iff.1 (h.wellFormed.mem_outputs_iff.1 hp)
  have hresolve := resolve_label h.intact hd (h.exists_name (List.mem_map_of_mem hd)) hpin
  rw [hid] at hresolve
  exact hresolve

theorem labelOf_inj {p q : Source} (hp : p ∈ c.devices.outputs) (hq : q ∈ c.devices.outputs)
    (heq : e.names.labelOf p = e.names.labelOf q) : p = q := by
  have hfind := ((h.resolve_iff hp).2 heq).symm.trans ((h.resolve_iff hq).2 rfl)
  cases p; cases q; cases hfind; rfl

/-! ### Lists of names -/

theorem outputNames_eq : e.outputNames = c.devices.outputs.map e.names.labelOf := by
  simp only [outputNames, h.circuit, Registry.outputs, PinMap.keys, List.map_flatMap, List.map_map]
  rfl

theorem monitoredNames_eq :
    e.monitoredNames = (c.monitors.map Monitor.output).map e.names.labelOf := by
  simp only [monitoredNames, h.circuit, Monitors.names, List.map_map]
  rfl

theorem monitored_subset : c.monitors.map Monitor.output ⊆ c.devices.outputs :=
  h.intact.monitors.subset h.wellFormed

theorem nodup_outputNames : e.outputNames.Nodup := by
  rw [h.outputNames_eq]
  exact h.wellFormed.nodup_outputs.map_on fun _ hp _ hq => h.labelOf_inj hp hq

theorem nodup_monitoredNames : e.monitoredNames.Nodup := by
  rw [h.monitoredNames_eq]
  exact h.nodup.map_on fun _ hp _ hq =>
    h.labelOf_inj (h.monitored_subset hp) (h.monitored_subset hq)

theorem monitoredNames_subset : e.monitoredNames ⊆ e.outputNames := by
  rw [h.monitoredNames_eq, h.outputNames_eq]
  exact List.map_subset _ h.monitored_subset

/-- A text is the name of an output, which is found by it, or stands for no output. -/
theorem signal_cases (signal : Text) :
    (∃ p ∈ c.devices.outputs, e.names.labelOf p = signal ∧ signal ∈ e.outputNames ∧
      e.resolve c signal = some (p.device, p.pin) ∧
      (c.monitors.isMonitored p.device p.pin = true ↔ signal ∈ e.monitoredNames)) ∨
    (signal ∉ e.outputNames ∧
      ∀ p, e.resolve c signal = some p → c.devices.isOutput p.1 p.2 = false) := by
  by_cases hs : signal ∈ e.outputNames
  · obtain ⟨p, hp, rfl⟩ := List.mem_map.1 (h.outputNames_eq ▸ hs)
    refine Or.inl ⟨p, hp, rfl, hs, (h.resolve_iff hp).2 rfl, ?_⟩
    rw [Monitors.isMonitored_iff, h.monitoredNames_eq]
    refine ⟨fun hm => List.mem_map_of_mem hm, fun hm => ?_⟩
    obtain ⟨q, hq, heq⟩ := List.mem_map.1 hm
    exact h.labelOf_inj (h.monitored_subset hq) hp heq ▸ hq
  · refine Or.inr ⟨hs, fun p hresolve => Bool.eq_false_iff.2 fun hout => hs ?_⟩
    have hp : (⟨p.1, p.2⟩ : Source) ∈ c.devices.outputs := h.wellFormed.mem_outputs_iff.2 hout
    rw [h.outputNames_eq, ← label_of_resolve hresolve]
    exact List.mem_map_of_mem (f := e.names.labelOf) hp

/-! ### Calls -/

theorem output?_eq (signal : Text) :
    e.output? signal = (e.resolve c signal).bind fun p => c.devices.output? p.1 p.2 := by
  rw [output?, h.circuit]
  rfl

theorem isSome_output?_iff : (e.output? signal).isSome = true ↔ signal ∈ e.outputNames := by
  rw [h.output?_eq]
  rcases h.signal_cases signal with ⟨p, hp, -, hs, hresolve, -⟩ | ⟨hs, hno⟩
  · rw [hresolve, Option.bind_some]
    refine iff_of_true ?_ hs
    obtain ⟨d, hd, hid, hpin⟩ :=
      h.wellFormed.isOutput_iff.1 (h.wellFormed.mem_outputs_iff.1 hp)
    rw [← hid, h.wellFormed.output?_of_mem hd]
    exact PinMap.contains_iff.2 hpin
  · refine iff_of_false (fun hsome => ?_) hs
    obtain ⟨v, hv⟩ := Option.isSome_iff_exists.1 hsome
    obtain ⟨p, hresolve, hout⟩ := Option.bind_eq_some_iff.1 hv
    obtain ⟨d, hd, hget⟩ := Option.bind_eq_some_iff.1 hout
    have hno := hno p hresolve
    rw [Registry.isOutput, hd, Option.any_some, PinMap.contains, hget] at hno
    cases hno

theorem output?_label {d : Device} (hd : d ∈ c.devices.devices) {pin : OutputPin} {v : Signal}
    (hv : (pin, v) ∈ d.outputs) : e.output? (e.names.label d.id pin) = some v := by
  have hpin : pin ∈ d.outputs.keys := List.mem_map_of_mem hv
  rw [h.output?_eq, resolve_label h.intact hd (h.exists_name (List.mem_map_of_mem hd)) hpin,
    Option.bind_some, h.wellFormed.output?_of_mem hd]
  exact (h.wellFormed.devices d hd).outputs.get?_of_mem hv

theorem isMonitored_iff : e.isMonitored signal = true ↔ signal ∈ e.monitoredNames := by
  simp only [isMonitored, h.circuit]
  rcases h.signal_cases signal with ⟨p, -, -, -, hresolve, hmonitored⟩ | ⟨hs, hno⟩
  · rw [hresolve, Option.any_some]
    exact hmonitored
  · refine iff_of_false (Bool.eq_false_iff.1 ((Option.any_eq_false _ _).2 fun p hp => ?_))
      (mt (fun hm => h.monitoredNames_subset hm) hs)
    simpa using h.intact.isMonitored_eq_false (hno p hp)

/-- A monitor is set on an output that has none, and comes last. -/
theorem addMonitor_cases (signal : Text) :
    (signal ∈ e.outputNames ∧ signal ∉ e.monitoredNames ∧ ∃ m : Monitor, m.recent = [] ∧
      m.name e.names = signal ∧ e.addMonitor signal =
        (true, { e with circuit := some { c with monitors := c.monitors ++ [m] } })) ∨
    (¬ (signal ∈ e.outputNames ∧ signal ∉ e.monitoredNames) ∧
      ∃ message, e.addMonitor signal = (false, e.refuse message)) := by
  rcases h.signal_cases signal with ⟨p, hp, hlabel, hs, hresolve, hmonitored⟩ | ⟨hs, hno⟩
  · have hinsert := Monitors.insert_of_isOutput c.monitors (h.wellFormed.mem_outputs_iff.1 hp)
    by_cases hm : c.monitors.isMonitored p.device p.pin = true
    · rw [if_pos hm] at hinsert
      refine Or.inr ⟨fun hnot => hnot.2 (hmonitored.1 hm),
        signal ++ .ofString " is already monitored", ?_⟩
      simp only [addMonitor, h.circuit, hresolve, Circuit.monitor, hinsert]
    · refine Or.inl ⟨hs, mt hmonitored.2 hm, { device := p.device, pin := p.pin }, rfl, hlabel, ?_⟩
      rw [if_neg hm] at hinsert
      simp only [addMonitor, h.circuit, hresolve, Circuit.monitor, hinsert]
  · obtain ⟨m, -, heq⟩ := addMonitor_of_not_output h.circuit hno
    exact Or.inr ⟨fun hnot => hs hnot.1, m, heq⟩

/-- The monitor of that name is removed, if there is one. -/
theorem removeMonitor_cases (signal : Text) :
    (signal ∈ e.monitoredNames ∧ e.removeMonitor signal =
      (true, { e with circuit := some { c with
        monitors := c.monitors.eraseP fun m => m.name e.names == signal } })) ∨
    (signal ∉ e.monitoredNames ∧
      ∃ message, e.removeMonitor signal = (false, e.refuse message)) := by
  rcases h.signal_cases signal with ⟨p, hp, hlabel, hs, hresolve, hmonitored⟩ | ⟨hs, hno⟩
  · by_cases hm : c.monitors.isMonitored p.device p.pin = true
    · refine Or.inl ⟨hmonitored.1 hm, ?_⟩
      have hwatches : c.monitors.eraseP (·.watches p.device p.pin) =
          c.monitors.eraseP fun m => m.name e.names == signal := by
        refine Monitors.eraseP_congr fun m hmem => ?_
        have hout : m.output ∈ c.devices.outputs := h.monitored_subset (List.mem_map_of_mem hmem)
        rw [Bool.eq_iff_iff, Monitors.watches_iff, beq_iff_eq, ← hlabel]
        exact ⟨congrArg e.names.labelOf, fun heq => h.labelOf_inj hout hp heq⟩
      simp only [removeMonitor, h.circuit, hresolve, Circuit.unmonitor, Monitors.erase, if_pos hm,
        hwatches]
    · refine Or.inr ⟨mt hmonitored.2 hm, signal ++ .ofString " is not monitored", ?_⟩
      simp only [removeMonitor, h.circuit, hresolve, Circuit.unmonitor, Monitors.erase, if_neg hm]
  · exact Or.inr ⟨mt (fun hm => h.monitoredNames_subset hm) hs, _,
      removeMonitor_of_not_output h.circuit h.intact hno⟩

end Shown

/-- The calls that take the name of a signal go by the lists of names. -/
structure Directory (e : Engine) : Prop where
  outputs_nodup : e.outputNames.Nodup
  monitored_nodup : e.monitoredNames.Nodup
  monitored_subset : e.monitoredNames ⊆ e.outputNames
  hasOutput : ∀ signal, (e.output? signal).isSome = true ↔ signal ∈ e.outputNames
  /-- The names are listed output by output, and each gives the value of its output. -/
  values : ∀ c, e.circuit = some c →
    e.outputNames.map e.output? =
      c.devices.devices.flatMap fun d => d.outputs.map fun entry => some entry.2
  isMonitored : ∀ signal, e.isMonitored signal = true ↔ signal ∈ e.monitoredNames
  adds : ∀ signal, (e.addMonitor signal).1 = true ↔
    signal ∈ e.outputNames ∧ signal ∉ e.monitoredNames
  added : ∀ signal, (e.addMonitor signal).1 = true →
    (e.addMonitor signal).2.monitoredNames = e.monitoredNames ++ [signal] ∧
      (e.addMonitor signal).2.histories = e.histories ++ [(signal, [])]
  removes : ∀ signal, (e.removeMonitor signal).1 = true ↔ signal ∈ e.monitoredNames
  removed : ∀ signal, (e.removeMonitor signal).1 = true →
    (e.removeMonitor signal).2.monitoredNames = e.monitoredNames.erase signal ∧
      (e.removeMonitor signal).2.histories = e.histories.eraseP (·.1 == signal)

theorem histories_eq (hc : e.circuit = some c) :
    e.histories = c.monitors.map fun m => (m.name e.names, m.history) := by
  rw [histories, monitoredNames, hc]
  exact List.zip_map'

theorem directory_of_unloaded (hc : e.circuit = none) : e.Directory := by
  have hout : e.outputNames = [] := by rw [outputNames, hc]
  have hmon : e.monitoredNames = [] := by rw [monitoredNames, hc]
  have hadd : ∀ signal, (e.addMonitor signal).1 = false := fun signal => by rw [addMonitor, hc]
  have hremove : ∀ signal, (e.removeMonitor signal).1 = false :=
    fun signal => by rw [removeMonitor, hc]
  constructor <;> simp [hout, hmon, hadd, hremove, output?, Engine.isMonitored, hc]

theorem Shown.directory (h : e.Shown c) : e.Directory where
  outputs_nodup := h.nodup_outputNames
  monitored_nodup := h.nodup_monitoredNames
  monitored_subset := h.monitoredNames_subset
  hasOutput _ := h.isSome_output?_iff
  values := by
    intro c' hc'
    cases h.circuit.symm.trans hc'
    rw [outputNames, h.circuit, List.map_flatMap]
    refine List.flatMap_congr fun d hd => ?_
    rw [List.map_map]
    exact List.map_congr_left fun entry hentry => h.output?_label hd hentry
  isMonitored _ := h.isMonitored_iff
  adds := by
    intro signal
    rcases h.addMonitor_cases signal with ⟨hs, hm, m, -, -, heq⟩ | ⟨hnot, _, heq⟩
    · exact iff_of_true (by rw [heq]) ⟨hs, hm⟩
    · exact iff_of_false (by rw [heq]; exact Bool.false_ne_true) hnot
  added := by
    intro signal htrue
    rcases h.addMonitor_cases signal with ⟨-, -, m, hrecent, hname, heq⟩ | ⟨-, _, heq⟩
    · have hhistory : m.history = [] := by rw [Monitor.history, hrecent]; rfl
      rw [heq, histories_eq rfl, histories_eq h.circuit]
      simp [monitoredNames, h.circuit, Monitors.names, hname, hhistory]
    · rw [heq] at htrue
      cases htrue
  removes := by
    intro signal
    rcases h.removeMonitor_cases signal with ⟨hm, heq⟩ | ⟨hm, _, heq⟩
    · exact iff_of_true (by rw [heq]) hm
    · exact iff_of_false (by rw [heq]; exact Bool.false_ne_true) hm
  removed := by
    intro signal htrue
    rcases h.removeMonitor_cases signal with ⟨-, heq⟩ | ⟨-, _, heq⟩
    · rw [heq, histories_eq rfl, histories_eq h.circuit, List.eraseP_map, List.erase_eq_eraseP']
      simp only [monitoredNames, h.circuit, Monitors.names, List.eraseP_map]
      exact ⟨rfl, rfl⟩
    · rw [heq] at htrue
      cases htrue

/-- In every engine, whatever was loaded before and whatever was done with it, signals go by their
names: there is an output for each listed name and for no other text, a monitor can be set on each
that has none, and exactly those that have one are monitored. -/
theorem directory_of_reachable (h : e.Reachable) : e.Directory := by
  cases hc : e.circuit with
  | none => exact directory_of_unloaded hc
  | some c => exact (h.shown hc).directory

/-- A flip-flop of an earlier circuit is gone, its name is that of a switch now, and a flip-flop goes
by the name of a pin. -/
theorem directory_pinNames :
    let earlier := Text.ofString "DEVICES: DTYPE F, SWITCH A 0; CONNECT: ; MONITOR: F.Q; END;"
    let later := Text.ofString "DEVICES: DTYPE Q, SWITCH F 1;" ++
      .ofString "CONNECT: F > Q.DATA, F > Q.CLK, F > Q.SET, F > Q.CLEAR;" ++
      .ofString "MONITOR: Q.QBAR, F; END;"
    let e := [Call.load { text := earlier }, .load { text := later }, .run 2].foldl call {}
    let others := [Text.ofString "Q", .ofString "F.Q", .ofString "A", .ofString "Q.DATA",
      .ofString "Q.Q.Q", .ofString ".Q", .ofString "Q.", []]
    e.outputNames = [.ofString "Q.Q", .ofString "Q.QBAR", .ofString "F"] ∧
      e.monitoredNames = [.ofString "Q.QBAR", .ofString "F"] ∧ e.Directory ∧
      (∀ signal ∈ others, e.output? signal = none ∧ (e.addMonitor signal).1 = false) ∧
      (e.addMonitor (.ofString "Q.Q")).1 = true := by
  intro earlier later e others
  have heval : e.outputNames = [.ofString "Q.Q", .ofString "Q.QBAR", .ofString "F"] ∧
      e.monitoredNames = [.ofString "Q.QBAR", .ofString "F"] := by decide +kernel
  obtain ⟨hout, hmon⟩ := heval
  have h : e.Directory := directory_of_reachable ⟨_, rfl⟩
  refine ⟨hout, hmon, h, fun signal hs => ?_, (h.adds _).2 (by rw [hout, hmon]; decide)⟩
  have hnot : signal ∉ e.outputNames := by
    rw [hout]
    revert signal
    decide
  exact ⟨Option.not_isSome_iff_eq_none.1 (mt (h.hasOutput signal).1 hnot),
    Bool.eq_false_iff.2 fun hadd => hnot ((h.adds signal).1 hadd).1⟩

end Engine

end GateSim
