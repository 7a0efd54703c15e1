import GateSim.Proofs.Clauses
import GateSim.Proofs.Connections
import GateSim.Proofs.Creation
import GateSim.Proofs.Samples

/-!
# Refusals

What may stand against a statement, in the order in which it is looked for (`Statement.refusals`).
The first thing that does is reported, unless it is that a device was declared but not made, and the
circuit stays as it is. If nothing does, the circuit gets one device, connection or monitor and
nothing else (`Draft.perform_verdict`).
-/

namespace GateSim

open Grammar

inductive Refusal
  | nameTaken (name : Symbol)
  | badParameter (kind : Kind) (name : Symbol) (parameter : Option Symbol)
  | undeclared (device : Symbol)
  /-- The device was declared but could not be made, which has been reported already. -/
  | unmade (device : Symbol)
  | noOutput (device : Symbol) (pin : Option Symbol)
  | noInput (device pin : Symbol)
  | inputTaken (device pin : Symbol)
  | monitored (device : Symbol) (pin : Option Symbol)

/-- What may stand against a statement, what comes first going before. -/
def Statement.refusals : Statement → List Refusal
  | .device kind name parameter => [.nameTaken name, .badParameter kind name parameter]
  | .connection source sourcePin target targetPin =>
    [.undeclared source, .unmade source, .undeclared target, .unmade target,
      .noOutput source sourcePin, .noInput target targetPin, .inputTaken target targetPin]
  | .monitor name pin =>
    [.undeclared name, .unmade name, .noOutput name pin, .monitored name pin]

namespace Refusal

def Applies (names : NameTable) (d : Draft) : Refusal → Prop
  | nameTaken name => name.id names ∈ d.declared
  | badParameter kind _ parameter => ∀ s, ¬ kind.Starts ((parameter.map (·.text)).getD []) s
  | undeclared device => device.id names ∉ d.declared
  | unmade device => device.id names ∈ d.declared ∧ device.id names ∉ d.circuit.devices.ids
  | noOutput device pin =>
    ¬ d.circuit.devices.HasOutput ⟨device.id names, pin.map (·.id names)⟩
  | noInput device pin => ¬ d.circuit.devices.HasInput (device.id names) (pin.id names)
  | inputTaken device pin =>
    ∃ s, d.circuit.devices.source? (device.id names) (pin.id names) = some s
  | monitored device pin =>
    ∃ m ∈ d.circuit.monitors, m.device = device.id names ∧ m.pin = pin.map (·.id names)

/-- The code that is reported, and the symbol that it is reported at. -/
def report : Refusal → Option (Code × Symbol)
  | nameTaken name => some (.duplicateDevice, name)
  | badParameter _ name parameter => some (.invalidArgument, parameter.getD name)
  | undeclared device => some (.undefinedDevice, device)
  | unmade _ => none
  | noOutput device pin => some (.invalidPin, pin.getD device)
  | noInput _ pin => some (.invalidPin, pin)
  | inputTaken _ pin => some (.inputAlreadyConnected, pin)
  | monitored device pin => some (.duplicateMonitor, pin.getD device)

end Refusal

namespace Statement

/-- The first thing that stands against the statement. -/
def IsRefused (names : NameTable) (d : Draft) (st : Statement) (r : Refusal) : Prop :=
  ∃ earlier later, st.refusals = earlier ++ r :: later ∧
    (∀ r' ∈ earlier, ¬ r'.Applies names d) ∧ r.Applies names d

/-- The circuit with the one device, connection or monitor of the statement. -/
inductive Effect (names : NameTable) : Statement → Circuit → Circuit → Prop
  | device {kind : Kind} {name : Symbol} {parameter : Option Symbol} {c : Circuit} {s : State}
      {dev : Device} : kind.Starts ((parameter.map (·.text)).getD []) s →
      dev.IsNew c.devices.pins kind (name.id names) s →
      Effect names (.device kind name parameter) c { c with devices := { c.devices with
        devices := c.devices.devices ++ [dev]
        places := (name.id names, c.devices.size) :: c.devices.places } }
  | connection {source target targetPin : Symbol} {sourcePin : Option Symbol} {c : Circuit} :
      Effect names (.connection source sourcePin target targetPin) c { c with
        devices := c.devices.wire ⟨⟨source.id names, sourcePin.map (·.id names)⟩, target.id names,
          targetPin.id names⟩ }
  | monitor {name : Symbol} {pin : Option Symbol} {c : Circuit} :
      Effect names (.monitor name pin) c { c with
        monitors := c.monitors ++ [{ device := name.id names, pin := pin.map (·.id names) }] }

/-- The names of devices that the statement refers to. -/
def refersTo : Statement → List Symbol
  | .device .. => []
  | .connection source _ target _ => [source, target]
  | .monitor name _ => [name]

/-- The name of the device that the statement declares. -/
def declares : Statement → Option Symbol
  | .device _ name _ => some name
  | _ => none

end Statement

namespace Draft

/-- The declared names are those of devices that were made or that could not be made. -/
def Booked (d : Draft) : Prop :=
  ∀ id, id ∈ d.declared ↔ id ∈ d.circuit.devices.ids ∨ id ∈ d.broken

/-- What comes of a statement: it is refused and the circuit stays, or it is done. -/
inductive Verdict (names : NameTable) (st : Statement) (d d' : Draft) :
    Option SemanticFault → Prop
  | refused {r : Refusal} {fault : Option SemanticFault} : st.IsRefused names d r →
      fault.map (fun f => (f.code, f.symbol)) = r.report → d'.circuit = d.circuit →
      Verdict names st d d' fault
  | done : (∀ r ∈ st.refusals, ¬ r.Applies names d) → st.Effect names d.circuit d'.circuit →
      Verdict names st d d' none

/-- What becomes of the names when a statement is taken in. The name that it declares, if it
declares one, joins the declared ones; no name is marked as broken without an error. -/
structure Books (names : NameTable) (st : Statement) (d d' : Draft)
    (fault : Option SemanticFault) : Prop where
  booked : d'.Booked
  declared : ∀ id, id ∈ d'.declared ↔ id ∈ d.declared ∨ ∃ x ∈ st.declares, x.id names = id
  kept : st.declares = none →
    d' = { d with circuit := d'.circuit } ∧ d'.circuit.devices.ids = d.circuit.devices.ids
  marked : (∀ f ∈ fault, f.severity = .warning) → d'.broken = d.broken

variable {d d' : Draft} {names : NameTable}

theorem booked_empty : Booked { circuit := .empty names } := fun id => by
  simp [Circuit.empty, Registry.ids]

theorem Booked.abandon (h : d.Booked) (id : NameId) : (d.abandon id).Booked := fun id' => by
  have hid := h id'
  simp only [Draft.abandon, List.mem_cons]
  constructor
  · rintro (rfl | hmem)
    · exact .inr (.inl rfl)
    · exact (hid.1 hmem).imp_right .inr
  · rintro (hmem | rfl | hmem)
    · exact .inr (hid.2 (.inl hmem))
    · exact .inl rfl
    · exact .inr (hid.2 (.inr hmem))

theorem Books.refl {st : Statement} (h : d.Booked) (hst : st.declares = none)
    (fault : Option SemanticFault) : Books names st d d fault :=
  ⟨h, fun id => by simp [hst], fun _ => ⟨rfl, rfl⟩, fun _ => rfl⟩

/-! ### Devices -/

theorem device_verdict (names : NameTable) (h : d.Sound) (hb : d.Booked) (kind : Kind)
    (name : Symbol) (parameter : Option Symbol) : ∃ d' fault,
      d.device names kind name parameter = .ok (d', fault) ∧
      Verdict names (.device kind name parameter) d d' fault ∧
      Books names (.device kind name parameter) d d' fault := by
  -- Whatever becomes of the device, its name is declared then.
  have hcons : ∀ id, id ∈ name.id names :: d.declared ↔
      id ∈ d.declared ∨ ∃ x ∈ some name, x.id names = id := fun id => by
    simp only [List.mem_cons, Option.mem_some_iff, exists_eq_left']
    exact ⟨fun hid => hid.symm.imp_right Eq.symm, fun hid => hid.symm.imp_left Eq.symm⟩
  have hdeclares : Statement.declares (.device kind name parameter) ≠ none := Option.some_ne_none _
  by_cases hdeclared : name.id names ∈ d.declared
  · refine ⟨d, some (.duplicateDevice name), ?_, .refused ⟨[], _, rfl, by simp, hdeclared⟩ rfl rfl,
      hb, fun id => ?_, fun hnone => absurd hnone hdeclares, fun _ => rfl⟩
    · rw [device, if_pos (List.contains_iff_mem.2 hdeclared)]
    · simp only [Statement.declares, Option.mem_some_iff, exists_eq_left', iff_self_or]
      rintro rfl
      exact hdeclared
  have hnot : ¬ d.declared.contains (name.id names) = true := by simpa using hdeclared
  have hfresh : d.circuit.devices.has (name.id names) = false := Bool.eq_false_iff.2 fun hhas =>
    hdeclared (h.declared _ (h.devices.has_iff.1 hhas))
  simp only [device, if_neg hnot]
  by_cases hstarts : ∃ s, kind.Starts ((parameter.map (·.text)).getD []) s
  · obtain ⟨s, hs⟩ := hstarts
    obtain ⟨dev, hmake, hdev⟩ := Device.exists_isNew d.circuit.devices.pins (name.id names) hs
    have hcreate := Registry.create_eq_ok_iff.2 ⟨hfresh, dev, hmake, rfl⟩
    have hids := Registry.ids_create hcreate
    simp only [Circuit.create, hcreate]
    refine ⟨_, _, rfl, .done ?_ (.device hs hdev), fun id => ?_, hcons,
      fun hnone => absurd hnone hdeclares, fun _ => rfl⟩
    · simp only [Statement.refusals, List.forall_mem_cons, List.not_mem_nil, false_implies,
        implies_true, and_true]
      exact ⟨hdeclared, fun hno => hno s hs⟩
    · rw [hids, List.mem_cons, List.mem_append, List.mem_singleton, hb id]
      tauto
  · have hno : ∀ s, ¬ kind.Starts ((parameter.map (·.text)).getD []) s := not_exists.1 hstarts
    obtain ⟨f, hf⟩ := State.ofParameter_error hno
    have hmake : Device.make d.circuit.devices.pins kind (name.id names)
        ((parameter.map (·.text)).getD []) = .error f := by
      rw [Device.make, hf]
      rfl
    have hcreate : d.circuit.devices.create kind (name.id names)
        ((parameter.map (·.text)).getD []) = .error (.parameter f) := by
      simp only [Registry.create, hfresh, hmake, Bool.false_eq_true, if_false]
    simp only [Circuit.create, hcreate]
    refine ⟨_, _, rfl, .refused ⟨[.nameTaken name], [], rfl, ?_, hno⟩ rfl rfl, hb.abandon _, hcons,
      fun hnone => absurd hnone hdeclares, fun hwarning => ?_⟩
    · exact List.forall_mem_singleton.2 hdeclared
    · have hseverity := hwarning _ rfl
      cases hseverity

/-! ### Names and pins -/

/-- The name stands for a device, or the first of the reasons why it does not is found. -/
theorem undefined_cases (names : NameTable) (h : d.Sound) (hb : d.Booked) (x : Symbol) :
    (Refusal.Applies names d (.undeclared x) ∧
        d.undefined names x = some (some (.undefinedDevice x))) ∨
      (¬ Refusal.Applies names d (.undeclared x) ∧ Refusal.Applies names d (.unmade x) ∧
        d.undefined names x = some none) ∨
      (¬ Refusal.Applies names d (.undeclared x) ∧ ¬ Refusal.Applies names d (.unmade x) ∧
        x.id names ∈ d.circuit.devices.ids ∧ d.undefined names x = none) := by
  have hid := hb (x.id names)
  have hhas : d.circuit.devices.has (x.id names) = true ↔ x.id names ∈ d.circuit.devices.ids :=
    h.devices.has_iff
  simp only [Refusal.Applies, Decidable.not_not, undefined]
  by_cases hmade : x.id names ∈ d.circuit.devices.ids
  · refine .inr (.inr ⟨hid.2 (.inl hmade), fun h => h.2 hmade, hmade, ?_⟩)
    rw [if_pos (hhas.2 hmade)]
  rw [if_neg (mt hhas.1 hmade)]
  by_cases hbroken : x.id names ∈ d.broken
  · refine .inr (.inl ⟨hid.2 (.inr hbroken), ⟨hid.2 (.inr hbroken), hmade⟩, ?_⟩)
    rw [if_pos (List.contains_iff_mem.2 hbroken)]
  · refine .inl ⟨fun h => (hid.1 h).elim hmade hbroken, ?_⟩
    rw [if_neg (mt List.contains_iff_mem.1 hbroken)]

theorem noOutput_cases (names : NameTable) (h : d.Sound) {x : Symbol}
    (hx : x.id names ∈ d.circuit.devices.ids) (pin : Option Symbol) :
    (Refusal.Applies names d (.noOutput x pin) ∧ ∃ f, d.noOutput names x pin = some f ∧
        some (f.code, f.symbol) = (Refusal.noOutput x pin).report) ∨
      (d.circuit.devices.HasOutput ⟨x.id names, pin.map (·.id names)⟩ ∧
        d.noOutput names x pin = none) := by
  have hout : d.circuit.devices.isOutput (x.id names) (pin.map (·.id names)) = true ↔
      d.circuit.devices.HasOutput ⟨x.id names, pin.map (·.id names)⟩ := h.devices.isOutput_iff
  simp only [noOutput]
  by_cases hpin : d.circuit.devices.HasOutput ⟨x.id names, pin.map (·.id names)⟩
  · exact .inr ⟨hpin, if_pos (hout.2 hpin)⟩
  · obtain ⟨dev, hdev⟩ := h.devices.exists_device?_of_has (h.devices.has_iff.2 hx)
    refine .inl ⟨hpin, ?_⟩
    rw [if_neg (mt hout.1 hpin), hdev]
    cases pin <;> exact ⟨_, rfl, rfl⟩

theorem noInput_cases (names : NameTable) (h : d.Sound) {x : Symbol}
    (hx : x.id names ∈ d.circuit.devices.ids) (pin : Symbol) :
    (Refusal.Applies names d (.noInput x pin) ∧ ∃ f, d.noInput names x pin = some f ∧
        some (f.code, f.symbol) = (Refusal.noInput x pin).report) ∨
      (d.circuit.devices.HasInput (x.id names) (pin.id names) ∧
        d.noInput names x pin = none) := by
  have hin : d.circuit.devices.isInput (x.id names) (pin.id names) = true ↔
      d.circuit.devices.HasInput (x.id names) (pin.id names) := h.devices.isInput_iff
  simp only [noInput]
  by_cases hpin : d.circuit.devices.HasInput (x.id names) (pin.id names)
  · exact .inr ⟨hpin, if_pos (hin.2 hpin)⟩
  · obtain ⟨dev, hdev⟩ := h.devices.exists_device?_of_has (h.devices.has_iff.2 hx)
    refine .inl ⟨hpin, ?_⟩
    rw [if_neg (mt hin.1 hpin), hdev]
    exact ⟨_, rfl, rfl⟩

/-! ### Connections and monitors -/

theorem connection_verdict (names : NameTable) (h : d.Sound) (hb : d.Booked) (source : Symbol)
    (sourcePin : Option Symbol) (target targetPin : Symbol) : ∃ d' fault,
      d.connection names source sourcePin target targetPin = .ok (d', fault) ∧
      Verdict names (.connection source sourcePin target targetPin) d d' fault ∧
      Books names (.connection source sourcePin target targetPin) d d' fault := by
  rcases undefined_cases names h hb source with
    ⟨hs, hus⟩ | ⟨hs, hs', hus⟩ | ⟨hs, hs', hsource, hus⟩
  · exact ⟨d, some (.undefinedDevice source), by simp [connection, hus],
      .refused ⟨[], _, rfl, by simp, hs⟩ rfl rfl, .refl hb rfl _⟩
  · refine ⟨d, none, by simp [connection, hus],
      .refused ⟨[.undeclared source], _, rfl, ?_, hs'⟩ rfl rfl, .refl hb rfl _⟩
    simpa using hs
  rcases undefined_cases names h hb target with
    ⟨ht, hut⟩ | ⟨ht, ht', hut⟩ | ⟨ht, ht', htarget, hut⟩
  · refine ⟨d, some (.undefinedDevice target), by simp [connection, hus, hut],
      .refused ⟨[.undeclared source, .unmade source], _, rfl, ?_, ht⟩ rfl rfl, .refl hb rfl _⟩
    simpa using ⟨hs, hs'⟩
  · refine ⟨d, none, by simp [connection, hus, hut],
      .refused ⟨[.undeclared source, .unmade source, .undeclared target], _, rfl, ?_, ht'⟩
        rfl rfl, .refl hb rfl _⟩
    simpa using ⟨hs, hs', ht⟩
  rcases noOutput_cases names h hsource sourcePin with ⟨hout, f, hno, hf⟩ | ⟨hout, hno⟩
  · refine ⟨d, some f, by simp [connection, hus, hut, hno],
      .refused ⟨[.undeclared source, .unmade source, .undeclared target, .unmade target], _, rfl,
        ?_, hout⟩ hf rfl, .refl hb rfl _⟩
    simpa using ⟨hs, hs', ht, ht'⟩
  rcases noInput_cases names h htarget targetPin with ⟨hin, f, hni, hf⟩ | ⟨hin, hni⟩
  · refine ⟨d, some f, by simp [connection, hus, hut, hno, hni],
      .refused ⟨[.undeclared source, .unmade source, .undeclared target, .unmade target,
        .noOutput source sourcePin], _, rfl, ?_, hin⟩ hf rfl, .refl hb rfl _⟩
    simpa using ⟨hs, hs', ht, ht', not_not_intro hout⟩
  -- Both pins exist, so all is settled by the source that the input may have.
  let a : Attempt := ⟨⟨source.id names, sourcePin.map (·.id names)⟩, target.id names,
    targetPin.id names⟩
  have hadmits : d.circuit.devices.Admits a := ⟨hout, hin⟩
  have hconnect := h.devices.connect_eq a
  cases htaken : d.circuit.devices.source? (target.id names) (targetPin.id names) with
  | none =>
    have hverdict : d.circuit.devices.verdict a = .ok :=
      Registry.verdict_eq_ok_iff.2 ⟨hadmits, htaken⟩
    have hids := d.circuit.devices.ids_wire a
    rw [hverdict, Registry.attempt_of_ok hverdict] at hconnect
    refine ⟨{ d with circuit := { d.circuit with devices := d.circuit.devices.wire a } }, none, ?_,
      .done ?_ .connection, fun id => ?_, fun id => by simp [Statement.declares],
      fun _ => ⟨rfl, hids⟩, fun _ => rfl⟩
    · simp [connection, hus, hut, hno, hni, Circuit.connect, a, hconnect]
    · have hfree : ¬ Refusal.Applies names d (.inputTaken target targetPin) := by
        rintro ⟨s, hs⟩
        rw [htaken] at hs
        cases hs
      simpa [Statement.refusals] using
        ⟨hs, hs', ht, ht', not_not_intro hout, not_not_intro hin, hfree⟩
    · rw [hids]
      exact hb id
  | some s =>
    have hverdict : d.circuit.devices.verdict a = .inputConnected := by
      rw [Registry.verdict_of_admits hadmits, if_pos]
      simp [a, htaken]
    have hnot : d.circuit.devices.verdict a ≠ .ok := by simp [hverdict]
    rw [hverdict, Registry.attempt_of_not_ok hnot] at hconnect
    refine ⟨d, some (.inputTaken target targetPin (names.label s.device s.pin)), ?_,
      .refused ⟨[.undeclared source, .unmade source, .undeclared target, .unmade target,
        .noOutput source sourcePin, .noInput target targetPin], _, rfl, ?_, s, htaken⟩ rfl rfl,
      .refl hb rfl _⟩
    · simp [connection, hus, hut, hno, hni, Circuit.connect, a, hconnect, htaken]
    · simpa using ⟨hs, hs', ht, ht', not_not_intro hout, not_not_intro hin⟩

theorem monitor_verdict (names : NameTable) (h : d.Sound) (hb : d.Booked) (name : Symbol)
    (pin : Option Symbol) : ∃ d' fault, d.monitor names name pin = .ok (d', fault) ∧
      Verdict names (.monitor name pin) d d' fault ∧
      Books names (.monitor name pin) d d' fault := by
  rcases undefined_cases names h hb name with
    ⟨hn, hun⟩ | ⟨hn, hn', hun⟩ | ⟨hn, hn', hname, hun⟩
  · exact ⟨d, some (.undefinedDevice name), by simp [monitor, hun],
      .refused ⟨[], _, rfl, by simp, hn⟩ rfl rfl, .refl hb rfl _⟩
  · refine ⟨d, none, by simp [monitor, hun],
      .refused ⟨[.undeclared name], _, rfl, ?_, hn'⟩ rfl rfl, .refl hb rfl _⟩
    simpa using hn
  rcases noOutput_cases names h hname pin with ⟨hout, f, hno, hf⟩ | ⟨hout, hno⟩
  · refine ⟨d, some f, by simp [monitor, hun, hno],
      .refused ⟨[.undeclared name, .unmade name], _, rfl, ?_, hout⟩ hf rfl, .refl hb rfl _⟩
    simpa using ⟨hn, hn'⟩
  have hmonitor := Circuit.monitor_of_isOutput (h.devices.isOutput_iff.2 hout)
  have hmonitored : d.circuit.monitors.isMonitored (name.id names) (pin.map (·.id names)) = true ↔
      Refusal.Applies names d (.monitored name pin) := by
    rw [Monitors.isMonitored_iff, List.mem_map]
    simp only [Monitor.output, Source.mk.injEq]
    rfl
  by_cases hpresent : Refusal.Applies names d (.monitored name pin)
  · rw [if_pos (hmonitored.2 hpresent)] at hmonitor
    refine ⟨d, some (.monitorPresent (pin.getD name)
        (names.label (name.id names) (pin.map (·.id names)))), ?_,
      .refused ⟨[.undeclared name, .unmade name, .noOutput name pin], _, rfl, ?_, hpresent⟩
        rfl rfl, .refl hb rfl _⟩
    · simp [monitor, hun, hno, hmonitor]
    · simpa using ⟨hn, hn', not_not_intro hout⟩
  · rw [if_neg (mt hmonitored.1 hpresent)] at hmonitor
    refine ⟨{ d with circuit := { d.circuit with monitors := d.circuit.monitors ++
        [{ device := name.id names, pin := pin.map (·.id names) }] } }, none, ?_,
      .done ?_ .monitor, hb, fun id => by simp [Statement.declares], fun _ => ⟨rfl, rfl⟩,
      fun _ => rfl⟩
    · simp [monitor, hun, hno, hmonitor]
    · simpa [Statement.refusals] using ⟨hn, hn', not_not_intro hout, hpresent⟩

/-- Whatever is declared so far, a statement is refused for the first of the reasons there are or is
done, and the names remain those of devices that were made or could not be made. -/
theorem perform_verdict (names : NameTable) (h : d.Sound) (hb : d.Booked) (st : Statement) :
    ∃ d' fault, d.perform names st = .ok (d', fault) ∧ Verdict names st d d' fault ∧
      Books names st d d' fault := by
  cases st with
  | device kind name parameter => exact device_verdict names h hb kind name parameter
  | connection source sourcePin target targetPin =>
    exact connection_verdict names h hb source sourcePin target targetPin
  | monitor name pin => exact monitor_verdict names h hb name pin

end Draft

/-! ### What follows from a verdict -/

namespace SemanticFault
variable {fault : Option SemanticFault} {x : Symbol}

theorem exists_of_code {f : SemanticFault} (h : f.code = .undefinedDevice) :
    ∃ x, f = .undefinedDevice x := by
  cases f with
  | undefinedDevice x => exact ⟨x, rfl⟩
  | duplicateDevice | badParameter | noNamedOutput | noUnnamedOutput | noInput | inputTaken
  | monitorPresent => cases h

theorem eq_undefinedDevice
    (h : fault.map (fun f => (f.code, f.symbol)) = some (.undefinedDevice, x)) :
    fault = some (.undefinedDevice x) := by
  obtain ⟨f, rfl, hf⟩ := Option.map_eq_some_iff.1 h
  obtain ⟨hcode, rfl⟩ := Prod.mk.inj hf
  obtain ⟨x, rfl⟩ := exists_of_code hcode
  rfl

end SemanticFault

namespace Statement
variable {st : Statement} {names : NameTable} {d : Draft} {r r' : Refusal} {x : Symbol}

theorem IsRefused.mem (h : st.IsRefused names d r) : r ∈ st.refusals := by
  obtain ⟨earlier, later, hst, -⟩ := h
  rw [hst]
  exact List.mem_append_right _ (List.mem_cons_self ..)

theorem IsRefused.applies (h : st.IsRefused names d r) : r.Applies names d := by
  obtain ⟨earlier, later, -, -, happlies⟩ := h
  exact happlies

theorem IsRefused.eq_of_head {later : List Refusal} (h : st.IsRefused names d r)
    (hst : st.refusals = r' :: later) (hr' : r'.Applies names d) : r = r' := by
  obtain ⟨earlier, later', hsplit, hearlier, -⟩ := h
  rw [hst] at hsplit
  cases earlier with
  | nil => exact (List.cons.inj hsplit).1.symm
  | cons r'' earlier =>
    obtain ⟨rfl, -⟩ := List.cons.inj hsplit
    exact absurd hr' (hearlier _ (List.mem_cons_self ..))

theorem unmade_mem_refusals : .unmade x ∈ st.refusals ↔ x ∈ st.refersTo := by
  cases st <;> simp [refusals, refersTo]

theorem undeclared_mem_refusals : .undeclared x ∈ st.refusals ↔ x ∈ st.refersTo := by
  cases st <;> simp [refusals, refersTo]

/-- What is done makes a difference: there is one device or monitor more, or an input that had no
source has one. -/
theorem Effect.ne {c : Circuit} (h : st.Effect names d.circuit c) (hs : d.Sound)
    (hno : ∀ r ∈ st.refusals, ¬ r.Applies names d) : c ≠ d.circuit := by
  intro heq
  cases h with
  | device =>
    have hlength := congrArg (fun c : Circuit => c.devices.devices.length) heq
    simp at hlength
  | monitor =>
    have hlength := congrArg (fun c : Circuit => c.monitors.length) heq
    simp at hlength
  | @connection source target targetPin sourcePin =>
    let a : Attempt := ⟨⟨source.id names, sourcePin.map (·.id names)⟩, target.id names,
      targetPin.id names⟩
    have hinput : d.circuit.devices.HasInput a.target a.pin :=
      not_not.1 (hno (.noInput target targetPin) (by simp [refusals]))
    have hwired := hs.devices.source?_wire (Registry.mem_ids_of_hasInput hinput) a.target a.pin
    have hsame : d.circuit.devices.wire a = d.circuit.devices :=
      congrArg (fun c : Circuit => c.devices) heq
    rw [if_pos ⟨rfl, rfl⟩, hsame] at hwired
    exact hno (.inputTaken target targetPin) (by simp [refusals]) ⟨_, hwired⟩

end Statement

namespace Draft.Verdict
variable {names : NameTable} {st : Statement} {d d' : Draft} {fault : Option SemanticFault}
  {x : Symbol}

/-- The circuit changes unless a fault is found or the statement refers to a device that could not
be made. -/
theorem circuit_ne_iff (h : Verdict names st d d' fault) (hs : d.Sound) :
    d'.circuit ≠ d.circuit ↔
      fault = none ∧ ∀ x ∈ st.refersTo, ¬ Refusal.Applies names d (.unmade x) := by
  cases h with
  | @refused r _ hr hreport hcircuit =>
    refine iff_of_false (not_not_intro hcircuit) ?_
    rintro ⟨rfl, hmade⟩
    cases r with
    | unmade x => exact hmade x (Statement.unmade_mem_refusals.1 hr.mem) hr.applies
    | nameTaken | badParameter | undeclared | noOutput | noInput | inputTaken | monitored =>
      cases hreport
  | done hno heffect =>
    have hmade : ∀ x ∈ st.refersTo, ¬ Refusal.Applies names d (.unmade x) := fun x hx =>
      hno _ (Statement.unmade_mem_refusals.2 hx)
    exact iff_of_true (heffect.ne hs hno) ⟨rfl, hmade⟩

/-- The first thing that can stand against a statement does. -/
theorem of_head {r : Refusal} {later : List Refusal} (h : Verdict names st d d' fault)
    (hst : st.refusals = r :: later) (hr : r.Applies names d) :
    fault.map (fun f => (f.code, f.symbol)) = r.report ∧ d'.circuit = d.circuit := by
  cases h with
  | done hno _ =>
    rw [hst] at hno
    exact absurd hr (hno r (List.mem_cons_self ..))
  | refused hrefused hreport hcircuit =>
    rw [hrefused.eq_of_head hst hr] at hreport
    exact ⟨hreport, hcircuit⟩

theorem circuit_eq_of_unmade (h : Verdict names st d d' fault) (hx : x ∈ st.refersTo)
    (hunmade : Refusal.Applies names d (.unmade x)) : d'.circuit = d.circuit := by
  cases h with
  | done hno _ => exact absurd hunmade (hno _ (Statement.unmade_mem_refusals.2 hx))
  | refused _ _ hcircuit => exact hcircuit

/-- Only names that are not declared are reported as undefined. -/
theorem undeclared (h : Verdict names st d d' (some (.undefinedDevice x))) :
    x ∈ st.refersTo ∧ x.id names ∉ d.declared := by
  cases h with
  | @refused r _ hr hreport hcircuit =>
    cases r with
    | undeclared y =>
      obtain ⟨-, rfl⟩ := Prod.mk.inj (Option.some.inj hreport)
      exact ⟨Statement.undeclared_mem_refusals.1 hr.mem, hr.applies⟩
    | nameTaken | badParameter | unmade | noOutput | noInput | inputTaken | monitored =>
      cases hreport

/-- A device is reported as a duplicate just if its name is declared. -/
theorem duplicate_iff {kind : Kind} {parameter : Option Symbol}
    (h : Verdict names (.device kind x parameter) d d' fault) :
    (∃ f ∈ fault, f.code = .duplicateDevice) ↔ x.id names ∈ d.declared := by
  constructor
  · rintro ⟨f, rfl, hcode⟩
    cases h with
    | refused hr hreport =>
      have hmem := hr.mem
      have happlies := hr.applies
      rcases List.mem_pair.1 hmem with rfl | rfl
      · exact happlies
      · rw [Option.map_some, Refusal.report, hcode] at hreport
        cases hreport
  · intro hx
    obtain ⟨f, hf, hcode⟩ := Option.map_eq_some_iff.1 (h.of_head rfl hx).1
    exact ⟨f, hf, (Prod.mk.inj hcode).1⟩

end Draft.Verdict

end GateSim
