import GateSim.Proofs.Course

/-!
# What flip-flops hold

A flip-flop samples its inputs once in each cycle that succeeds, when the gates have settled for the
first time and no flip-flop has changed (`Session.samplings`). What it holds follows from these
samples and from nothing else (`Session.flipFlops_of_coldStart`). Flip-flops on one clock that pass
their bits on form a shift register.
-/

namespace GateSim

/-- The values on the inputs of a flip-flop. -/
structure FlipFlopInputs where
  data : Signal
  clk : Signal
  set : Signal
  clear : Signal

/-- The bit that is held after these values, if `q` was held before and `lastClk` was on the clock. -/
def FlipFlopInputs.latched (v : FlipFlopInputs) (q lastClk : Signal) : Signal :=
  if v.set then true
  else if v.clear then false
  else if v.clk && !lastClk then v.data
  else q

namespace Registry
variable {r : Registry} {d : Device} {q lastClk : Signal}

/-- The value on an input. -/
def reads? (r : Registry) (id pin : NameId) : Option Signal :=
  (r.source? id pin).bind fun s => r.output? s.device s.pin

def flipFlopInputs? (r : Registry) (id : NameId) : Option FlipFlopInputs := do
  return {
    data := ← r.reads? id r.pins.data
    clk := ← r.reads? id r.pins.clk
    set := ← r.reads? id r.pins.set
    clear := ← r.reads? id r.pins.clear }

theorem flipFlopInputs?_eq_some_iff {id : NameId} {v : FlipFlopInputs} :
    r.flipFlopInputs? id = some v ↔
      r.reads? id r.pins.data = some v.data ∧ r.reads? id r.pins.clk = some v.clk ∧
        r.reads? id r.pins.set = some v.set ∧ r.reads? id r.pins.clear = some v.clear := by
  obtain ⟨data, clk, set, clear⟩ := v
  simp only [flipFlopInputs?, Option.bind_eq_bind, Option.pure_def, Option.bind_eq_some_iff,
    Option.some.injEq, FlipFlopInputs.mk.injEq]
  constructor
  · rintro ⟨_, hdata, _, hclk, _, hset, _, hclear, rfl, rfl, rfl, rfl⟩
    exact ⟨hdata, hclk, hset, hclear⟩
  · rintro ⟨hdata, hclk, hset, hclear⟩
    exact ⟨_, hdata, _, hclk, _, hset, _, hclear, rfl, rfl, rfl, rfl⟩

/-- What a flip-flop holds after it has sampled its inputs: its bit and the value on its clock. -/
def holds (r : Registry) (id : NameId) (held : Signal × Signal) : Signal × Signal :=
  match r.flipFlopInputs? id with
  | some v => (v.latched held.1 held.2, v.clk)
  | none => held

/-! ### One sample -/

theorem reads?_of_source (h : r.WellFormed) (hd : d ∈ r.devices) {pin : NameId} {s : Source}
    (hs : d.inputs.get? pin = some (some s)) : r.reads? d.id pin = r.output? s.device s.pin := by
  simp only [reads?, source?, h.device?_of_mem hd, Option.bind_some, hs, Option.join_some]

theorem Settled.reads? (h : r.Settled) (hd : d ∈ r.devices) (hs : d.state = .dtype q lastClk)
    {pin : NameId} (hpin : pin ∈ r.pins.flipFlopInputs) :
    r.reads? d.id pin = some (r.input r.gateValues d pin) := by
  have hgate := isGate_of_dtype h.wellFormed hd hs
  have hp : pin ∈ d.state.inputPins r.pins := by rw [hs]; exact hpin
  obtain ⟨s, hsource⟩ := get?_inputs_of_floating h.wellFormed h.floating hd hp
  have hread := read_of_mem h.wellFormed h.floating hd hgate hp
  simp only [read, hsource, Option.join_some] at hread
  rw [reads?_of_source h.wellFormed hd hsource]
  cases hout : r.output? s.device s.pin with
  | none => rw [hout] at hread; cases hread
  | some v => rw [hout] at hread; cases hread; rfl

/-- Where the gates have settled, a flip-flop is clocked as the values on its inputs say. -/
theorem Settled.clockDevice (h : r.Settled) (hd : d ∈ r.devices)
    (hs : d.state = .dtype q lastClk) :
    ∃ v, r.flipFlopInputs? d.id = some v ∧
      (r.clockDevice d).state = .dtype (v.latched q lastClk) v.clk := by
  have hreads : ∀ pin ∈ r.pins.flipFlopInputs, r.reads? d.id pin = _ := fun pin hpin =>
    h.reads? hd hs hpin
  simp only [Pins.flipFlopInputs, List.forall_mem_cons] at hreads
  obtain ⟨hdata, hclk, hset, hclear, -⟩ := hreads
  refine ⟨⟨_, _, _, _⟩, flipFlopInputs?_eq_some_iff.2 ⟨hdata, hclk, hset, hclear⟩, ?_⟩
  simp only [Registry.clockDevice, hs]
  rfl

/-- No flip-flop has changed in the middle of a cycle. -/
theorem mem_sampling (h : r.WellFormed) (hl : r.Latched) {r' : Registry} {passes : Nat}
    (hc : cycle r = .ok passes r') (hd : d ∈ r.devices) (hs : d.state = .dtype q lastClk) :
    d ∈ r.sampling.devices := by
  obtain ⟨-, ⟨f, hf⟩, -⟩ := sampling_of_cycle h hl hc
  have hmem : d.advance.setGate f ∈ r.sampling.devices := by
    rw [hf]
    exact List.mem_map_of_mem (List.mem_map_of_mem hd)
  rwa [Device.advance_of_dtype hs, Device.setGate_of_not_isGate (isGate_of_dtype h hd hs)] at hmem

end Registry

namespace Session
variable {s : Session} {ops : List Operation} {i k : Nat} {d : Device} {held : Signal × Signal}
  {ρ : Registry}

theorem pins_run (hs : s.Intact) (hops : ∀ op ∈ ops, op.isOnward = true) :
    (s.run ops).2.circuit.devices.pins = s.circuit.devices.pins := by
  induction ops generalizing s with
  | nil => rfl
  | cons op ops ih =>
    obtain ⟨hop, hops⟩ := List.forall_mem_cons.1 hops
    have hdamage := Operation.isDamage_of_isOnward hop
    exact (ih (hs.perform hdamage) hops).trans (continues_perform hs.sound hdamage).pins

/-- A flip-flop changes only in cycles that succeed, and as its sample says. -/
theorem holds_perform (hs : s.Intact) {op : Operation} (hop : op.isOnward = true)
    (hd : s.circuit.devices.devices[i]? = some d) (hstate : d.state = .dtype held.1 held.2) :
    ∃ d', (s.perform op).2.circuit.devices.devices[i]? = some d' ∧ d.Continues d' ∧
      d'.state = (if (s.perform op).1.isCycled then
        State.dtype (s.circuit.devices.sampling.holds d.id held).1
          (s.circuit.devices.sampling.holds d.id held).2
        else d.state) := by
  have hmem := List.mem_of_getElem? hd
  have hw := hs.sound.wellFormed
  obtain ⟨d', hd', hdd', hcourse⟩ := course_perform hs.sound hop hd
  refine ⟨d', hd', hdd', ?_⟩
  cases hcourse with
  | cycled f g hcycled heq =>
    obtain ⟨-, passes, hc⟩ := cycle_of_isCycled hcycled
    have hgate := Registry.isGate_of_dtype hw hmem hstate
    obtain ⟨hsettled, -⟩ := Registry.sampling_of_cycle hw hs.sound.latched hc
    have hsampled := Registry.mem_sampling hw hs.sound.latched hc hmem hstate
    obtain ⟨v, hv, hclocked⟩ := hsettled.clockDevice hsampled hstate
    rw [if_pos hcycled, heq, Device.state_setGate, Device.advance_of_dtype hstate,
      Device.setGate_of_not_isGate hgate, hclocked]
    simp only [Registry.holds, hv]
  | still hstill hstate' houtputs =>
    have hheed : d.heed op = d :=
      Device.heed_of_not_switch (fun _ _ hswitch => by rw [hstate] at hswitch; cases hswitch) op
    rw [if_neg (by rw [hstill]; exact Bool.false_ne_true), hstate', hheed]

/-! ### Whole runs -/

/-- The devices in the middle of each cycle that succeeds. -/
def samplings (s : Session) : List Operation → List Registry
  | [] => []
  | op :: ops =>
    (if (s.perform op).1.isCycled then [s.circuit.devices.sampling] else []) ++
      (s.perform op).2.samplings ops

theorem samplings_append (s : Session) (ops ops' : List Operation) :
    s.samplings (ops ++ ops') = s.samplings ops ++ (s.run ops).2.samplings ops' := by
  induction ops generalizing s with
  | nil => rfl
  | cons op ops ih =>
    rw [List.cons_append, samplings, ih, samplings, List.append_assoc]
    rfl

theorem length_samplings (s : Session) (ops : List Operation) :
    (s.samplings ops).length = s.cyclesIn ops := by
  induction ops generalizing s with
  | nil => rfl
  | cons op ops ih =>
    rw [samplings, List.length_append, ih, cyclesIn_cons]
    split <;> rfl

/-- A sampling belongs to a cycle that succeeds after as many others. -/
theorem exists_of_samplings (h : (s.samplings ops)[k]? = some ρ) :
    ∃ before after, ops = before ++ .cycle :: after ∧ s.cyclesIn before = k ∧
      ((s.run before).2.perform .cycle).1.isCycled = true ∧
      (s.run before).2.circuit.devices.sampling = ρ := by
  induction ops generalizing s k with
  | nil => cases h
  | cons op ops ih =>
    rw [samplings] at h
    by_cases hcycled : (s.perform op).1.isCycled = true
    · rw [if_pos hcycled] at h
      obtain ⟨rfl, -⟩ := cycle_of_isCycled hcycled
      cases k with
      | zero => exact ⟨[], ops, rfl, rfl, hcycled, Option.some.inj h⟩
      | succ k =>
        obtain ⟨before, after, rfl, hk, hbefore⟩ := ih h
        refine ⟨.cycle :: before, after, rfl, ?_, hbefore⟩
        rw [cyclesIn_cons, if_pos hcycled, hk, Nat.add_comm]
    · rw [if_neg hcycled] at h
      obtain ⟨before, after, rfl, hk, hbefore⟩ := ih h
      refine ⟨op :: before, after, rfl, ?_, hbefore⟩
      rw [cyclesIn_cons, if_neg hcycled, hk, Nat.zero_add]

/-- What a flip-flop holds after a run is what it makes of the samples, one after the other. -/
theorem holds_run (hs : s.Intact) (hops : ∀ op ∈ ops, op.isOnward = true)
    (held : Signal × Signal) (hd : s.circuit.devices.devices[i]? = some d)
    (hstate : d.state = .dtype held.1 held.2) :
    ∃ d', (s.run ops).2.circuit.devices.devices[i]? = some d' ∧ d.Continues d' ∧
      d'.state = .dtype ((s.samplings ops).foldl (fun held ρ => ρ.holds d.id held) held).1
        ((s.samplings ops).foldl (fun held ρ => ρ.holds d.id held) held).2 := by
  induction ops generalizing s d held with
  | nil => exact ⟨d, hd, .refl d, hstate⟩
  | cons op ops ih =>
    obtain ⟨hop, hops⟩ := List.forall_mem_cons.1 hops
    obtain ⟨d₁, hd₁, hdd₁, hstate₁⟩ := holds_perform hs hop hd hstate
    have hs₁ := hs.perform (Operation.isDamage_of_isOnward hop)
    rw [samplings, ← hdd₁.id]
    by_cases hcycled : (s.perform op).1.isCycled = true
    · rw [if_pos hcycled] at hstate₁ ⊢
      obtain ⟨d', hd', hdd', hstate'⟩ := ih hs₁ hops _ hd₁ hstate₁
      exact ⟨d', hd', hdd₁.trans hdd', hdd₁.id ▸ hstate'⟩
    · rw [if_neg hcycled] at hstate₁ ⊢
      obtain ⟨d', hd', hdd', hstate'⟩ := ih hs₁ hops _ hd₁ (hstate₁.trans hstate)
      exact ⟨d', hd', hdd₁.trans hdd', hstate'⟩

/-- What a flip-flop holds after so many samplings of a run. -/
def heldAfter (s : Session) (ops : List Operation) (id : NameId) (n : Nat) : Signal × Signal :=
  ((s.samplings ops).take n).foldl (fun held ρ => ρ.holds id held) (false, false)

theorem heldAfter_succ (hρ : (s.samplings ops)[k]? = some ρ) (id : NameId) :
    s.heldAfter ops id (k + 1) = ρ.holds id (s.heldAfter ops id k) := by
  rw [heldAfter, List.take_add_one, hρ, List.foldl_append]
  rfl

theorem state_of_append {before : List Operation} (after : List Operation) (hs : s.Intact)
    (hbefore : ∀ op ∈ before, op.isOnward = true) (hd : s.circuit.devices.devices[i]? = some d)
    (hstate : d.state = .dtype false false) :
    ∃ d', (s.run before).2.circuit.devices.devices[i]? = some d' ∧ d.Continues d' ∧
      d'.state = .dtype (s.heldAfter (before ++ after) d.id (s.cyclesIn before)).1
        (s.heldAfter (before ++ after) d.id (s.cyclesIn before)).2 := by
  have htake : (s.samplings (before ++ after)).take (s.cyclesIn before) = s.samplings before := by
    rw [samplings_append, ← length_samplings, List.take_left]
  rw [heldAfter, htake]
  exact holds_run hs hbefore (false, false) hd hstate

/-- In the middle of a cycle a flip-flop still holds what it held after the cycle before. -/
theorem state_of_samplings (hs : s.Intact) (hops : ∀ op ∈ ops, op.isOnward = true)
    (hd : s.circuit.devices.devices[i]? = some d) (hstate : d.state = .dtype false false)
    (hρ : (s.samplings ops)[k]? = some ρ) :
    ρ.Settled ∧ ρ.pins = s.circuit.devices.pins ∧ ∃ d' ∈ ρ.devices, d.Continues d' ∧
      d'.state = .dtype (s.heldAfter ops d.id k).1 (s.heldAfter ops d.id k).2 := by
  obtain ⟨before, after, rfl, rfl, hcycled, rfl⟩ := exists_of_samplings hρ
  have hbefore := (List.forall_mem_append.1 hops).1
  obtain ⟨hw, hl⟩ := (hs.run_onward hbefore).sound
  obtain ⟨-, passes, hc⟩ := cycle_of_isCycled hcycled
  obtain ⟨d', hd', hdd', hstate'⟩ := state_of_append (.cycle :: after) hs hbefore hd hstate
  have hpins := Registry.pins_eq_of_wiring_eq (Registry.wiring_sampling hw hl hc)
  exact ⟨(Registry.sampling_of_cycle hw hl hc).1, hpins.trans (pins_run hs hbefore), d',
    Registry.mem_sampling hw hl hc (List.mem_of_getElem? hd') hstate', hdd', hstate'⟩

end Session

/-- The bits `q` and the clock values `clk` that a flip-flop holds, before the first sampling and
after each: both are LOW first, and each bit follows from what is sampled and from what was held. -/
structure FlipFlopLaw (id : NameId) (ρs : List Registry) (q clk : Nat → Signal) : Prop where
  q_zero : q 0 = false
  clk_zero : clk 0 = false
  sampled : ∀ k ρ, ρs[k]? = some ρ → ∃ v, ρ.flipFlopInputs? id = some v ∧
    clk (k + 1) = v.clk ∧ q (k + 1) = v.latched (q k) (clk k)

/-- A flip-flop that holds a bit and a clock value, and shows the bit and its complement. -/
structure Device.Holds (pins : Pins) (q clk : Signal) (d : Device) : Prop where
  state : d.state = .dtype q clk
  bit : d.outputs.get? (some pins.q) = some q
  complement : d.outputs.get? (some pins.qbar) = some (!q)

namespace Session
variable {s : Session} {ops : List Operation} {d : Device} {k : Nat} {ρ : Registry}

section fresh
variable (hs : s.Intact) (hops : ∀ op ∈ ops, op.isOnward = true)
  (hd : d ∈ s.circuit.devices.devices) (hstate : d.state = .dtype false false)

include hs hops hd hstate

theorem flipFlopLaw_heldAfter :
    FlipFlopLaw d.id (s.samplings ops) (fun k => (s.heldAfter ops d.id k).1)
      (fun k => (s.heldAfter ops d.id k).2) := by
  refine ⟨rfl, rfl, fun k ρ hρ => ?_⟩
  obtain ⟨i, hi⟩ := List.getElem?_of_mem hd
  obtain ⟨hsettled, -, d', hd', hdd', hstate'⟩ := state_of_samplings hs hops hi hstate hρ
  obtain ⟨v, hv, -⟩ := hsettled.clockDevice hd' hstate'
  rw [hdd'.id] at hv
  refine ⟨v, hv, ?_⟩
  simp only [heldAfter_succ hρ, Registry.holds, hv, and_self]

theorem holds_heldAfter {before : List Operation} (hbefore : before <+: ops) :
    ∃ d', (s.run before).2.circuit.devices.device? d.id = some d' ∧
      d'.Holds s.circuit.devices.pins (s.heldAfter ops d.id (s.cyclesIn before)).1
        (s.heldAfter ops d.id (s.cyclesIn before)).2 := by
  obtain ⟨after, rfl⟩ := hbefore
  obtain ⟨i, hi⟩ := List.getElem?_of_mem hd
  have hbefore := (List.forall_mem_append.1 hops).1
  have hsound := (hs.run_onward hbefore).sound
  obtain ⟨d', hd', hdd', hstate'⟩ := state_of_append after hs hbefore hi hstate
  have hmem := List.mem_of_getElem? hd'
  obtain ⟨hq, hqbar⟩ := hsound.latched d' hmem _ _ hstate'
  rw [pins_run hs hbefore] at hq hqbar
  exact ⟨d', hdd'.id ▸ hsound.wellFormed.device?_of_mem hmem, hstate', hq, hqbar⟩

/-- A flip-flop in the middle of a cycle: it reads where it is connected to, and it still shows its
old bit. -/
theorem exists_inputs_of_samplings (hρ : (s.samplings ops)[k]? = some ρ) :
    ρ.pins = s.circuit.devices.pins ∧
      ρ.output? d.id (some s.circuit.devices.pins.q) = some (s.heldAfter ops d.id k).1 ∧
      ∀ pin source, s.circuit.devices.source? d.id pin = some source →
        ρ.reads? d.id pin = ρ.output? source.device source.pin := by
  obtain ⟨i, hi⟩ := List.getElem?_of_mem hd
  obtain ⟨hsettled, hpins, d', hd', hdd', hstate'⟩ := state_of_samplings hs hops hi hstate hρ
  have hw := hsettled.wellFormed
  refine ⟨hpins, ?_, fun pin source hsource => ?_⟩
  · rw [← hpins, ← hdd'.id, hw.output?_of_mem hd', hdd'.id]
    exact (hsettled.latched d' hd' _ _ hstate').1
  · rw [Registry.source?, hs.sound.wellFormed.device?_of_mem hd, Option.bind_some,
      Option.join_eq_some_iff] at hsource
    rw [← hdd'.id]
    exact Registry.reads?_of_source hw hd' (hdd'.sources pin source hsource)

end fresh

end Session

/-! ### Shift registers -/

/-- Flip-flops on one clock of which each but the first reads the bit of the one before it. -/
structure Registry.Chain (r : Registry) (clock : Source) (stages : List NameId) : Prop where
  flipFlops : ∀ id ∈ stages, id ∈ r.idsOf .dtype
  clocks : ∀ id ∈ stages, r.source? id r.pins.clk = some clock
  links : stages.IsChain fun a b => r.source? b r.pins.data = some ⟨a, some r.pins.q⟩

/-- Where each value but the first is the old one of the place before, all have moved on by one. -/
theorem map_eq_dropLast {α β : Type} {old new : α → β} {a : α} {l : List α}
    (h : (a :: l).IsChain fun a b => new b = old a) :
    (a :: l).map new = (new a :: (a :: l).map old).dropLast := by
  induction l generalizing a with
  | nil => rfl
  | cons b l ih =>
    obtain ⟨hab, hchain⟩ := List.isChain_cons_cons.1 h
    rw [List.map_cons, ih hchain, hab]
    rfl

namespace Session
variable {s : Session} {ops : List Operation} {k : Nat} {ρ : Registry}

section chain
variable {clock : Source} {first : NameId} {rest : List NameId} (hs : s.Intact)
  (hops : ∀ op ∈ ops, op.isOnward = true)
  (hfresh : ∀ id ∈ first :: rest, ∃ d ∈ s.circuit.devices.devices, d.id = id ∧
    d.state = .dtype false false)
  (hchain : s.circuit.devices.Chain clock (first :: rest))

include hs hops hfresh hchain

/-- All stages sample what is on the clock. -/
theorem output?_clock_of_chain (hρ : (s.samplings ops)[k]? = some ρ) {id : NameId}
    (hid : id ∈ first :: rest) :
    ρ.output? clock.device clock.pin = some (s.heldAfter ops id (k + 1)).2 := by
  obtain ⟨d, hd, rfl, hstate⟩ := hfresh id hid
  obtain ⟨hpins, -, hreads⟩ := exists_inputs_of_samplings hs hops hd hstate hρ
  obtain ⟨v, hv, hclk, -⟩ := (flipFlopLaw_heldAfter hs hops hd hstate).sampled k ρ hρ
  obtain ⟨-, hread, -⟩ := Registry.flipFlopInputs?_eq_some_iff.1 hv
  rw [← hreads _ _ (hchain.clocks d.id hid), ← hpins, hread, hclk]

theorem clk_eq_of_chain (hk : k ≤ (s.samplings ops).length) {id : NameId}
    (hid : id ∈ first :: rest) : (s.heldAfter ops id k).2 = (s.heldAfter ops first k).2 := by
  cases k with
  | zero => rfl
  | succ k =>
    have hρ := List.getElem?_eq_getElem hk
    have hclock := output?_clock_of_chain hs hops hfresh hchain hρ hid
    rw [output?_clock_of_chain hs hops hfresh hchain hρ (List.mem_cons_self ..)] at hclock
    exact (Option.some.inj hclock).symm

/-- If SET and CLEAR are LOW, then all bits move on by one stage when the clock rises, and stay where
they are when it does not. -/
theorem shift_of_chain (hρ : (s.samplings ops)[k]? = some ρ)
    (hidle : ∀ id ∈ first :: rest, ρ.reads? id s.circuit.devices.pins.set = some false ∧
      ρ.reads? id s.circuit.devices.pins.clear = some false) :
    ∃ data, ρ.reads? first s.circuit.devices.pins.data = some data ∧
      (first :: rest).map (fun id => (s.heldAfter ops id (k + 1)).1) =
        if (s.heldAfter ops first (k + 1)).2 && !(s.heldAfter ops first k).2 then
          (data :: (first :: rest).map fun id => (s.heldAfter ops id k).1).dropLast
        else (first :: rest).map fun id => (s.heldAfter ops id k).1 := by
  obtain ⟨hlt, -⟩ := List.getElem?_eq_some_iff.1 hρ
  -- what becomes of the bit of one stage
  have hstage : ∀ id ∈ first :: rest, ∃ data,
      ρ.reads? id s.circuit.devices.pins.data = some data ∧ (s.heldAfter ops id (k + 1)).1 =
        if (s.heldAfter ops first (k + 1)).2 && !(s.heldAfter ops first k).2 then data
        else (s.heldAfter ops id k).1 := by
    intro id hid
    obtain ⟨hset, hclear⟩ := hidle id hid
    have hclk := clk_eq_of_chain hs hops hfresh hchain (Nat.le_of_lt hlt) hid
    have hclk' := clk_eq_of_chain hs hops hfresh hchain hlt hid
    obtain ⟨d, hd, rfl, hstate⟩ := hfresh id hid
    obtain ⟨hpins, -⟩ := exists_inputs_of_samplings hs hops hd hstate hρ
    obtain ⟨v, hv, hvclk, hbit⟩ := (flipFlopLaw_heldAfter hs hops hd hstate).sampled k ρ hρ
    obtain ⟨hvdata, -, hvset, hvclear⟩ := Registry.flipFlopInputs?_eq_some_iff.1 hv
    rw [hpins] at hvdata hvset hvclear
    have hsetLow : v.set = false := Option.some.inj (hvset.symm.trans hset)
    have hclearLow : v.clear = false := Option.some.inj (hvclear.symm.trans hclear)
    refine ⟨v.data, hvdata, ?_⟩
    rw [← hclk, ← hclk', hvclk, hbit, FlipFlopInputs.latched, hsetLow, hclearLow]
    rfl
  obtain ⟨data, hdata, hbit⟩ := hstage first (List.mem_cons_self ..)
  refine ⟨data, hdata, ?_⟩
  by_cases hrise : ((s.heldAfter ops first (k + 1)).2 && !(s.heldAfter ops first k).2) = true
  · simp only [hrise, if_true] at hbit hstage ⊢
    rw [← hbit]
    refine map_eq_dropLast (hchain.links.imp_of_mem_imp fun a b ha hb hlink => ?_)
    -- the stage reads the old bit of the one before it
    obtain ⟨da, hda, rfl, hstatea⟩ := hfresh a ha
    obtain ⟨db, hdb, rfl, hstateb⟩ := hfresh b hb
    obtain ⟨-, hshows, -⟩ := exists_inputs_of_samplings hs hops hda hstatea hρ
    obtain ⟨-, -, hreads⟩ := exists_inputs_of_samplings hs hops hdb hstateb hρ
    obtain ⟨datab, hdatab, hbitb⟩ := hstage db.id hb
    rw [hreads _ _ hlink, hshows] at hdatab
    rw [hbitb, Option.some.inj hdatab]
  · simp only [hrise, Bool.false_eq_true, if_false] at hstage ⊢
    refine List.map_congr_left fun id hid => ?_
    obtain ⟨-, -, hkept⟩ := hstage id hid
    exact hkept

end chain

theorem fresh_of_coldStart (hs : s.Intact) {id : NameId}
    (hid : id ∈ s.circuit.devices.idsOf .dtype) :
    ∃ d ∈ (s.perform .coldStart).2.circuit.devices.devices, d.id = id ∧
      d.state = .dtype false false := by
  obtain ⟨d, hd, hkind, hid⟩ := Registry.mem_idsOf_iff.1 hid
  obtain ⟨q, clk, hstate⟩ := Device.exists_state_of_dtype (hs.sound.wellFormed.devices d hd) hkind
  refine ⟨d.reset s.circuit.devices.pins, List.mem_map_of_mem hd, hid, ?_⟩
  rw [Device.reset, hstate]
  rfl

theorem chain_coldStart {clock : Source} {stages : List NameId}
    (h : s.circuit.devices.Chain clock stages) :
    (s.perform .coldStart).2.circuit.devices.Chain clock stages := by
  have hids : (s.perform .coldStart).2.circuit.devices.idsOf .dtype =
      s.circuit.devices.idsOf .dtype := by
    show ((s.circuit.devices.devices.map _).filter _).map _ = _
    rw [List.filter_map, List.map_map]
    rfl
  have hsource := s.circuit.devices.source?_coldStart
  exact ⟨fun id hid => hids ▸ h.flipFlops id hid,
    fun id hid => (hsource id _).trans (h.clocks id hid),
    h.links.imp fun a b hlink => (hsource b _).trans hlink⟩

/-- After a cold start, whatever is done since then, each flip-flop holds and shows what its law says.
A sample is taken in each cycle that succeeds. Stages on one clock whose SET and CLEAR are LOW move
their bits on by one stage when the clock rises. -/
theorem flipFlops_of_coldStart (hs : s.Reachable) (hops : ∀ op ∈ ops, op.isOnward = true) :
    let s₀ := (s.perform .coldStart).2
    let pins := s.circuit.devices.pins
    (s₀.samplings ops).length = s₀.cyclesIn ops ∧ ∃ q clk : NameId → Nat → Signal,
      (∀ id ∈ s.circuit.devices.idsOf .dtype,
        FlipFlopLaw id (s₀.samplings ops) (q id) (clk id) ∧
        ∀ before, before <+: ops → ∃ d, (s₀.run before).2.circuit.devices.device? id = some d ∧
          d.Holds pins (q id (s₀.cyclesIn before)) (clk id (s₀.cyclesIn before))) ∧
      ∀ clock first rest, s.circuit.devices.Chain clock (first :: rest) →
        ∀ k ρ, (s₀.samplings ops)[k]? = some ρ →
        (∀ id ∈ first :: rest, ρ.reads? id pins.set = some false ∧
          ρ.reads? id pins.clear = some false) →
        ρ.output? clock.device clock.pin = some (clk first (k + 1)) ∧
        ∃ data, ρ.reads? first pins.data = some data ∧
          (first :: rest).map (q · (k + 1)) =
            if clk first (k + 1) && !clk first k then
              (data :: (first :: rest).map (q · k)).dropLast
            else (first :: rest).map (q · k) := by
  intro s₀ pins
  have hintact := hs.intact
  have hs₀ : s₀.Intact := hintact.perform rfl
  refine ⟨length_samplings s₀ ops, fun id k => (s₀.heldAfter ops id k).1,
    fun id k => (s₀.heldAfter ops id k).2, fun id hid => ?_,
    fun clock first rest hchain k ρ hρ hidle => ?_⟩
  · obtain ⟨d, hd, rfl, hstate⟩ := fresh_of_coldStart hintact hid
    exact ⟨flipFlopLaw_heldAfter hs₀ hops hd hstate,
      fun before hbefore => holds_heldAfter hs₀ hops hd hstate hbefore⟩
  · have hfresh := fun id hid => fresh_of_coldStart hintact (hchain.flipFlops id hid)
    have hchain₀ := chain_coldStart hchain
    exact ⟨output?_clock_of_chain hs₀ hops hfresh hchain₀ hρ (List.mem_cons_self ..),
      shift_of_chain hs₀ hops hfresh hchain₀ hρ hidle⟩

/-- Three stages, the last of which was made first. The clock turns over in each cycle. -/
def shiftRegister : List Operation :=
  [.create .dtype third [], .create .dtype second [], .create .dtype first [],
    .create .switch data (.ofString "1"), .create .switch low (.ofString "0"),
    .create .clock clock (.ofString "1"), .connect data none first Pin.data,
    .connect first (some Pin.q) second Pin.data, .connect second (some Pin.q) third Pin.data,
    .connect clock none first Pin.clk, .connect clock none second Pin.clk,
    .connect clock none third Pin.clk, .connect low none first Pin.set,
    .connect low none second Pin.set, .connect low none third Pin.set,
    .connect low none first Pin.clear, .connect low none second Pin.clear,
    .connect low none third Pin.clear]
where
  third : NameId := 22
  second : NameId := 23
  first : NameId := 24
  data : NameId := 25
  low : NameId := 26
  clock : NameId := 27
  stages : List NameId := [first, second, third]

theorem flipFlops_of_coldStart_shiftRegister :
    let s := ((start {}).run shiftRegister).2
    let data := Operation.setSwitch shiftRegister.data
    let ops := [.cycle, data false, .cycle, .cycle, data true, .cycle]
    let first := shiftRegister.first
    let stages := shiftRegister.stages
    (∃ q clk : NameId → Nat → Signal,
      (∀ id ∈ stages, ∃ d,
        ((s.perform .coldStart).2.run ops).2.circuit.devices.device? id = some d ∧
          d.Holds s.circuit.devices.pins (q id 4) (clk id 4)) ∧
      ∀ k < 4, ∃ data, stages.map (q · (k + 1)) =
        if clk first (k + 1) && !clk first k then (data :: stages.map (q · k)).dropLast
        else stages.map (q · k)) ∧
    stages.map (((s.perform .coldStart).2.run ops).2.circuit.devices.output? · (some Pin.q)) =
      [some false, some true, some false] := by
  intro s data ops first stages
  have hs : s.Reachable := ⟨_, _, by decide, rfl⟩
  have hops : ∀ op ∈ ops, op.isOnward = true := by decide
  have hchain : s.circuit.devices.Chain ⟨shiftRegister.clock, none⟩ stages :=
    ⟨by decide +kernel, by decide +kernel, by decide +kernel⟩
  have hidle : ∀ ρ ∈ (s.perform .coldStart).2.samplings ops, ∀ id ∈ stages,
      ρ.reads? id s.circuit.devices.pins.set = some false ∧
        ρ.reads? id s.circuit.devices.pins.clear = some false := by decide +kernel
  have hcycles : (s.perform .coldStart).2.cyclesIn ops = 4 := by decide +kernel
  obtain ⟨hlength, q, clk, hlaw, hshift⟩ := flipFlops_of_coldStart hs hops
  rw [hcycles] at hlength
  refine ⟨⟨q, clk, fun id hid => ?_, fun k hk => ?_⟩, by decide +kernel⟩
  · obtain ⟨d, hd, hholds⟩ := (hlaw id (hchain.flipFlops id hid)).2 ops List.prefix_rfl
    rw [hcycles] at hholds
    exact ⟨d, hd, hholds⟩
  · have hρ := List.getElem?_eq_getElem (hlength ▸ hk)
    obtain ⟨-, data, -, hbits⟩ := hshift _ _ _ hchain k _ hρ (hidle _ (List.mem_of_getElem? hρ))
    exact ⟨data, hbits⟩

end Session

end GateSim
