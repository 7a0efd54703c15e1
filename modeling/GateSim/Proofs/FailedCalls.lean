import Mathlib.Data.List.DropRight
import GateSim.Proofs.Ready
import GateSim.Proofs.Signals

/-!
# Calls that fail

A request that is refused leaves a message and nothing else, and a cycle that fails leaves the state
besides. When cycles are asked for together, those before the first one that fails have been simulated,
and nothing has come of that one (`Engine.cycles_of_stopsAfter`). Without a run since the last load
(`Engine.ranSinceLoad`) there is nothing to resume. A switch that is set is the only device that
changes (`Engine.SetsOnly`).
-/

namespace GateSim

theorem State.fits_switch_iff {s : State} :
    s.fits .switch = true ↔ ∃ initial setting, s = .switch initial setting := by
  constructor
  · intro h
    cases s with
    | switch initial setting => exact ⟨initial, setting, rfl⟩
    | _ => cases h
  · rintro ⟨initial, setting, rfl⟩
    rfl

theorem State.kind_of_fits_switch {kind : Kind} {initial setting : Signal}
    (h : (State.switch initial setting).fits kind = true) : kind = .switch := by
  cases kind <;> first | rfl | cases h

namespace Registry
variable {r r' : Registry} {id : NameId} {v : Signal}

/-- What can be set are the switches. -/
theorem WellFormed.isSome_setSwitch_iff (h : r.WellFormed) :
    (r.setSwitch id v).isSome = true ↔ id ∈ r.idsOf .switch := by
  rw [mem_idsOf_iff]
  constructor
  · intro hsome
    obtain ⟨r', hs⟩ := Option.isSome_iff_exists.1 hsome
    obtain ⟨initial, ⟨d, hd, hid, setting, hstate⟩, -⟩ := h.setSwitch_eq_some hs
    exact ⟨d, hd, State.kind_of_fits_switch (hstate ▸ (h.devices d hd).fits), hid⟩
  · rintro ⟨d, hd, hkind, rfl⟩
    obtain ⟨initial, setting, hstate⟩ :=
      State.fits_switch_iff.1 (hkind ▸ (h.devices d hd).fits)
    rw [setSwitch, h.device?_of_mem hd, Option.map_some, hstate]
    rfl

/-- Setting a switch changes its setting and its output, and no other device. -/
theorem WellFormed.exists_setSwitch (h : r.WellFormed) (hs : r.setSwitch id v = some r') :
    ∃ before d after initial setting w, r.devices = before ++ d :: after ∧ d.id = id ∧
      d.state = .switch initial setting ∧ d.outputs = [(none, w)] ∧
      r' = { r with devices :=
        before ++ { d with state := .switch initial v, outputs := [(none, v)] } :: after } := by
  obtain ⟨initial, ⟨d, hd, hid, setting, hstate⟩, rfl⟩ := h.setSwitch_eq_some hs
  obtain ⟨w, hw⟩ := Device.outputs_of_outputPins (h.devices d hd) (by rw [hstate]; rfl)
  obtain ⟨before, after, hdevices⟩ := List.append_of_mem hd
  refine ⟨before, d, after, initial, setting, w, hdevices, hid, hstate, hw, ?_⟩
  have hnodup := h.nodup_ids
  rw [ids, hdevices, List.map_append, List.map_cons] at hnodup
  obtain ⟨-, hcons, hdisjoint⟩ := List.nodup_append.1 hnodup
  have hbefore : ∀ d' ∈ before, d'.id ≠ id := fun d' hd' =>
    hid ▸ hdisjoint _ (List.mem_map_of_mem hd') _ (List.mem_cons_self ..)
  have hafter : ∀ d' ∈ after, d'.id ≠ id := fun d' hd' heq =>
    (List.nodup_cons.1 hcons).1 (hid.trans heq.symm ▸ List.mem_map_of_mem hd')
  have hsame : ∀ l : List Device, (∀ d' ∈ l, d'.id ≠ id) →
      (l.map fun d' => if d'.id = id then { d'.putOutput none v with state := .switch initial v }
        else d') = l := fun l hl => by
    rw [List.map_congr_left fun d' hd' => if_neg (hl d' hd'), List.map_id']
  rw [hdevices, List.map_append, List.map_cons, hsame before hbefore, hsame after hafter,
    if_pos hid, Device.putOutput, hw]
  rfl

end Registry

namespace Engine
variable {e : Engine} {c : Circuit} {k n : Nat}

/-! ### Cycles -/

/-- The message of an earlier call plays no part. -/
theorem cycle_with_message (e : Engine) (m : Text) :
    cycle { e with message := m } =
      (e.cycle.1, if e.cycle.1 then { e.cycle.2 with message := m } else e.cycle.2) := by
  obtain ⟨state, statistics, message, hasRun, names, circuit, diagnostics⟩ := e
  cases circuit with
  | none => rfl
  | some c => rcases hstep : c.step with ⟨f | passes, c'⟩ <;> simp [cycle, hstep, fail]

theorem cycle_of_failed (h : e.Proper) (hf : e.cycle.1 = false) :
    ∃ message, e.cycle.2 = { e with state := .error, message } := by
  rcases Option.eq_none_or_eq_some e.circuit with hc | ⟨c, hc⟩
  · have heq : e.cycle = (false, e.unloaded) := by rw [cycle, hc]
    exact ⟨_, congrArg Prod.snd heq⟩
  · rcases cycle_cases h hc with ⟨c', statistics, -, heq⟩ | ⟨message, heq⟩
    · rw [heq] at hf
      cases hf
    · exact ⟨message, congrArg Prod.snd heq⟩

/-- The engine after cycles that are asked for one by one. -/
def cycled (e : Engine) (k : Nat) : Engine := (List.replicate k Call.cycle).foldl call e

theorem cycled_succ (e : Engine) (k : Nat) : e.cycled (k + 1) = e.cycle.2.cycled k := rfl

/-- So many cycles succeed when they are asked for one by one, and the next one fails. -/
def StopsAfter (e : Engine) (k : Nat) : Prop :=
  (∀ j < k, (e.cycled j).cycle.1 = true) ∧ (e.cycled k).cycle.1 = false

theorem stopsAfter_zero : e.StopsAfter 0 ↔ e.cycle.1 = false :=
  and_iff_right fun _ hj => absurd hj (Nat.not_lt_zero _)

theorem stopsAfter_succ :
    e.StopsAfter (k + 1) ↔ e.cycle.1 = true ∧ e.cycle.2.StopsAfter k := by
  simp only [StopsAfter, Nat.forall_lt_succ_left, cycled_succ, and_assoc]
  rfl

theorem stopsAfter_with_message (m : Text) :
    StopsAfter { e with message := m } k ↔ e.StopsAfter k := by
  induction k generalizing e with
  | zero => rw [stopsAfter_zero, stopsAfter_zero, cycle_with_message]
  | succ k ih =>
    rw [stopsAfter_succ, stopsAfter_succ, cycle_with_message]
    refine and_congr_right fun hcycle => ?_
    rw [if_pos hcycle]
    exact ih

theorem cycles_succ_of_true (h : e.cycle.1 = true) : cycles (n + 1) e = cycles n e.cycle.2 := by
  rw [cycles]
  rcases hcycle : e.cycle with ⟨_ | _, e'⟩
  · rw [hcycle] at h
    cases h
  · rfl

theorem cycles_succ_of_false (h : e.cycle.1 = false) : cycles (n + 1) e = e.cycle.2 := by
  rw [cycles]
  rcases hcycle : e.cycle with ⟨_ | _, e'⟩
  · rfl
  · rw [hcycle] at h
    cases h

/-- Cycles that are stopped end with the one that fails, after as many as succeed. -/
theorem cycles_of_stopsAfter (h : e.StopsAfter k) (hk : k < n) :
    (cycles k e).cycle = (false, cycles n e) := by
  induction k generalizing e n with
  | zero =>
    obtain ⟨n, rfl⟩ := Nat.exists_eq_succ_of_ne_zero (Nat.ne_of_gt hk)
    have hfalse := stopsAfter_zero.1 h
    rw [cycles, cycle_with_state, cycles_succ_of_false hfalse, hfalse]
    rfl
  | succ k ih =>
    obtain ⟨n, rfl⟩ := Nat.exists_eq_succ_of_ne_zero (Nat.ne_zero_of_lt hk)
    obtain ⟨htrue, hrest⟩ := stopsAfter_succ.1 h
    rw [cycles_succ_of_true htrue, cycles_succ_of_true htrue]
    exact ih hrest (Nat.lt_of_succ_lt_succ hk)

theorem cycles_halt_or_stop (e : Engine) (n : Nat) :
    (cycles n e).state = .halted ∨ ∃ k < n, e.StopsAfter k := by
  induction n generalizing e with
  | zero => exact Or.inl rfl
  | succ n ih =>
    cases hcycle : e.cycle.1 with
    | false => exact Or.inr ⟨0, Nat.succ_pos n, stopsAfter_zero.2 hcycle⟩
    | true =>
      rw [cycles_succ_of_true hcycle]
      refine (ih e.cycle.2).imp_right fun ⟨k, hk, hstops⟩ => ?_
      exact ⟨k + 1, Nat.succ_lt_succ hk, stopsAfter_succ.2 ⟨hcycle, hstops⟩⟩

/-- What is simulated before a cycle that fails is what fewer cycles would have left. -/
theorem simulate_of_stopsAfter (h : e.Proper) (hc : e.circuit.isSome = true) (hs : e.StopsAfter k)
    (hk : k < n) : ∃ message, e.simulate n = { e.simulate k with state := .error, message } := by
  have hcycle := cycles_of_stopsAfter ((stopsAfter_with_message []).2 hs) hk
  have hproper := (simulate_keep h hc k).1
  obtain ⟨message, heq⟩ := cycle_of_failed hproper (congrArg Prod.fst hcycle)
  exact ⟨message, (congrArg Prod.snd hcycle).symm.trans heq⟩

theorem simulate_error_iff (h : e.Proper) (hc : e.circuit.isSome = true) :
    (e.simulate n).state = .error ↔ ∃ k < n, e.StopsAfter k := by
  refine ⟨fun herror => ?_, fun ⟨k, hk, hs⟩ => ?_⟩
  · rcases cycles_halt_or_stop { e with message := [] } n with hhalted | ⟨k, hk, hs⟩
    · cases hhalted.symm.trans herror
    · exact ⟨k, hk, (stopsAfter_with_message []).1 hs⟩
  · obtain ⟨message, heq⟩ := simulate_of_stopsAfter h hc hs hk
    rw [heq]

/-! ### Runs -/

/-- A run was started since the last load. -/
def ranSinceLoad (calls : List Call) : Bool :=
  (calls.rtakeWhile fun k => !k.isLoad).any Call.isRun

theorem hasRun_call_of_not_load (h : e.Proper) (hc : e.circuit.isSome = true) {k : Call}
    (hload : k.isLoad = false) : (e.call k).hasRun = (e.hasRun || k.isRun) := by
  obtain ⟨c, hc'⟩ := Option.isSome_iff_exists.1 hc
  cases k with
  | load | loadFile => cases hload
  | run n =>
    rw [call, run_eq hc, (simulate_keep h.started (isSome_started hc) n).2.2, Call.isRun,
      Bool.or_true]
    rfl
  | resume n =>
    refine Eq.trans ?_ (Bool.or_false e.hasRun).symm
    rw [call]
    cases hr : e.hasRun with
    | true => rw [resume_eq hc hr, (simulate_keep h hc n).2.2, hr]
    | false => simp [resume, hc', hr, fail]
  | cycle | coldStart | setSwitch | addMonitor | removeMonitor =>
    rw [hasRun_call hc' hload rfl]
    exact (Bool.or_false e.hasRun).symm

theorem hasRun_eq (calls : List Call) (hc : (calls.foldl call {}).circuit.isSome = true) :
    (calls.foldl call {}).hasRun = ranSinceLoad calls := by
  induction calls using List.reverseRecOn with
  | nil => rfl
  | append_singleton calls k ih =>
    have hproper : (calls.foldl call {}).Proper := Reachable.proper ⟨calls, rfl⟩
    rw [List.foldl_concat] at hc ⊢
    rw [ranSinceLoad]
    cases hk : k.isLoad with
    | true =>
      rw [List.rtakeWhile_concat_neg _ _ _ (by simp [hk]), (fresh_of_isLoad hk hc).hasRun]
      rfl
    | false =>
      have hbefore := (keeps_call hproper hk).isSome ▸ hc
      rw [List.rtakeWhile_concat_pos _ _ _ (by simp [hk]), List.any_append,
        hasRun_call_of_not_load hproper hbefore hk, ih hbefore]
      simp [ranSinceLoad]

/-! ### Switches -/

/-- The setting and the output of a switch are new, and nothing else is. -/
def SetsOnly (e : Engine) (name : Text) (v : Signal) (e' : Engine) : Prop :=
  ∃ c before d after initial setting w, e.circuit = some c ∧
    c.devices.devices = before ++ d :: after ∧ e.names.nameOf d.id = name ∧
    d.state = .switch initial setting ∧ d.outputs = [(none, w)] ∧
    e' = { e with circuit := some { c with devices := { c.devices with devices :=
      before ++ { d with state := .switch initial v, outputs := [(none, v)] } :: after } } }

theorem Shown.mem_switchNames_iff (h : e.Shown c) {name : Text} :
    name ∈ e.switchNames ↔
      ∃ a, e.names.find? name = some a ∧ a ∈ c.devices.idsOf .switch := by
  have hnames : e.switchNames = (c.devices.idsOf .switch).map e.names.nameOf := by
    rw [switchNames, h.circuit]
  rw [hnames, List.mem_map]
  constructor
  · rintro ⟨a, ha, rfl⟩
    obtain ⟨d, hd, -, hid⟩ := Registry.mem_idsOf_iff.1 ha
    have hmem : a ∈ c.devices.ids := hid ▸ List.mem_map_of_mem hd
    obtain ⟨t, ht, -, rfl⟩ := h.exists_name hmem
    exact ⟨_, by rw [NameTable.nameOf_idOf ht, NameTable.find?_of_mem ht], ha⟩
  · rintro ⟨a, hfind, ha⟩
    exact ⟨a, ha, NameTable.nameOf_of_find? hfind⟩

/-- A switch is set, or the name or the value is refused. -/
theorem Shown.setSwitch_cases (h : e.Shown c) (name : Text) (value : Int) :
    ((value = 0 ∨ value = 1) ∧ name ∈ e.switchNames ∧ (e.setSwitch name value).1 = true ∧
      e.SetsOnly name (value == 1) (e.setSwitch name value).2) ∨
    (¬ ((value = 0 ∨ value = 1) ∧ name ∈ e.switchNames) ∧
      ∃ message, e.setSwitch name value = (false, e.refuse message)) := by
  by_cases hv : value = 0 ∨ value = 1
  swap
  · refine Or.inr ⟨mt And.left hv,
      .ofString "Switch value should be 0 or 1, got " ++ .signedDecimal value, ?_⟩
    simp only [setSwitch, h.circuit, if_pos (not_or.1 hv)]
  have hvalue : ¬ (value ≠ 0 ∧ value ≠ 1) := mt not_or.2 (not_not.2 hv)
  by_cases hname : name ∈ e.switchNames
  · obtain ⟨a, hfind, ha⟩ := h.mem_switchNames_iff.1 hname
    obtain ⟨r, hset⟩ := Option.isSome_iff_exists.1
      ((h.wellFormed.isSome_setSwitch_iff (v := value == 1)).2 ha)
    have heq : e.setSwitch name value =
        (true, { e with circuit := some { c with devices := r } }) := by
      simp only [setSwitch, h.circuit, if_neg hvalue, hfind, Option.map_some, Circuit.setSwitch,
        hset]
    obtain ⟨before, d, after, initial, setting, w, hdevices, hid, hstate, hout, rfl⟩ :=
      h.wellFormed.exists_setSwitch hset
    rw [heq]
    exact Or.inl ⟨hv, hname, rfl, c, before, d, after, initial, setting, w, h.circuit, hdevices,
      hid ▸ NameTable.nameOf_of_find? hfind, hstate, hout, rfl⟩
  · refine Or.inr ⟨mt And.right hname, .ofString "Invalid switch: " ++ name, ?_⟩
    simp only [setSwitch, h.circuit, if_neg hvalue]
    split
    · next c' hset =>
      obtain ⟨a, hfind, hcircuit⟩ := Option.map_eq_some_iff.1 hset
      have hnone : c.devices.setSwitch a (value == 1) = none := by
        rw [← Option.not_isSome_iff_eq_none, h.wellFormed.isSome_setSwitch_iff]
        exact fun ha => hname (h.mem_switchNames_iff.2 ⟨a, hfind, ha⟩)
      rw [Circuit.setSwitch, hnone] at hcircuit
      cases hcircuit
    · rfl

/-! ### Calls -/

/-- What calls that fail leave of an engine, and what a switch that is set does to it. A run may have
been started since the last load, or not. -/
structure FailsCleanly (e : Engine) (ran : Bool) : Prop where
  setSwitch : e.circuit.isSome = true → ∀ name value, (e.setSwitch name value).1 = false →
    ∃ message, (e.setSwitch name value).2 = { e with message }
  addMonitor : e.circuit.isSome = true → ∀ signal, (e.addMonitor signal).1 = false →
    ∃ message, (e.addMonitor signal).2 = { e with message }
  removeMonitor : e.circuit.isSome = true → ∀ signal, (e.removeMonitor signal).1 = false →
    ∃ message, (e.removeMonitor signal).2 = { e with message }
  cycle : e.cycle.1 = false → ∃ message, e.cycle.2 = { e with state := .error, message }
  /-- There is nothing to resume. -/
  resume_not_run : ran = false → ∀ n, ∃ message, e.resume n = { e with state := .error, message }
  resume_error_iff : e.circuit.isSome = true → ran = true → ∀ n,
    (e.resume n).state = .error ↔ ∃ k < n, e.StopsAfter k
  /-- The cycles before the one that fails are all that comes of it. -/
  resume_stopped : e.circuit.isSome = true → ran = true → ∀ k n, k < n → e.StopsAfter k →
    ∃ message, e.resume n = { e.resume k with state := .error, message }
  sets_iff : ∀ name value, (e.setSwitch name value).1 = true ↔
    (value = 0 ∨ value = 1) ∧ name ∈ e.switchNames
  sets : ∀ name value, (e.setSwitch name value).1 = true →
    e.SetsOnly name (value == 1) (e.setSwitch name value).2

theorem resume_of_not_hasRun (h : e.circuit.isSome = true → e.hasRun = false) (n : Nat) :
    ∃ message, e.resume n = { e with state := .error, message } := by
  rcases Option.eq_none_or_eq_some e.circuit with hc | ⟨c, hc⟩
  · have heq : e.resume n = e.unloaded := by simp [resume, hc]
    exact ⟨_, heq⟩
  · have heq : e.resume n = e.fail (.ofString "Nothing to continue; run the circuit first") := by
      simp [resume, hc, h]
    exact ⟨_, heq⟩

theorem setSwitch_of_unloaded (hc : e.circuit = none) (name : Text) (value : Int) :
    (e.setSwitch name value).1 = false := by
  rw [setSwitch, hc]

/-- Whatever was done with an engine before, a call that is refused changes nothing but the message,
a cycle that fails and a run that cannot be resumed change the state besides, and a run that is resumed
leaves what it would have left without the cycle that fails and those after it. -/
theorem failsCleanly_calls (calls : List Call) :
    (calls.foldl call {}).FailsCleanly (ranSinceLoad calls) := by
  have hreachable : (calls.foldl call {}).Reachable := ⟨calls, rfl⟩
  have hrun := hasRun_eq calls
  generalize calls.foldl call {} = e at hreachable hrun ⊢
  have hproper := hreachable.proper
  have hshown : e.circuit.isSome = true → ∃ c, e.Shown c := fun hc => by
    obtain ⟨c, hc⟩ := Option.isSome_iff_exists.1 hc
    exact ⟨c, hreachable.shown hc⟩
  constructor
  case setSwitch =>
    intro hc name value hf
    obtain ⟨c, h⟩ := hshown hc
    rcases h.setSwitch_cases name value with ⟨-, -, htrue, -⟩ | ⟨-, message, heq⟩
    · cases htrue.symm.trans hf
    · exact ⟨message, congrArg Prod.snd heq⟩
  case addMonitor =>
    intro hc signal hf
    obtain ⟨c, h⟩ := hshown hc
    rcases h.addMonitor_cases signal with ⟨-, -, m, -, -, heq⟩ | ⟨-, message, heq⟩
    · cases (congrArg Prod.fst heq).symm.trans hf
    · exact ⟨message, congrArg Prod.snd heq⟩
  case removeMonitor =>
    intro hc signal hf
    obtain ⟨c, h⟩ := hshown hc
    rcases h.removeMonitor_cases signal with ⟨-, heq⟩ | ⟨-, message, heq⟩
    · cases (congrArg Prod.fst heq).symm.trans hf
    · exact ⟨message, congrArg Prod.snd heq⟩
  case cycle => exact cycle_of_failed hproper
  case resume_not_run =>
    intro hran
    exact resume_of_not_hasRun fun hc => (hrun hc).trans hran
  case resume_error_iff =>
    intro hc hran n
    rw [resume_eq hc ((hrun hc).trans hran)]
    exact simulate_error_iff hproper hc
  case resume_stopped =>
    intro hc hran k n hk hs
    have hresume := resume_eq hc ((hrun hc).trans hran)
    rw [hresume, hresume]
    exact simulate_of_stopsAfter hproper hc hs hk
  case sets_iff =>
    intro name value
    rcases Option.eq_none_or_eq_some e.circuit with hc | ⟨c, hc⟩
    · have hnames : e.switchNames = [] := by rw [switchNames, hc]
      simp [setSwitch_of_unloaded hc, hnames]
    · rcases (hreachable.shown hc).setSwitch_cases name value with
        ⟨hv, hname, htrue, -⟩ | ⟨hnot, message, heq⟩
      · exact iff_of_true htrue ⟨hv, hname⟩
      · exact iff_of_false (by rw [heq]; exact Bool.false_ne_true) hnot
  case sets =>
    intro name value htrue
    rcases Option.eq_none_or_eq_some e.circuit with hc | ⟨c, hc⟩
    · cases (setSwitch_of_unloaded hc name value).symm.trans htrue
    · rcases (hreachable.shown hc).setSwitch_cases name value with
        ⟨-, -, -, hsets⟩ | ⟨-, message, heq⟩
      · exact hsets
      · cases (congrArg Prod.fst heq).symm.trans htrue

/-- The second cycle since a cold start fails. -/
example : StopsAfter ([Call.load { text := clockedRing }, .run 3, .coldStart].foldl call {}) 1 :=
  stopsAfter_succ.2 ⟨by decide +kernel, stopsAfter_zero.2 (by decide +kernel)⟩

end Engine

end GateSim
