import Mathlib.Data.List.DropRight
import GateSim.Proofs.Accepted
import GateSim.Proofs.Calls

/-!
# What monitors have sampled

A chronicle tells what has happened in an engine: loads, starts of runs, cycles with the devices as
they were right after them, and monitors set and removed. From it alone follows what the monitors
are and what each has sampled (`Monitors.Follow`): the values of its output after the cycles since
the later of the start of the last run and the time when it was set. Every call keeps this true
(`Engine.follows_chronicle`).
-/

namespace GateSim

inductive Occurrence
  /-- A circuit is loaded, with monitors on these outputs. -/
  | loaded (outputs : List Source)
  /-- A run starts. -/
  | started
  /-- A cycle has succeeded and has left the devices like this. -/
  | sampled (devices : Registry)
  | watched (output : Source)
  | dropped (output : Source)
  deriving DecidableEq

namespace Occurrence

/-- From here on an output is sampled anew. -/
def opens (p : Source) : Occurrence → Bool
  | .loaded _ | .started => true
  | .watched q => q == p
  | .sampled _ | .dropped _ => false

def snapshot? : Occurrence → Option Registry
  | .sampled r => some r
  | _ => none

/-- The monitored outputs after an occurrence, in the order in which they were set. -/
def watch (ps : List Source) : Occurrence → List Source
  | .loaded outputs => outputs
  | .watched p => ps ++ [p]
  | .dropped p => ps.erase p
  | .started | .sampled _ => ps

end Occurrence

abbrev Chronicle := List Occurrence

namespace Chronicle

/-- The devices as they were after each cycle. -/
def snapshots (log : Chronicle) : List Registry := log.filterMap Occurrence.snapshot?

def watching (log : Chronicle) : List Source := log.foldl Occurrence.watch []

/-- What has happened since an output is sampled. -/
def since (log : Chronicle) (p : Source) : Chronicle := log.rtakeWhile (!·.opens p)

theorem watching_concat (log : Chronicle) (o : Occurrence) :
    watching (log ++ [o]) = o.watch log.watching := by
  rw [watching, List.foldl_concat, watching]

theorem since_concat (log : Chronicle) (o : Occurrence) (p : Source) :
    since (log ++ [o]) p = if o.opens p then [] else log.since p ++ [o] := by
  rw [since, List.rtakeWhile_concat]
  cases o.opens p <;> rfl

theorem snapshots_append (log log' : Chronicle) :
    snapshots (log ++ log') = log.snapshots ++ log'.snapshots := List.filterMap_append ..

end Chronicle

def Monitor.output (m : Monitor) : Source := ⟨m.device, m.pin⟩

namespace Monitors

/-- The monitors are those that a chronicle tells of, and have sampled what it tells. -/
structure Follow (log : Chronicle) (ms : Monitors) : Prop where
  outputs : ms.map Monitor.output = log.watching
  nodup : (ms.map Monitor.output).Nodup
  histories : ∀ m ∈ ms, m.history.map some =
    (log.since m.output).snapshots.map (·.output? m.device m.pin)
  lengths : ms.Pairwise fun m m' => m'.history.length ≤ m.history.length

variable {log : Chronicle} {ms ms' : Monitors}

theorem watches_iff {m : Monitor} {a : NameId} {pin : OutputPin} :
    m.watches a pin = true ↔ m.output = ⟨a, pin⟩ := by
  simp [Monitor.watches, Monitor.output]

theorem isMonitored_iff {a : NameId} {pin : OutputPin} :
    ms.isMonitored a pin = true ↔ (⟨a, pin⟩ : Source) ∈ ms.map Monitor.output := by
  rw [isMonitored, find?, List.find?_isSome, List.mem_map]
  simp only [watches_iff]

/-- If nothing fails, every output exists and its value is added. -/
theorem record_eq_ok {r : Registry} (h : record r ms = (none, ms')) :
    (∀ m ∈ ms, r.output? m.device m.pin = some ((r.output? m.device m.pin).getD false)) ∧
      ms' = ms.map fun m => m.add ((r.output? m.device m.pin).getD false) := by
  induction ms generalizing ms' with
  | nil =>
    cases h
    exact ⟨fun _ hm => absurd hm List.not_mem_nil, rfl⟩
  | cons m ms ih =>
    rw [record] at h
    cases hv : r.output? m.device m.pin with
    | none =>
      rw [hv] at h
      cases h
    | some v =>
      rcases hr : record r ms with ⟨fault, rest⟩
      simp only [hv, hr] at h
      cases h
      obtain ⟨hall, rfl⟩ := ih hr
      refine ⟨List.forall_mem_cons.2 ⟨by rw [hv, Option.getD_some], hall⟩, ?_⟩
      rw [List.map_cons, hv, Option.getD_some]

theorem insert_eq_ok {r : Registry} {a : NameId} {pin : OutputPin}
    (h : insert r ms a pin = (.ok, ms')) :
    ⟨a, pin⟩ ∉ ms.map Monitor.output ∧ ms' = ms ++ [{ device := a, pin := pin }] := by
  unfold insert at h
  split at h
  · cases h
  split at h
  · cases h
  split at h
  · cases h
  · next hnot =>
    cases h
    exact ⟨mt isMonitored_iff.2 hnot, rfl⟩

theorem erase_eq_ok {a : NameId} {pin : OutputPin} (h : ms.erase a pin = (.ok, ms')) :
    ms' = ms.eraseP (·.watches a pin) := by
  unfold erase at h
  split at h <;> cases h
  rfl

namespace Follow
variable (h : Follow log ms)
include h

/-- The chronicle goes on with something that is no cycle and, for these monitors, no new start. -/
theorem histories_concat {o : Occurrence} (ho : o.snapshot? = none) {m : Monitor} (hm : m ∈ ms)
    (hopens : o.opens m.output = false) : m.history.map some =
      (Chronicle.since (log ++ [o]) m.output).snapshots.map (·.output? m.device m.pin) := by
  rw [Chronicle.since_concat, hopens, if_neg Bool.false_ne_true, Chronicle.snapshots_append,
    h.histories m hm]
  simp [Chronicle.snapshots, ho]

theorem started : Follow (log ++ [.started]) ms.reset := by
  have hout : ms.reset.map Monitor.output = ms.map Monitor.output := by
    rw [reset, List.map_map]
    rfl
  refine ⟨?_, hout ▸ h.nodup, ?_, ?_⟩
  · rw [hout, h.outputs, Chronicle.watching_concat]
    rfl
  · intro m hm
    obtain ⟨m, -, rfl⟩ := List.mem_map.1 hm
    rw [Chronicle.since_concat]
    rfl
  · exact List.pairwise_map.2 (List.pairwise_of_forall fun _ _ => Nat.le_refl _)

theorem sampled {r : Registry} (hr : record r ms = (none, ms')) :
    Follow (log ++ [.sampled r]) ms' := by
  obtain ⟨hall, rfl⟩ := record_eq_ok hr
  have hout : (ms.map fun m => m.add ((r.output? m.device m.pin).getD false)).map Monitor.output =
      ms.map Monitor.output := by
    rw [List.map_map]
    rfl
  refine ⟨?_, hout ▸ h.nodup, ?_, ?_⟩
  · rw [hout, h.outputs, Chronicle.watching_concat]
    rfl
  · intro m' hm'
    obtain ⟨m, hm, rfl⟩ := List.mem_map.1 hm'
    have hsample := hall m hm
    have hhistory := h.histories m hm
    generalize (r.output? m.device m.pin).getD false = v at hsample
    show ((m.add v).history).map some =
      (Chronicle.since (log ++ [.sampled r]) m.output).snapshots.map (·.output? m.device m.pin)
    rw [Monitor.history_add, List.map_append, hhistory, Chronicle.since_concat]
    simp [Chronicle.snapshots, Occurrence.opens, Occurrence.snapshot?, hsample]
  · refine List.pairwise_map.2 (h.lengths.imp fun hle => ?_)
    simpa using hle

theorem watched {r : Registry} {a : NameId} {pin : OutputPin}
    (hi : insert r ms a pin = (.ok, ms')) : Follow (log ++ [.watched ⟨a, pin⟩]) ms' := by
  obtain ⟨hnew, rfl⟩ := insert_eq_ok hi
  have hout : (ms ++ [({ device := a, pin := pin } : Monitor)]).map Monitor.output =
      ms.map Monitor.output ++ [(⟨a, pin⟩ : Source)] := List.map_append
  refine ⟨?_, ?_, ?_, ?_⟩
  · rw [hout, h.outputs, Chronicle.watching_concat]
    rfl
  · rw [hout]
    exact List.concat_eq_append ▸ h.nodup.concat hnew
  · intro m hm
    rcases List.mem_append.1 hm with hm | hm
    · refine h.histories_concat rfl hm (beq_eq_false_iff_ne.2 fun heq => hnew ?_)
      exact heq ▸ List.mem_map_of_mem hm
    · -- nothing has been sampled yet
      obtain rfl := List.mem_singleton.1 hm
      rw [Chronicle.since_concat, if_pos (by simp [Occurrence.opens, Monitor.output])]
      rfl
  · refine List.pairwise_append.2 ⟨h.lengths, List.pairwise_singleton _ _, fun m _ m' hm' => ?_⟩
    rw [List.mem_singleton.1 hm']
    exact Nat.zero_le _

theorem dropped {a : NameId} {pin : OutputPin} (he : ms.erase a pin = (.ok, ms')) :
    Follow (log ++ [.dropped ⟨a, pin⟩]) ms' := by
  obtain rfl := erase_eq_ok he
  have hout : (ms.eraseP (·.watches a pin)).map Monitor.output =
      (ms.map Monitor.output).erase ⟨a, pin⟩ := by
    rw [List.erase_eq_eraseP, List.eraseP_map]
    refine congrArg (fun p => (ms.eraseP p).map Monitor.output) (funext fun m => ?_)
    rw [Bool.eq_iff_iff, watches_iff, Function.comp_apply, beq_iff_eq, eq_comm]
  refine ⟨?_, ?_, ?_, h.lengths.sublist List.eraseP_sublist⟩
  · rw [hout, h.outputs, Chronicle.watching_concat]
    rfl
  · rw [hout]
    exact h.nodup.erase _
  · exact fun m hm => h.histories_concat rfl (List.mem_of_mem_eraseP hm) rfl

end Follow
end Monitors

/-! ### Circuits -/

/-- The monitors of a circuit that has just been built have sampled nothing. -/
theorem Definition.Accepts.follow {d : Definition} {names : NameTable} {built : Built}
    {sts : List Statement} (h : d.Accepts names built sts) (log : Chronicle) :
    built.circuit.monitors.Follow
      (log ++ [.loaded (built.circuit.monitors.map Monitor.output)]) := by
  obtain ⟨hm, hk⟩ := And.intro h.meaningful h.known
  rw [h.circuit]
  generalize Description.ofStatements sts = D at hm hk
  have hrecent : ∀ m ∈ (D.circuit built.names).monitors, m.recent = [] := by
    intro m hmem
    obtain ⟨p, -, rfl⟩ := List.mem_map.1 hmem
    rfl
  refine ⟨?_, ?_, fun m hmem => ?_, ?_⟩
  · rw [Chronicle.watching_concat]
    rfl
  · rw [Description.circuit, List.map_map]
    refine (Description.nodup_eraseDups D.monitors).map_on fun p hp p' hp' heq => ?_
    obtain ⟨hdevice, hpin⟩ := Source.mk.injEq .. |>.mp heq
    exact hk.port_inj (hm.monitors p (List.mem_eraseDups.1 hp))
      (hm.monitors p' (List.mem_eraseDups.1 hp')) hdevice hpin
  · rw [Chronicle.since_concat, Monitor.history, hrecent m hmem]
    rfl
  · refine List.pairwise_of_forall_mem_list fun m _ m' hmem' => ?_
    rw [Monitor.history, hrecent m' hmem']
    exact Nat.zero_le _

namespace Circuit

theorem monitors_of_step {c c' : Circuit} {passes : Nat} (h : c.step = (.ok passes, c')) :
    Monitors.record c'.devices c.monitors = (none, c'.monitors) := by
  have hcycle : c.cycle.2.monitors = c.monitors := by
    unfold cycle
    split <;> rfl
  rw [step] at h
  rcases hc : c.cycle with ⟨f | passes₁, c₁⟩ <;> rw [hc] at h hcycle
  · cases h
  simp only [record] at h
  rcases hr : Monitors.record c₁.devices c₁.monitors with ⟨_ | f, ms⟩ <;> rw [hr] at h <;> cases h
  rw [← hcycle]
  exact hr

end Circuit

/-! ### Engines -/

namespace Engine

/-- What happens in cycles, up to the first that fails. -/
def chronicleOfCycles : Nat → Engine → Chronicle
  | 0, _ => []
  | n + 1, e =>
    match e.cycle with
    | (true, e) => (e.circuit.toList.map fun c => .sampled c.devices) ++ chronicleOfCycles n e
    | (false, _) => []

/-- The output that a signal stands for. -/
def outputOf (e : Engine) (signal : Text) : Option Source :=
  (e.circuit.bind (e.resolve · signal)).map fun p => ⟨p.1, p.2⟩

/-- What happens in a call. -/
def chronicleOf (e : Engine) : Call → Chronicle
  | .load d => loaded (e.load d).2
  | .loadFile path contents => loaded (e.loadFile path contents).2
  | .run n =>
    if e.circuit.isSome then .started :: chronicleOfCycles n { e.started with message := [] }
    else []
  | .resume n =>
    if e.circuit.isSome && e.hasRun then chronicleOfCycles n { e with message := [] } else []
  | .cycle => chronicleOfCycles 1 e
  | .coldStart | .setSwitch .. => []
  | .addMonitor signal =>
    if (e.addMonitor signal).1 then (e.outputOf signal).toList.map .watched else []
  | .removeMonitor signal =>
    if (e.removeMonitor signal).1 then (e.outputOf signal).toList.map .dropped else []
where
  loaded (e : Engine) : Chronicle :=
    e.circuit.toList.map fun c => .loaded (c.monitors.map Monitor.output)

/-- What happens in calls one after the other. -/
def chronicle (e : Engine) : List Call → Chronicle
  | [] => []
  | k :: calls => e.chronicleOf k ++ (e.call k).chronicle calls

/-- The monitors of the circuit, if there is one, are as a chronicle tells. -/
def Follows (e : Engine) (log : Chronicle) : Prop := ∀ c, e.circuit = some c → c.monitors.Follow log

variable {e e' : Engine} {log : Chronicle}

namespace Follows

theorem of_eq (h : e.Follows log) (hc : e'.circuit.map (·.monitors) = e.circuit.map (·.monitors)) :
    e'.Follows (log ++ []) := by
  intro c' hc'
  rw [hc', Option.map_some, eq_comm, Option.map_eq_some_iff] at hc
  obtain ⟨c, hc, heq⟩ := hc
  rw [List.append_nil, ← heq]
  exact h c hc

theorem cycles (h : e.Follows log) (hp : e.Proper) (n : Nat) :
    (cycles n e).Follows (log ++ chronicleOfCycles n e) := by
  induction n generalizing e log with
  | zero => exact h.of_eq rfl
  | succ n ih =>
    cases hc : e.circuit with
    | none =>
      have hcycle : e.cycle = (false, e.unloaded) := by rw [cycle, hc]
      rw [Engine.cycles, chronicleOfCycles, hcycle]
      exact h.of_eq rfl
    | some c =>
      rcases c.step_cases (hp c hc) with ⟨passes, c', hstep, hc'⟩ | ⟨f, hstep⟩
      · have hcycle : ∃ statistics, e.cycle = (true, { e with circuit := some c', statistics }) :=
          ⟨_, by rw [cycle, hc]; simp only [hstep]; rfl⟩
        obtain ⟨statistics, hcycle⟩ := hcycle
        rw [Engine.cycles, chronicleOfCycles, hcycle]
        dsimp only
        rw [← List.append_assoc]
        refine ih ?_ (Proper.with_circuit hc' rfl rfl)
        rintro _ ⟨⟩
        exact (h c hc).sampled (Circuit.monitors_of_step hstep)
      · have hcycle : ∃ message, e.cycle = (false, { e with circuit := some c }.fail message) :=
          ⟨_, by rw [cycle, hc]; simp only [hstep]; rfl⟩
        obtain ⟨message, hcycle⟩ := hcycle
        rw [Engine.cycles, chronicleOfCycles, hcycle]
        exact h.of_eq (by rw [hc]; rfl)

theorem started (h : e.Follows log) : e.started.Follows (log ++ [.started]) := by
  intro c' hc'
  obtain ⟨c, hc, rfl⟩ := Option.map_eq_some_iff.1 hc'
  exact (h c hc).started

theorem run (h : e.Follows log) (hp : e.Proper) (n : Nat) :
    (e.run n).Follows (log ++ e.chronicleOf (.run n)) := by
  cases hc : e.circuit with
  | none =>
    rw [Engine.run, chronicleOf, hc]
    exact h.of_eq rfl
  | some c =>
    have hsome := Option.isSome_of_eq_some hc
    have hstarted : Follows { e.started with message := [] } (log ++ [.started]) := h.started
    rw [run_eq hsome, chronicleOf, if_pos hsome, List.append_cons]
    exact hstarted.cycles hp.started.clear n

theorem resume (h : e.Follows log) (hp : e.Proper) (n : Nat) :
    (e.resume n).Follows (log ++ e.chronicleOf (.resume n)) := by
  have hclear : Follows { e with message := [] } log := h
  rw [Engine.resume, chronicleOf]
  cases hsome : e.circuit.isSome with
  | false =>
    rw [if_pos (by simpa using hsome), Bool.false_and, if_neg Bool.false_ne_true]
    exact h.of_eq rfl
  | true =>
    rw [if_neg (by simpa [Option.isSome_iff_ne_none] using hsome), Bool.true_and]
    split
    · exact hclear.cycles hp.clear n
    · exact h.of_eq rfl

theorem coldStart (h : e.Follows log) : e.coldStart.Follows (log ++ []) := by
  refine h.of_eq ?_
  rw [Engine.coldStart, Option.map_map]
  rfl

theorem setSwitch (h : e.Follows log) {name : Text} {value : Int} {result : Bool × Engine}
    (hr : e.Responds (.setSwitch name value) result) : result.2.Follows (log ++ []) := by
  cases hr with
  | unloaded | refused => exact h.of_eq rfl
  | @switched _ _ c _ a hc hset =>
    have hmonitors : (c.setSwitch a (value == 1)).2.monitors = c.monitors := by
      unfold Circuit.setSwitch
      split <;> rfl
    rw [hset] at hmonitors
    exact h.of_eq (by rw [hc, Option.map_some, Option.map_some, hmonitors])

theorem addMonitor (h : e.Follows log) {signal : Text} {result : Bool × Engine}
    (hr : e.Responds (.addMonitor signal) result) :
    result.2.Follows (log ++ if result.1 then (e.outputOf signal).toList.map .watched else []) := by
  cases hr with
  | unloaded | refused => exact h.of_eq rfl
  | @added _ c c' p hc hp hm =>
    have hinsert : Monitors.insert c.devices c.monitors p.1 p.2 = (.ok, c'.monitors) := by
      rw [Circuit.monitor] at hm
      obtain ⟨hstatus, rfl⟩ := Prod.mk.inj hm
      exact Prod.ext hstatus rfl
    rw [if_pos rfl, outputOf, hc, Option.bind_some, hp]
    rintro _ ⟨⟩
    exact (h c hc).watched hinsert

theorem removeMonitor (h : e.Follows log) {signal : Text} {result : Bool × Engine}
    (hr : e.Responds (.removeMonitor signal) result) :
    result.2.Follows (log ++ if result.1 then (e.outputOf signal).toList.map .dropped else []) := by
  cases hr with
  | unloaded | refused => exact h.of_eq rfl
  | @removed _ c c' p hc hp hm =>
    have herase : c.monitors.erase p.1 p.2 = (.ok, c'.monitors) := by
      rw [Circuit.unmonitor] at hm
      obtain ⟨hstatus, rfl⟩ := Prod.mk.inj hm
      exact Prod.ext hstatus rfl
    rw [if_pos rfl, outputOf, hc, Option.bind_some, hp]
    rintro _ ⟨⟩
    exact (h c hc).dropped herase

end Follows

theorem exists_accepts_of_load {d : Definition} {c : Circuit} (hc : (e.load d).2.circuit = some c) :
    ∃ ds sts, d.Accepts e.names ⟨d.names e.names, c, ds⟩ sts := by
  obtain ⟨draft, ds, -, hbuild⟩ := d.build_eq e.names
  unfold load at hc
  simp only [hbuild] at hc
  split at hc
  · next hs =>
    cases hc
    exact ⟨ds, Definition.exists_accepts hbuild hs⟩
  · cases hc

/-- The chronicle of a load alone settles what the monitors are. -/
theorem follows_load (e : Engine) (d : Definition) (log : Chronicle) :
    (e.load d).2.Follows (log ++ chronicleOf.loaded (e.load d).2) := by
  intro c hc
  obtain ⟨ds, sts, h⟩ := exists_accepts_of_load hc
  rw [chronicleOf.loaded, hc]
  exact h.follow log

theorem Follows.call (h : e.Follows log) (hp : e.Proper) (k : Call) :
    (e.call k).Follows (log ++ e.chronicleOf k) := by
  cases k with
  | load d => exact e.follows_load d log
  | loadFile path contents =>
    cases contents with
    | none =>
      intro c hc
      cases hc
    | some text => exact e.follows_load _ log
  | run n => exact h.run hp n
  | resume n => exact h.resume hp n
  | cycle =>
    have hcircuit : (Engine.cycles 1 e).circuit = e.cycle.2.circuit := by
      rw [Engine.cycles]
      rcases e.cycle with ⟨_ | _, e'⟩ <;> rfl
    exact fun c hc => h.cycles hp 1 c (hcircuit.trans hc)
  | coldStart => exact h.coldStart
  | setSwitch name value => exact h.setSwitch (e.responds_setSwitch name value)
  | addMonitor signal => exact h.addMonitor (e.responds_addMonitor signal)
  | removeMonitor signal => exact h.removeMonitor (e.responds_removeMonitor signal)

/-- Whatever has been done with an engine, the monitors are as the chronicle tells. -/
theorem follows_chronicle (calls : List Call) :
    (calls.foldl call {}).Follows (chronicle {} calls) := by
  have hcalls : ∀ (e : Engine) (log : Chronicle), e.Proper → e.Follows log →
      (calls.foldl call e).Follows (log ++ e.chronicle calls) := by
    induction calls with
    | nil => exact fun _ _ _ h => h.of_eq rfl
    | cons k calls ih =>
      intro e log hp h
      rw [List.foldl_cons, chronicle, ← List.append_assoc]
      exact ih _ _ (hp.call k) (h.call hp k)
  refine hcalls {} [] (fun c hc => ?_) fun c hc => ?_ <;> cases hc

end Engine

end GateSim
