import GateSim.Proofs.Lines
import GateSim.Proofs.Samples

/-!
# Traces

All traces are as long as the longest history and end on the same cycle, so their columns are cycles
(`Monitors.Follow.align`). They are printed one below the other, one character for each cycle, and
can be read back (`Monitors.prints`). So it is in every engine, whatever was done with it
(`Engine.traces_align`).
-/

namespace GateSim

/-! ### The longest history -/

section
variable {α : Type} (f : α → Nat) (l : List α) (n : Nat)

theorem le_foldl_max : n ≤ l.foldl (fun n a => max n (f a)) n ∧
    ∀ a ∈ l, f a ≤ l.foldl (fun n a => max n (f a)) n := by
  induction l generalizing n with
  | nil => simp
  | cons a l ih =>
    obtain ⟨hn, hl⟩ := ih (max n (f a))
    rw [List.foldl_cons]
    exact ⟨by omega, List.forall_mem_cons.2 ⟨by omega, hl⟩⟩

theorem foldl_max_mem : l.foldl (fun n a => max n (f a)) n = n ∨
    ∃ a ∈ l, f a = l.foldl (fun n a => max n (f a)) n := by
  induction l generalizing n with
  | nil => exact Or.inl rfl
  | cons a l ih =>
    rw [List.foldl_cons]
    rcases ih (max n (f a)) with h | ⟨b, hb, h⟩
    · rcases Nat.le_total (f a) n with hle | hle
      · exact Or.inl (h.trans (Nat.max_eq_left hle))
      · exact Or.inr ⟨a, List.mem_cons_self .., (h.trans (Nat.max_eq_right hle)).symm⟩
    · exact Or.inr ⟨b, List.mem_cons_of_mem _ hb, h⟩

end

namespace Monitors
variable {log : Chronicle} {ms : Monitors}

theorem length_history_le {m : Monitor} (hm : m ∈ ms) : m.history.length ≤ ms.maxHistory := by
  rw [Monitor.history, List.length_reverse]
  exact (le_foldl_max (·.recent.length) ms 0).2 m hm

theorem exists_length_history (h : ms ≠ []) : ∃ m ∈ ms, m.history.length = ms.maxHistory := by
  simp only [Monitor.history, List.length_reverse]
  rcases foldl_max_mem (·.recent.length) ms 0 with hzero | hex
  · obtain ⟨m, rest, rfl⟩ := List.exists_cons_of_ne_nil h
    have hle := (le_foldl_max (·.recent.length) (m :: rest) 0).2 m (List.mem_cons_self ..)
    rw [hzero] at hle
    exact ⟨m, List.mem_cons_self .., (Nat.le_zero.1 hle).trans hzero.symm⟩
  · exact hex

theorem trace_eq {m : Monitor} (n : Nat) :
    m.trace n = List.replicate (n - m.history.length) none ++ m.history.map some := by
  rw [Monitor.trace, Monitor.history, List.length_reverse]

/-- The traces have the columns of a table, one for each cycle: they are as long as the longest
history, and each is made up of blanks and of what its output was from some cycle on, which is its
history. -/
structure Align (ms : Monitors) (columns : List Registry) : Prop where
  length : columns.length = ms.maxHistory
  longest : ∀ m ∈ ms, m.history.length ≤ ms.maxHistory
  exists_longest : ms ≠ [] → ∃ m ∈ ms, m.history.length = ms.maxHistory
  traces : List.Forall₂ (fun m t => t.length = ms.maxHistory ∧ ∃ k,
    t = List.replicate k none ++ m.history.map some ∧
    m.history.map some = (columns.drop k).map (·.output? m.device m.pin)) ms ms.traces

/-- The columns of the traces are the last cycles. -/
theorem Follow.align (h : Follow log ms) :
    ∃ columns, columns <:+ log.snapshots ∧ ms.Align columns := by
  have hsuffix : ∀ p, (log.since p).snapshots <:+ log.snapshots := fun p =>
    (List.rtakeWhile_suffix _ _).filterMap _
  have hlength : ∀ m ∈ ms, (log.since m.output).snapshots.length = m.history.length := by
    intro m hm
    simpa using (congrArg List.length (h.histories m hm)).symm
  obtain ⟨columns, hcolumns, hmax⟩ : ∃ columns, columns <:+ log.snapshots ∧
      columns.length = ms.maxHistory := by
    by_cases hms : ms = []
    · exact ⟨[], List.nil_suffix, by rw [hms]; rfl⟩
    · obtain ⟨m, hm, heq⟩ := exists_length_history hms
      exact ⟨_, hsuffix m.output, (hlength m hm).trans heq⟩
  refine ⟨columns, hcolumns, hmax, fun m hm => length_history_le hm, exists_length_history, ?_⟩
  rw [Monitors.traces, List.forall₂_map_right_iff, List.forall₂_same]
  intro m hm
  have hle := length_history_le hm
  rw [trace_eq]
  refine ⟨?_, ms.maxHistory - m.history.length, rfl, ?_⟩
  · rw [List.length_append, List.length_replicate, List.length_map]
    omega
  · -- what has been sampled is the end of the table
    have hend : (log.since m.output).snapshots <:+ columns :=
      List.suffix_of_suffix_length_le (hsuffix _) hcolumns (by rw [hlength m hm, hmax]; exact hle)
    have hdrop := List.suffix_iff_eq_drop.1 hend
    rw [hmax, hlength m hm] at hdrop
    rw [← hdrop]
    exact h.histories m hm

end Monitors

/-! ### Printed traces -/

namespace Trace

/-- What a printed trace stands for. -/
def read (t : Text) : Trace :=
  t.map fun b => if b = '-'.toUInt8 then some true else if b = '_'.toUInt8 then some false else none

theorem read_render (t : Trace) : read t.render = t := by
  rw [read, render, List.map_map]
  refine (List.map_congr_left fun v _ => ?_).trans (List.map_id t)
  rcases v with _ | _ | _ <;> rfl

theorem newline_notMem_render (t : Trace) : Byte.newline ∉ t.render := by
  rw [render, List.mem_map]
  rintro ⟨_ | _ | _, -, heq⟩ <;> exact absurd heq (by decide)

end Trace

namespace Monitors

/-- A line for each monitor, which starts with its name. All traces start at the same byte, and each
can be read back, byte by byte. -/
def Prints (names : NameTable) (ms : Monitors) : Prop :=
  ∃ offset rows, (ms.render names).lines = rows ++ [[]] ∧
    List.Forall₂ (fun m row => m.name names <+: row ∧ (m.name names).length < offset ∧
      row.drop offset = (m.trace ms.maxHistory).render ∧
      Trace.read (row.drop offset) = m.trace ms.maxHistory) ms rows

/-- The width of the column of names. -/
def nameWidth (names : NameTable) (ms : Monitors) : Nat :=
  (ms.names names).foldl (fun n t => max n t.length) 0

def heading (names : NameTable) (ms : Monitors) (m : Monitor) : Text :=
  m.name names ++ List.replicate (ms.nameWidth names - (m.name names).length) Byte.space ++
    Text.ofString " : "

theorem render_eq (names : NameTable) (ms : Monitors) : ms.render names =
    ms.flatMap fun m =>
      ms.heading names m ++ (m.trace ms.maxHistory).render ++ [Byte.newline] := by
  rw [render, Monitors.names, traces, List.zip_map', List.flatMap_map]
  rfl

theorem length_heading (names : NameTable) {ms : Monitors} {m : Monitor} (hm : m ∈ ms) :
    (ms.heading names m).length = ms.nameWidth names + 3 := by
  have hle : (m.name names).length ≤ ms.nameWidth names :=
    (le_foldl_max List.length (ms.names names) 0).2 _ (List.mem_map_of_mem hm)
  have hcolon : (Text.ofString " : ").length = 3 := rfl
  rw [heading, List.length_append, List.length_append, List.length_replicate, hcolon]
  omega

theorem prints {names : NameTable} {ms : Monitors}
    (h : ∀ m ∈ ms, Byte.newline ∉ m.name names) : ms.Prints names := by
  have hrow : ∀ m ∈ ms, Byte.newline ∉ ms.heading names m ++ (m.trace ms.maxHistory).render := by
    intro m hm hmem
    rcases List.mem_append.1 hmem with hmem | hmem
    · rcases List.mem_append.1 hmem with hmem | hmem
      · rcases List.mem_append.1 hmem with hmem | hmem
        · exact h m hm hmem
        · exact absurd (List.eq_of_mem_replicate hmem) (by decide)
      · exact absurd hmem (by decide)
    · exact Trace.newline_notMem_render _ hmem
  refine ⟨ms.nameWidth names + 3, _, by rw [render_eq, Text.lines_flatMap hrow], ?_⟩
  rw [List.forall₂_map_right_iff, List.forall₂_same]
  intro m hm
  have hlength := length_heading names hm
  have hdrop : (ms.heading names m ++ (m.trace ms.maxHistory).render).drop
      (ms.nameWidth names + 3) = (m.trace ms.maxHistory).render := by
    rw [← hlength, List.drop_left]
  refine ⟨?_, ?_, hdrop, by rw [hdrop, Trace.read_render]⟩
  · rw [heading, List.append_assoc, List.append_assoc]
    exact List.prefix_append ..
  · have hle : (m.name names).length ≤ ms.nameWidth names :=
      (le_foldl_max List.length (ms.names names) 0).2 _ (List.mem_map_of_mem hm)
    omega

end Monitors

/-! ### Engines -/

namespace Engine
variable {e : Engine}

/-- The devices have names as the scanner reads them. -/
def Named (e : Engine) : Prop := ∀ c, e.circuit = some c →
  ∀ a ∈ c.devices.ids, (e.names.nameOf a).isName = true

theorem named_load (e : Engine) (d : Definition) : (e.load d).2.Named := by
  intro c hc
  obtain ⟨ds, sts, h⟩ := exists_accepts_of_load hc
  rw [names_load]
  exact fun a ha => h.isName_nameOf ha

theorem Named.call (h : e.Named) (hp : e.Proper) (k : Call) : (e.call k).Named := by
  by_cases hk : k.isLoad = false
  · intro c' hc'
    have hkeeps := keeps_call hp hk
    obtain ⟨c, hc⟩ := Option.isSome_iff_exists.1 (hkeeps.isSome.symm.trans (by rw [hc']; rfl))
    have hids := Registry.ids_eq_of_wiring_eq (hkeeps.eq hc hc')
    rw [hkeeps.names, hids]
    exact h c hc
  · cases k with
    | load d => exact named_load e d
    | loadFile path contents =>
      cases contents with
      | none =>
        intro c hc
        cases hc
      | some text => exact named_load e _
    | _ => exact absurd rfl hk

theorem named_calls (calls : List Call) : (calls.foldl call {}).Named := by
  have hcalls : ∀ e : Engine, e.Proper → e.Named → (calls.foldl Engine.call e).Named := by
    induction calls with
    | nil => exact fun _ _ h => h
    | cons k calls ih => exact fun e hp h => ih _ (hp.call k) (h.call hp k)
  refine hcalls {} (fun c hc => ?_) fun c hc => ?_ <;> cases hc

theorem Named.newline_notMem (h : e.Named) (hp : e.Proper) {c : Circuit} (hc : e.circuit = some c)
    {m : Monitor} (hm : m ∈ c.monitors) : Byte.newline ∉ m.name e.names := by
  have hintact := (hp c hc).intact
  obtain ⟨d, hd, hid, hpin⟩ := hintact.monitors m hm
  have hname : Byte.newline ∉ e.names.nameOf m.device := fun hmem =>
    absurd (Text.isNameByte_of_isName (h c hc m.device (hid ▸ List.mem_map_of_mem hd)) _ hmem)
      (by decide)
  rw [Monitor.name]
  cases hp : m.pin with
  | none => exact hname
  | some pin =>
    obtain ⟨t, ht, rfl⟩ := (hintact.exists_word hd).2 pin (hp ▸ hpin)
    have hword : ∀ t ∈ PinWord.outputs, Byte.newline ∉ Text.ofString "." ++ t := by decide
    have hknown := hintact.knowsPins t (List.mem_append_right _ ht)
    rw [NameTable.label, NameTable.nameOf_idOf hknown, List.append_assoc, List.mem_append]
    exact fun hmem => hmem.elim hname (hword t ht)

/-- In every engine with a circuit, whatever was done with it, the monitors are those of its
chronicle, each with the values of its output after the cycles since it was set or since the last
run started. The columns of their traces are the last cycles, and are printed as such. -/
theorem traces_align (calls : List Call) {c : Circuit}
    (hc : (calls.foldl call {}).circuit = some c) :
    c.monitors.Follow (chronicle {} calls) ∧
      (∃ columns, columns <:+ (chronicle {} calls).snapshots ∧ c.monitors.Align columns) ∧
      c.monitors.Prints (calls.foldl call {}).names := by
  have hfollow := follows_chronicle calls c hc
  have hproper : (calls.foldl call {}).Proper := Reachable.proper ⟨calls, rfl⟩
  exact ⟨hfollow, hfollow.align, Monitors.prints fun _ hm =>
    (named_calls calls).newline_notMem hproper hc hm⟩

/-- A monitor is set late, and another one is removed after a cycle that fails, and set again. -/
theorem traces_align_lateMonitors :
    let ring := Text.ofString "DEVICES: SWITCH S 0, CLOCK C1 2, NAND G 3;" ++
      .ofString "CONNECT: S > G.I1, C1 > G.I2, G > G.I3; MONITOR: G, C1; END;"
    let s := Text.ofString "S"
    let g := Text.ofString "G"
    let calls := [Call.load { text := ring }, .run 2, .addMonitor s, .cycle, .setSwitch s 1,
      .resume 3, .removeMonitor g, .setSwitch s 0, .addMonitor g, .cycle]
    ∃ c, (calls.foldl call {}).circuit = some c ∧
      c.monitors.render (calls.foldl call {}).names =
        .ofString "C1 : _--__-\nS  :   _--_\nG  :      -\n" ∧
      c.monitors.Follow (chronicle {} calls) ∧
      (∃ columns, columns <:+ (chronicle {} calls).snapshots ∧ c.monitors.Align columns) ∧
      c.monitors.Prints (calls.foldl call {}).names := by
  intro ring s g calls
  have heval : (calls.foldl call {}).circuit.map (·.monitors.render (calls.foldl call {}).names) =
      some (.ofString "C1 : _--__-\nS  :   _--_\nG  :      -\n") := by decide +kernel
  obtain ⟨c, hc, hrender⟩ := Option.map_eq_some_iff.1 heval
  exact ⟨c, hc, hrender, traces_align calls hc⟩

end Engine

end GateSim
