import Mathlib.Data.List.Induction
import GateSim.Proofs.InStep
import GateSim.Proofs.Rebuild

/-!
# Engines that are used again

An engine that has been used before is, after a load, like a new one after the same load
(`Engine.reuse`). The name table of the used engine knows more names; these stand for none of the
devices, and pins have the same ids in all tables, so the two circuits are twins. That a name is known
shows in one place only: when a monitor is refused since the signal is no output, the message says so
in one of two ways.
-/

namespace GateSim

namespace Engine

/-- What a call returns: whether it succeeded, or the state that it ends in. -/
inductive Answer
  | success (b : Bool)
  | state (s : EngineState)
  | nothing
  deriving DecidableEq

def answer (e : Engine) : Call → Answer
  | .load d => .success (e.load d).1
  | .loadFile path contents => .success (e.loadFile path contents).1
  | .run n => .state (e.run n).state
  | .resume n => .state (e.resume n).state
  | .cycle => .success e.cycle.1
  | .coldStart => .nothing
  | .setSwitch name value => .success (e.setSwitch name value).1
  | .addMonitor signal => .success (e.addMonitor signal).1
  | .removeMonitor signal => .success (e.removeMonitor signal).1

/-- What calls return that are made one after the other. -/
def answers (e : Engine) : List Call → List Answer
  | [] => []
  | k :: ks => e.answer k :: (e.call k).answers ks

/-- All that an engine shows but its message. -/
structure Alike (e e' : Engine) : Prop where
  state : e'.state = e.state
  statistics : e'.statistics = e.statistics
  hasRun : e'.hasRun = e.hasRun
  diagnostics : e'.diagnostics = e.diagnostics
  outputNames : e'.outputNames = e.outputNames
  switchNames : e'.switchNames = e.switchNames
  monitoredNames : e'.monitoredNames = e.monitoredNames
  signals : e'.signals = e.signals
  histories : e'.histories = e.histories
  output : ∀ signal, e'.output? signal = e.output? signal
  setting : ∀ name, e'.setting? name = e.setting? name
  isMonitored : ∀ signal, e'.isMonitored signal = e.isMonitored signal
  view : ∀ name, e'.view name = e.view name

/-- The message after the calls is the one that was left when a monitor on the signal, which is no
output, could not be set. -/
structure Refused (e : Engine) (before : List Call) (signal : Text) (after : List Call) : Prop where
  failed : ((before.foldl call e).addMonitor signal).1 = false
  left : ((before ++ .addMonitor signal :: after).foldl call e).message =
    ((before.foldl call e).addMonitor signal).2.message
  words : ((before ++ .addMonitor signal :: after).foldl call e).message ∈ refusals signal

/-- After the calls the messages are the same, or each engine has left its own on the same signal. -/
def MessagesAgree (e e' : Engine) (calls : List Call) : Prop :=
  (calls.foldl call e').message = (calls.foldl call e).message ∨
    ∃ before signal after, calls = before ++ .addMonitor signal :: after ∧
      e.Refused before signal after ∧ e'.Refused before signal after

/-- Engines with twins of circuits that agree in all else but their messages. -/
structure Same (e e' : Engine) : Prop where
  twin : e.Twin e'
  state : e'.state = e.state
  statistics : e'.statistics = e.statistics
  hasRun : e'.hasRun = e.hasRun
  diagnostics : e'.diagnostics = e.diagnostics

namespace Same
variable {e e' : Engine} (h : e.Same e')
include h

theorem alike : e.Alike e' where
  state := h.state
  statistics := h.statistics
  hasRun := h.hasRun
  diagnostics := h.diagnostics
  outputNames := h.twin.outputNames
  switchNames := h.twin.switchNames
  monitoredNames := h.twin.monitoredNames
  signals := h.twin.signals
  histories := h.twin.histories
  output := h.twin.output?
  setting := h.twin.setting?
  isMonitored := h.twin.isMonitored
  view := h.twin.view

theorem of_inStep {r r' : Engine} (hs : InStep e e' r r') : r.Same r' :=
  ⟨hs.twin, hs.state h.state, hs.statistics h.statistics, hs.hasRun h.hasRun,
    hs.diagnostics h.diagnostics⟩

end Same

/-- Whatever they were used for, two engines do the same in a load. -/
theorem Regular.load_same {e e' : Engine} (h : e.Regular) (h' : e'.Regular) (d : Definition) :
    (e'.load d).1 = (e.load d).1 ∧ (e.load d).2.Same (e'.load d).2 ∧
      (e'.load d).2.message = (e.load d).2.message := by
  obtain ⟨c, c', ds, hbuild, hbuild', htwin⟩ := d.build_twin (NameTable.standard_names d h.names)
    (NameTable.standard_names d h'.names)
  have hr := h.load d
  have hr' := h'.load d
  cases herrors : ds.hasErrors with
  | false =>
    simp only [Engine.load, hbuild, hbuild', Built.success, herrors, Bool.not_false, if_true,
      true_and, and_true] at hr hr' ⊢
    exact ⟨⟨hr, hr', .some htwin⟩, rfl, rfl, rfl, rfl⟩
  | true =>
    simp only [Engine.load, hbuild, hbuild', Built.success, herrors, Bool.not_true,
      Bool.false_eq_true, if_false, fail, true_and, and_true] at hr hr' ⊢
    exact ⟨⟨hr, hr', .none⟩, rfl, rfl, rfl, rfl⟩

namespace Same
variable {e e' : Engine} (h : e.Same e')
include h

/-- A call has the same outcome. The messages are new and the same, or old, or those of a monitor that
is refused. -/
theorem call (k : Call) : e'.answer k = e.answer k ∧ (e.call k).Same (e'.call k) ∧
    ((e'.call k).message = (e.call k).message ∨
      ((e.call k).message = e.message ∧ (e'.call k).message = e'.message) ∨
      ∃ signal, k = .addMonitor signal ∧ ∀ f ∈ [e, e'], (f.addMonitor signal).1 = false ∧
        (f.addMonitor signal).2.message ∈ refusals signal) := by
  have hstep : ∀ {r r' : Engine}, InStep e e' r r' → r.Same r' ∧ (r'.message = r.message ∨
      (r.message = e.message ∧ r'.message = e'.message) ∨
      ∃ signal, k = .addMonitor signal ∧ ∀ f ∈ [e, e'], (f.addMonitor signal).1 = false ∧
        (f.addMonitor signal).2.message ∈ refusals signal) := fun hs =>
    ⟨h.of_inStep hs, hs.message.imp_right Or.inl⟩
  cases k with
  | load d =>
    obtain ⟨hsame, hload, hm⟩ := h.twin.regular.load_same h.twin.regular' d
    exact ⟨congrArg Answer.success hsame, hload, Or.inl hm⟩
  | loadFile path contents =>
    cases contents with
    | none =>
      have hregular : ∀ {e : Engine}, e.Regular → (e.loadFile path none).2.Regular := fun h =>
        h.call (.loadFile path none)
      exact ⟨rfl, ⟨⟨hregular h.twin.regular, hregular h.twin.regular', .none⟩, rfl, h.statistics,
        h.hasRun, rfl⟩, Or.inl rfl⟩
    | some text =>
      obtain ⟨hsame, hload, hm⟩ := h.twin.regular.load_same h.twin.regular' { text, file := path }
      exact ⟨congrArg Answer.success hsame, hload, Or.inl hm⟩
  | run n =>
    have hrun := h.twin.run n
    exact ⟨congrArg Answer.state (hrun.state h.state), hstep hrun⟩
  | resume n =>
    have hresume := h.twin.resume h.hasRun n
    exact ⟨congrArg Answer.state (hresume.state h.state), hstep hresume⟩
  | cycle =>
    obtain ⟨hsame, hcycle, -⟩ := h.twin.cycle
    exact ⟨congrArg Answer.success hsame, hstep hcycle⟩
  | coldStart => exact ⟨rfl, hstep h.twin.coldStart⟩
  | setSwitch name value =>
    obtain ⟨hsame, hset⟩ := h.twin.setSwitch name value
    exact ⟨congrArg Answer.success hsame, hstep hset⟩
  | addMonitor signal =>
    rcases h.twin.addMonitor signal with ⟨hsame, hadd⟩ | ⟨m, hm, m', hm', heq, heq'⟩
    · exact ⟨congrArg Answer.success hsame, hstep hadd⟩
    have hrefused : ∀ f ∈ [e, e'], (f.addMonitor signal).1 = false ∧
        (f.addMonitor signal).2.message ∈ refusals signal := by
      simp only [List.forall_mem_cons, heq, heq', List.not_mem_nil, false_imp_iff, implies_true,
        and_true]
      exact ⟨⟨trivial, hm⟩, trivial, hm'⟩
    have hsame : (e.refuse m).Same (e'.refuse m') :=
      ⟨h.twin.of_eq rfl rfl rfl rfl, h.state, h.statistics, h.hasRun, h.diagnostics⟩
    simp only [answer, Engine.call, heq, heq', true_and]
    exact ⟨hsame, Or.inr (Or.inr ⟨signal, rfl, by simpa only [heq, heq'] using hrefused⟩)⟩
  | removeMonitor signal =>
    obtain ⟨hsame, hremove⟩ := h.twin.removeMonitor signal
    exact ⟨congrArg Answer.success hsame, hstep hremove⟩

end Same

theorem answers_concat (e : Engine) (calls : List Call) (k : Call) :
    e.answers (calls ++ [k]) = e.answers calls ++ [(calls.foldl call e).answer k] := by
  induction calls generalizing e with
  | nil => rfl
  | cons k' calls ih => exact congrArg _ (ih (e.call k'))

/-- Calls have the same outcomes in both. -/
theorem Same.calls {e e' : Engine} (h : e.Same e') (hm : e'.message = e.message)
    (calls : List Call) : e'.answers calls = e.answers calls ∧
      (calls.foldl Engine.call e).Same (calls.foldl Engine.call e') ∧
      MessagesAgree e e' calls := by
  induction calls using List.reverseRecOn with
  | nil => exact ⟨rfl, h, Or.inl hm⟩
  | append_singleton calls k ih =>
    obtain ⟨hanswers, hsame, hmessages⟩ := ih
    obtain ⟨hanswer, hnext, hmessage⟩ := hsame.call k
    have hfoldl : ∀ f : Engine,
        (calls ++ [k]).foldl Engine.call f = (calls.foldl Engine.call f).call k :=
      fun f => List.foldl_concat ..
    refine ⟨by rw [answers_concat, answers_concat, hanswers, hanswer], by rwa [hfoldl, hfoldl], ?_⟩
    unfold MessagesAgree
    rw [hfoldl, hfoldl]
    -- the message of an earlier call stays, or the last call leaves one
    rcases hmessage with hnew | ⟨hold, hold'⟩ | ⟨signal, rfl, hrefused⟩
    · exact Or.inl hnew
    · rcases hmessages with heq | ⟨before, signal, after, rfl, hf⟩
      · exact Or.inl (hold'.trans (heq.trans hold.symm))
      · have hstays : ∀ {f : Engine}, f.Refused before signal after →
            (((before ++ .addMonitor signal :: after).foldl Engine.call f).call k).message =
              ((before ++ .addMonitor signal :: after).foldl Engine.call f).message →
            f.Refused before signal (after ++ [k]) := by
          intro f hf heq
          rw [← hfoldl, List.append_assoc, List.cons_append] at heq
          exact ⟨hf.failed, heq.trans hf.left, heq ▸ hf.words⟩
        exact Or.inr ⟨before, signal, after ++ [k], by simp, hstays hf.1 hold, hstays hf.2 hold'⟩
    · have hleft : ∀ {f : Engine}, ((calls.foldl Engine.call f).addMonitor signal).1 = false →
          ((calls.foldl Engine.call f).addMonitor signal).2.message ∈ refusals signal →
          f.Refused calls signal [] := fun hfailed hwords =>
        ⟨hfailed, by rw [List.foldl_concat]; rfl, by rw [List.foldl_concat]; exact hwords⟩
      obtain ⟨hf, hf', -⟩ := by simpa only [List.forall_mem_cons] using hrefused
      exact Or.inr ⟨calls, signal, [], rfl, hleft hf.1 hf.2, hleft hf'.1 hf'.2⟩

/-- After a load an engine that has been used is like a new one: the load has the same outcome, every
further call returns the same, and all that the engines show stays the same, but for the words in which
a monitor on a signal that is no output is refused. -/
theorem reuse {e : Engine} (h : e.Reachable) (d : Definition) (calls : List Call) :
    let used := (e.load d).2
    let new := (load {} d).2
    (load {} d).1 = (e.load d).1 ∧ new.message = used.message ∧ used.Alike new ∧
      new.answers calls = used.answers calls ∧
      (calls.foldl call used).Alike (calls.foldl call new) ∧ MessagesAgree used new calls := by
  intro used new
  have hnew : Regular {} := Reachable.regular ⟨[], rfl⟩
  obtain ⟨hload, hsame, hm⟩ := h.regular.load_same hnew d
  obtain ⟨hanswers, hcalls, hmessages⟩ := hsame.calls hm calls
  exact ⟨hload, hm, hsame.alike, hanswers, hcalls.alike, hmessages⟩

/-- A single switch. -/
def oneSwitch : Text := .ofString "DEVICES: SWITCH S 0; CONNECT: ; MONITOR: S; END;"

/-- To an engine that has seen the name `G` the signal `S.G` is not an output; to a new one it is not
known. -/
theorem reuse_oneSwitch :
    let e := [Call.load { text := clockedRing }, .run 3].foldl call {}
    let used := (e.load { text := oneSwitch }).2
    let new := (load {} { text := oneSwitch }).2
    let calls := [Call.run 1, .addMonitor (.ofString "S.G")]
    e.state = .error ∧ new.answers calls = used.answers calls ∧
      (calls.foldl call used).Alike (calls.foldl call new) ∧ MessagesAgree used new calls ∧
      (calls.foldl call used).message = .ofString "S.G is not an output" ∧
      (calls.foldl call new).message = .ofString "Unknown signal: S.G" := by
  intro e used new calls
  have hr : e.Reachable := ⟨_, rfl⟩
  obtain ⟨-, -, -, hanswers, halike, hmessages⟩ := reuse hr { text := oneSwitch } calls
  have heval : e.state = .error ∧
      (calls.foldl call used).message = .ofString "S.G is not an output" ∧
      (calls.foldl call new).message = .ofString "Unknown signal: S.G" := by decide +kernel
  exact ⟨heval.1, hanswers, halike, hmessages, heval.2⟩

end Engine

end GateSim
