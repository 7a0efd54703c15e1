import GateSim.Proofs.Calls
import GateSim.Proofs.Dialogue
import GateSim.Proofs.Parameter

/-!
# Commands

What a line asks for, and the reply to it. A command calls the engine once at most, and not to load a
circuit (`Console.CallsOnce`), so names stay through a session. A command that simulates is given a
number of cycles, which is read as the decimal numeral that it is and nothing else
(`Console.readCycles_eq_ok_iff`). A line that gives no such number is answered in one line
(`Console.IsErrorLine`).
-/

namespace GateSim

namespace Console
variable {e : Engine} {line : Text} {args : List Text} {n : Nat}

/-- A single line that begins with `Error!`. -/
def IsErrorLine (output : Text) : Prop :=
  ∃ rest, output = Text.ofString "Error!" ++ rest ++ [Byte.newline] ∧ Byte.newline ∉ rest

theorem isErrorLine_errorLine {m : Text} (h : Byte.newline ∉ m) : IsErrorLine (errorLine m) := by
  have hstart : Text.ofString "Error! " = Text.ofString "Error!" ++ Text.ofString " " := rfl
  refine ⟨Text.ofString " " ++ m, ?_, ?_⟩
  · rw [errorLine, hstart, List.append_assoc (Text.ofString "Error!")]
    rfl
  · rw [List.mem_append, not_or]
    exact ⟨by decide, h⟩

theorem reply_of_words {name : Text} (h : line.words = name :: args) (hq : name ≠ .ofString "q") :
    reply e line = some (command e name args) := by
  simp only [reply, h, if_neg hq]

/-! ### Values of switches -/

/-- What a switch command says if it does not set the switch. -/
def complaint (v : Int) (e : Engine) : Text :=
  errorLine (if v = noValue then .ofString "Expected 0 or 1" else e.message)

theorem switchCommand_of_read {name : Text} {arg : Option Text} {v : Int}
    (h : (arg.map scanValue).getD ⟨noValue, false⟩ = ⟨v, true⟩) :
    switchCommand e name arg = ((e.setSwitch name v).2, if (e.setSwitch name v).1 then
      .ofString "Successfully set switch " ++ name ++ .ofString "\n"
      else complaint v (e.setSwitch name v).2) := by
  rw [switchCommand, h, complaint]
  rcases e.setSwitch name v with ⟨_ | _, e'⟩
  · by_cases hv : v = noValue <;> simp [hv]
  · rfl

theorem switchCommand_of_not_read {name : Text} {arg : Option Text} {v : Int}
    (h : (arg.map scanValue).getD ⟨noValue, false⟩ = ⟨v, false⟩) :
    switchCommand e name arg = (e, complaint v e) := by
  rw [switchCommand, h, complaint]
  by_cases hv : v = noValue <;> simp [hv]

/-! ### Calls -/

/-- The engine is left alone, or it is called once, and not for a load. -/
def CallsOnce (e e' : Engine) : Prop := e' = e ∨ ∃ k : Engine.Call, k.isLoad = false ∧ e' = e.call k

theorem callsOnce_runCommand {verb : Text} {go : Engine → Nat → Engine} {k : Nat → Engine.Call}
    (hgo : ∀ n, go e n = e.call (k n)) (hk : ∀ n, (k n).isLoad = false) (arg : Option Text) :
    CallsOnce e (runCommand verb go e arg).1 := by
  rw [runCommand]
  split
  · exact Or.inl rfl
  · next n _ => exact Or.inr ⟨k n, hk n, hgo n⟩

theorem callsOnce_switchCommand (name : Text) (arg : Option Text) :
    CallsOnce e (switchCommand e name arg).1 := by
  rcases hscanned : (arg.map scanValue).getD ⟨noValue, false⟩ with ⟨v, _ | _⟩
  · rw [switchCommand_of_not_read hscanned]
    exact Or.inl rfl
  · rw [switchCommand_of_read hscanned]
    exact Or.inr ⟨.setSwitch name v, rfl, rfl⟩

theorem callsOnce_signalCommand {done signal : Text} {go : Engine → Text → Bool × Engine}
    {k : Engine.Call} (hgo : (go e signal).2 = e.call k) (hk : k.isLoad = false) :
    CallsOnce e (signalCommand done go e signal).1 := by
  refine Or.inr ⟨k, hk, ?_⟩
  rw [← hgo, signalCommand]
  rcases go e signal with ⟨_ | _, e'⟩ <;> rfl

theorem callsOnce_withSignal {go : Text → Engine × Text} (hgo : ∀ t, CallsOnce e (go t).1)
    (arg : Option Text) : CallsOnce e (withSignal e arg go).1 := by
  cases arg with
  | none => exact Or.inl rfl
  | some t => exact hgo t

theorem callsOnce_command (e : Engine) (name : Text) (args : List Text) :
    CallsOnce e (command e name args).1 := by
  unfold command
  split
  · exact Or.inl rfl
  split
  · exact callsOnce_runCommand (k := .run) (fun _ => rfl) (fun _ => rfl) _
  split
  · exact callsOnce_runCommand (k := .resume) (fun _ => rfl) (fun _ => rfl) _
  split
  · exact callsOnce_withSignal (fun _ => callsOnce_switchCommand _ _) _
  split
  · exact callsOnce_withSignal (fun t => callsOnce_signalCommand (k := .addMonitor t) rfl rfl) _
  split
  · exact callsOnce_withSignal (fun t => callsOnce_signalCommand (k := .removeMonitor t) rfl rfl) _
  · exact Or.inl rfl

theorem callsOnce_answer (s : Engine × Text) (line : Text) : CallsOnce s.1 (answer s line).1 := by
  unfold answer
  split
  · exact Or.inl rfl
  · next e output hreply =>
    rw [reply] at hreply
    split at hreply
    · cases hreply
      exact Or.inl rfl
    · next name args _ =>
      split at hreply
      · cases hreply
      · have hcommand := callsOnce_command s.1 name args
        rw [Option.some.inj hreply] at hcommand
        exact hcommand

/-- The engine after lines that are answered one after the other. -/
def after (e : Engine) (lines : List Text) : Engine := (lines.foldl answer (e, [])).1

theorem exists_calls_answers (s : Engine × Text) (lines : List Text) :
    ∃ calls : List Engine.Call, (∀ k ∈ calls, k.isLoad = false) ∧
      (lines.foldl answer s).1 = calls.foldl Engine.call s.1 := by
  induction lines generalizing s with
  | nil => exact ⟨[], fun k hk => absurd hk List.not_mem_nil, rfl⟩
  | cons line lines ih =>
    obtain ⟨calls, hcalls, heq⟩ := ih (answer s line)
    rw [List.foldl_cons, heq]
    rcases callsOnce_answer s line with hsame | ⟨k, hk, hcall⟩
    · exact ⟨calls, hcalls, by rw [hsame]⟩
    · exact ⟨k :: calls, List.forall_mem_cons.2 ⟨hk, hcalls⟩, by rw [hcall, List.foldl_cons]⟩

/-- Commands load nothing, so the names stay. -/
theorem names_after (h : e.Proper) (lines : List Text) : (after e lines).names = e.names := by
  obtain ⟨calls, hcalls, heq⟩ := exists_calls_answers (e, []) lines
  rw [after, heq]
  exact (Engine.keeps_calls h hcalls).names

/-! ### Numbers of cycles -/

/-- A number of cycles is read from a decimal numeral, with any zeros before it. -/
theorem readCycles_eq_ok_iff {arg : Option Text} : readCycles arg = .ok n ↔
    ∃ t, arg = some t ∧ t.Denotes n ∧ 1 ≤ n ∧ n ≤ maxCycles := by
  cases arg with
  | none =>
    refine iff_of_false (fun h => ?_) fun ⟨t, hnone, _⟩ => ?_
    · cases h
    · cases hnone
  | some t =>
    simp only [Option.some.injEq, exists_eq_left', Text.denotes_iff, readCycles]
    by_cases hdigits : t.all Byte.isDigit = true
    swap
    · rw [if_pos (by simpa using hdigits)]
      refine iff_of_false (fun h => by cases h) fun ⟨⟨hnumber, _⟩, _⟩ => hdigits ?_
      exact List.all_eq_true.2 hnumber.2
    rw [if_neg (by simp [hdigits])]
    by_cases hmax : maxCycles < t.value
    · rw [if_pos hmax]
      exact iff_of_false (fun h => by cases h) fun ⟨⟨_, hvalue⟩, _, hle⟩ => by omega
    rw [if_neg hmax]
    by_cases hzero : t.value = 0
    · rw [if_pos hzero]
      exact iff_of_false (fun h => by cases h) fun ⟨⟨_, hvalue⟩, hpos, _⟩ => by omega
    rw [if_neg hzero, Except.ok.injEq]
    have hne : t ≠ [] := fun h => hzero (by rw [h]; rfl)
    refine ⟨?_, fun h => h.1.2⟩
    rintro rfl
    exact ⟨⟨⟨hne, List.all_eq_true.1 hdigits⟩, rfl⟩, by omega, by omega⟩

theorem newline_notMem_of_readCycles {arg : Option Text} {m : Text}
    (harg : ∀ t, arg = some t → Byte.newline ∉ t) (h : readCycles arg = .error m) :
    Byte.newline ∉ m := by
  cases arg with
  | none =>
    cases h
    decide
  | some t =>
    have hbad : Byte.newline ∉ Text.ofString "Expected a positive integer, got " ++ t.quoted := by
      simp only [Text.quoted, List.mem_append, not_or]
      exact ⟨by decide, ⟨by decide, harg t rfl⟩, by decide⟩
    rw [readCycles] at h
    split at h
    · cases h
      exact hbad
    split at h
    · cases h
      decide
    split at h
    · cases h
      exact hbad
    · cases h

/-- The first argument is a numeral of a positive number of at most 64 bits. -/
def AsksFor (args : List Text) (n : Nat) : Prop :=
  ∃ t, args.head? = some t ∧ t.Denotes n ∧ 1 ≤ n ∧ n < 2 ^ 64

/-- The line simulates as many cycles as it asks for. If it asks for none, it is refused in one line,
and nothing becomes of the engine. -/
structure Counted (verb : Text) (go : Engine → Nat → Engine) (e : Engine) (line : Text)
    (args : List Text) : Prop where
  simulates : ∀ n, AsksFor args n → reply e line = some (go e n, runReport verb n (go e n))
  refuses : (¬ ∃ n, AsksFor args n) → ∃ output, IsErrorLine output ∧ reply e line = some (e, output)

theorem asksFor_iff : AsksFor args n ↔ readCycles args[0]? = .ok n := by
  rw [readCycles_eq_ok_iff, AsksFor, List.head?_eq_getElem?, maxCycles]
  refine exists_congr fun t => and_congr_right fun _ => and_congr_right fun _ =>
    and_congr_right fun _ => ?_
  omega

theorem counted_of_reply {verb : Text} {go : Engine → Nat → Engine}
    (hreply : reply e line = some (runCommand verb go e args[0]?))
    (hargs : ∀ t ∈ args, Byte.newline ∉ t) : Counted verb go e line args where
  simulates n h := by
    rw [hreply, runCommand, asksFor_iff.1 h]
  refuses h := by
    cases hread : readCycles args[0]? with
    | ok n => exact absurd ⟨n, asksFor_iff.2 hread⟩ h
    | error m =>
      refine ⟨errorLine m, isErrorLine_errorLine ?_, by rw [hreply, runCommand, hread]⟩
      exact newline_notMem_of_readCycles
        (fun t ht => hargs t (List.mem_of_getElem? ht)) hread

/-- Lines that begin with `r` or `c` simulate exactly as many cycles as the decimal numeral after that
denotes, if that is from 1 to `2 ^ 64 - 1`, and none otherwise. -/
theorem counted_of_words {name : Text} (h : line.words = name :: args) :
    (name = .ofString "r" → Counted (.ofString "Running") Engine.run e line args) ∧
      (name = .ofString "c" → Counted (.ofString "Continuing") Engine.resume e line args) := by
  have hargs : ∀ t ∈ args, Byte.newline ∉ t := fun t ht =>
    Text.newline_notMem_of_mem_words (h ▸ List.mem_cons_of_mem _ ht)
  constructor
  · rintro rfl
    exact counted_of_reply (reply_of_words h (by decide)) hargs
  · rintro rfl
    exact counted_of_reply (reply_of_words h (by decide)) hargs

/-- The largest number of cycles after two zeros, and what is too large, zero, signed or no numeral. -/
theorem counted_limits :
    let e := Engine.call {} (.load { text := Engine.clockedRing })
    let refused := [["18446744073709551616"], ["000"], ["+1"], ["-1", "2"], ["1x"], []]
    (∀ args ∈ refused.map (List.map Text.ofString), ∀ line : Text,
      line.words = Text.ofString "c" :: args →
        ∃ output, IsErrorLine output ∧ reply e line = some (e, output)) ∧
      reply e (.ofString " r 0018446744073709551615 cycles") =
        some (e.run 18446744073709551615, runReport (.ofString "Running") 18446744073709551615
          (e.run 18446744073709551615)) := by
  intro e refused
  have hnone : ∀ args ∈ refused.map (List.map Text.ofString),
      readCycles args[0]? matches .error _ := by decide
  have hwords : Text.words (.ofString " r 0018446744073709551615 cycles") =
      [.ofString "r", .ofString "0018446744073709551615", .ofString "cycles"] := by decide
  refine ⟨fun args hargs line hline => ?_, ?_⟩
  · refine ((counted_of_words hline).2 rfl).refuses fun ⟨n, hn⟩ => ?_
    have herror := hnone args hargs
    rw [asksFor_iff.1 hn] at herror
    cases herror
  · exact ((counted_of_words hwords).1 rfl).simulates _ (asksFor_iff.2 (by decide))

end Console

end GateSim
