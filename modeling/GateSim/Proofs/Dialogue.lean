import GateSim.Console
import GateSim.Proofs.Lines
import GateSim.Proofs.Loading

/-!
# Dialogues

A session is a fold: each line is answered by an engine that has only seen the lines before it
(`Console.session_eq`), and the first line that quits ends it. So what was printed for some complete
lines stays when more lines follow (`Console.dialogue`).
-/

namespace GateSim

namespace Console
variable {e : Engine} {line : Text} {read : Text → Option Text} {file : Text}

/-! ### Sessions -/

/-- The first word of the line is `q`. -/
def quits (line : Text) : Bool := line.words.head? == some (.ofString "q")

/-- The lines that are answered. -/
def heeded (input : Text) : List Text := input.inputLines.takeWhile (!quits ·)

theorem reply_of_quits (h : quits line = true) : reply e line = none := by
  obtain ⟨args, hwords⟩ := List.head?_eq_some_iff.1 (beq_iff_eq.1 h)
  rw [reply, hwords]
  exact if_pos rfl

theorem exists_reply (h : quits line = false) : ∃ e' output, reply e line = some (e', output) := by
  rw [reply]
  cases hwords : line.words with
  | nil => exact ⟨e, [], rfl⟩
  | cons name args =>
    have hname : name ≠ .ofString "q" := fun heq => by simp [quits, hwords, heq] at h
    exact ⟨_, _, if_neg hname⟩

/-- The engine, and all that has been printed, after one more line. -/
def answer (s : Engine × Text) (line : Text) : Engine × Text :=
  match reply s.1 line with
  | none => s
  | some (e, output) => (e, s.2 ++ prompt ++ output)

theorem session_eq (e : Engine) (printed : Text) (lines : List Text) :
    printed ++ session e lines =
      ((lines.takeWhile (!quits ·)).foldl answer (e, printed)).2 ++ prompt := by
  induction lines generalizing e printed with
  | nil => rfl
  | cons line lines ih =>
    cases hq : quits line with
    | true =>
      rw [session, reply_of_quits hq, List.takeWhile_cons_of_neg (by simp [hq])]
      rfl
    | false =>
      obtain ⟨e', output, hreply⟩ := exists_reply (e := e) hq
      have hanswer : answer (e, printed) line = (e', printed ++ prompt ++ output) := by
        rw [answer, hreply]
      have hsession : session e (line :: lines) = prompt ++ output ++ session e' lines := by
        rw [session, hreply]
      rw [hsession, List.takeWhile_cons_of_pos (by simp [hq]), List.foldl_cons, hanswer, ← ih,
        List.append_assoc, List.append_assoc, List.append_assoc]

/-- Whatever is printed later comes after a prompt. -/
theorem prefix_answers (s : Engine × Text) (lines : List Text) :
    s.2 ++ prompt <+: (lines.foldl answer s).2 ++ prompt := by
  induction lines generalizing s with
  | nil => exact List.prefix_refl _
  | cons line lines ih =>
    refine List.IsPrefix.trans ?_ (ih (answer s line))
    unfold answer
    split
    · exact List.prefix_refl _
    · rw [List.append_assoc _ _ prompt]
      exact List.prefix_append _ _

/-! ### Starts -/

/-- The file can be read, and there is no error in it. -/
def Accepts (read : Text → Option Text) (file : Text) : Prop :=
  ∃ text built, read file = some text ∧
    Definition.build { text, file := file } {} = .ok built ∧ built.success = true

theorem start_eq (hfile : file ≠ .ofString "-h" ∧ file ≠ .ofString "--help") :
    start read [file] =
      let (isLoaded, e) := Engine.loadFile {} file (read file)
      let errors := e.diagnostics.render
      if isLoaded then .commands e errors
      else .over ⟨1, [], errors ++ e.message ++ .ofString "\n"⟩ :=
  if_neg fun h => h.elim hfile.1 hfile.2

theorem isLoaded_iff : (Engine.loadFile {} file (read file)).1 = true ↔ Accepts read file := by
  cases hread : read file with
  | none => exact iff_of_false Bool.false_ne_true fun ⟨_, _, hsome, _⟩ => by simp [hread] at hsome
  | some text =>
    obtain ⟨built, hbuild, ⟨hs, hload⟩ | ⟨hs, hload⟩⟩ :=
      Engine.load_cases {} { text, file := file }
    · rw [Engine.loadFile, hload]
      exact iff_of_true rfl ⟨text, built, hread, hbuild, hs⟩
    · rw [Engine.loadFile, hload]
      refine iff_of_false Bool.false_ne_true fun ⟨text', built', hread', hbuild', hs'⟩ => ?_
      cases hread.symm.trans hread'
      cases hbuild.symm.trans hbuild'
      cases hs.symm.trans hs'

theorem start_of_accepts (hfile : file ≠ .ofString "-h" ∧ file ≠ .ofString "--help")
    (h : Accepts read file) : ∃ e, Engine.loadFile {} file (read file) = (true, e) ∧
      start read [file] = .commands e e.diagnostics.render := by
  have hloaded := isLoaded_iff.2 h
  rw [start_eq hfile]
  rcases hload : Engine.loadFile {} file (read file) with ⟨isLoaded, e⟩
  rw [hload] at hloaded
  obtain rfl : isLoaded = true := hloaded
  exact ⟨e, rfl, rfl⟩

theorem start_of_not_accepts (hfile : file ≠ .ofString "-h" ∧ file ≠ .ofString "--help")
    (h : ¬ Accepts read file) : ∃ errors, start read [file] = .over ⟨1, [], errors⟩ := by
  have hloaded := mt isLoaded_iff.1 h
  rw [start_eq hfile]
  rcases hload : Engine.loadFile {} file (read file) with ⟨isLoaded, e⟩
  rw [hload] at hloaded
  obtain rfl : isLoaded = false := Bool.eq_false_iff.2 hloaded
  exact ⟨_, rfl⟩

/-! ### Programs -/

theorem heeded_append {s₁ s₂ : Text} (hs : s₁.EndsLine)
    (hq : ∀ line ∈ s₁.inputLines, quits line = false) :
    heeded (s₁ ++ s₂) = heeded s₁ ++ heeded s₂ := by
  have hall : ∀ line ∈ s₁.inputLines, (!quits line) = true := fun line hline => by
    rw [hq line hline, Bool.not_false]
  rw [heeded, Text.inputLines_append hs, List.takeWhile_append_of_pos hall, heeded,
    List.takeWhile_eq_self_iff.2 hall, heeded]

/-- A program that accepts its file answers the lines before the first that quits, one after the
other, so only these matter, and more lines only add to what is printed. A program that does not
accept its file reads no input. -/
theorem dialogue (read : Text → Option Text) (file : Text)
    (hfile : file ≠ .ofString "-h" ∧ file ≠ .ofString "--help") :
    let run := program read [file]
    (Accepts read file →
      (∃ e, Engine.loadFile {} file (read file) = (true, e) ∧ ∀ input, run input =
        ⟨0, ((heeded input).foldl answer (e, greeting)).2 ++ prompt, e.diagnostics.render⟩) ∧
      (∀ input input', heeded input = heeded input' → run input = run input') ∧
      (∀ s₁ s₂ : Text, s₁.EndsLine → (∀ line ∈ s₁.inputLines, quits line = false) →
        (run s₁).output <+: (run (s₁ ++ s₂)).output) ∧
      ∀ s : Text, ¬ s.EndsLine → run (s ++ [Byte.newline]) = run s) ∧
    (¬ Accepts read file → ∀ input,
      (run input).code = 1 ∧ (run input).output = [] ∧ ∀ input', run input' = run input) := by
  intro run
  constructor
  · intro haccepts
    obtain ⟨e, hload, hstart⟩ := start_of_accepts hfile haccepts
    have hrun : ∀ input, run input =
        ⟨0, ((heeded input).foldl answer (e, greeting)).2 ++ prompt, e.diagnostics.render⟩ := by
      intro input
      show program read [file] input = _
      rw [program, hstart, heeded, ← session_eq]
    have hcongr : ∀ input input', heeded input = heeded input' → run input = run input' := by
      intro input input' h
      rw [hrun, hrun, h]
    refine ⟨⟨e, hload, hrun⟩, hcongr, fun s₁ s₂ hs hq => ?_, fun s hs => hcongr _ _ ?_⟩
    · rw [hrun, hrun, heeded_append hs hq, List.foldl_append]
      exact prefix_answers _ _
    · rw [heeded, Text.inputLines_concat_newline hs, heeded]
  · intro haccepts input
    obtain ⟨errors, hstart⟩ := start_of_not_accepts hfile haccepts
    have hrun : ∀ input, run input = ⟨1, [], errors⟩ := by
      intro input
      show program read [file] input = _
      rw [program, hstart]
    exact ⟨by rw [hrun], by rw [hrun], fun input' => by rw [hrun, hrun]⟩

/-- A switch is set between two runs, and what follows `q` is not read. -/
theorem dialogue_oneSwitch :
    let read (file : Text) := if file = .ofString "switch" then
      some (.ofString "DEVICES: SWITCH S 0; CONNECT: ; MONITOR: S; END;") else none
    let run := program read [.ofString "switch"]
    let lines := Text.ofString "r 2\ns S 1\n"
    let more := Text.ofString "c 1\nq\nr 5"
    (run lines).code = 0 ∧ (run lines).output ≠ (run (lines ++ more)).output ∧
      (run lines).output <+: (run (lines ++ more)).output ∧
      run (more ++ [Byte.newline]) = run more ∧ run more = run (.ofString "c 1\n q now\nm") ∧
      (program read [.ofString "other"] lines).code = 1 ∧
      program read [.ofString "other"] more = program read [.ofString "other"] lines := by
  intro read run lines more
  have heval : (run []).code = 0 ∧ (program read [.ofString "other"] []).code = 1 ∧
      (run lines).output ≠ (run (lines ++ more)).output ∧
      heeded more = heeded (.ofString "c 1\n q now\nm") ∧
      (∀ line ∈ lines.inputLines, quits line = false) := by decide +kernel
  obtain ⟨hcode, hcode', hmore, hheeded, hquits⟩ := heval
  obtain ⟨haccepted, hrejected⟩ := dialogue read (.ofString "switch") (by decide)
  obtain ⟨haccepted', hrejected'⟩ := dialogue read (.ofString "other") (by decide)
  have haccepts : Accepts read (.ofString "switch") := by
    by_contra h
    exact Nat.zero_ne_one (hcode.symm.trans (hrejected h []).1)
  have hrejects : ¬ Accepts read (.ofString "other") := by
    intro h
    obtain ⟨⟨e, -, hrun⟩, -⟩ := haccepted' h
    exact Nat.one_ne_zero (hcode'.symm.trans (congrArg Outcome.code (hrun [])))
  obtain ⟨⟨e, -, hrun⟩, hcongr, hprefix, hlast⟩ := haccepted haccepts
  obtain ⟨hcode₁, -, hsame⟩ := hrejected' hrejects lines
  exact ⟨congrArg Outcome.code (hrun lines), hmore, hprefix lines more (Or.inr rfl) hquits,
    hlast more (by unfold Text.EndsLine; decide), hcongr _ _ hheeded, hcode₁, hsame more⟩

end Console

end GateSim
