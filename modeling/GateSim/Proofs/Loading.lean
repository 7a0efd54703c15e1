import GateSim.Proofs.Engine

/-!
# Loads

All that a load keeps of an engine are the names: the rest is as in a new engine, and there is a
circuit and no message, or a message and no circuit (`Engine.load_cases`). So whichever definition
is rejected, it leaves the same behind. A file that cannot be read is another matter. It leaves a
message and no circuit either, but the statistics stay, and so does the mark of a run
(`Engine.loadFile_none`).
-/

namespace GateSim

/-! ### Messages -/

/-- A label does not begin with a zero byte. -/
theorem Category.label_eq_cons (c : Category) : ∃ b t, c.label = b :: t ∧ b ≠ 0 := by
  cases c <;> exact ⟨_, _, rfl, by decide⟩

theorem Fault.description_ne_nil (f : Fault) : f.description ≠ [] := by
  obtain ⟨b, t, hlabel, hb⟩ := f.category.label_eq_cons
  rw [description, hlabel, Text.upToZero, List.cons_append, List.cons_append, List.cons_append,
    List.takeWhile_cons_of_pos (by simpa using hb)]
  exact List.cons_ne_nil _ _

namespace Engine

/-- The message about a definition with errors. -/
def rejection (d : Definition) (ds : Diagnostics) : Text :=
  d.file ++ .ofString ": " ++ .decimal ds.errorCount ++ .ofString " error(s) in circuit definition"

theorem rejection_ne_nil (d : Definition) (ds : Diagnostics) : rejection d ds ≠ [] :=
  List.append_ne_nil_of_right_ne_nil _ (by decide)

/-! ### What a load leaves -/

/-- A load keeps the names only, and adds those of the definition. -/
theorem load_cases (e : Engine) (d : Definition) :
    ∃ built, d.build e.names = .ok built ∧
      ((built.success = true ∧ e.load d = (true,
          { state := .ready, names := built.names, circuit := some built.circuit,
            diagnostics := built.diagnostics })) ∨
        (built.success = false ∧ e.load d = (false,
          { state := .error, message := rejection d built.diagnostics, names := built.names,
            diagnostics := built.diagnostics }))) := by
  obtain ⟨draft, ds, -, hbuild⟩ := d.build_eq e.names
  refine ⟨_, hbuild, ?_⟩
  unfold load
  simp only [hbuild]
  split
  · next hs => exact Or.inl ⟨hs, rfl⟩
  · next hs => exact Or.inr ⟨Bool.eq_false_iff.2 hs, rfl⟩

/-- There is no circuit, and a message says why. -/
structure Dropped (e : Engine) : Prop where
  circuit : e.circuit = none
  state : e.state = .error
  message : e.message ≠ []

/-- A load that fails and leaves nothing of the circuit that there was. -/
structure Clean (result : Bool × Engine) : Prop where
  failed : result.1 = false
  dropped : result.2.Dropped
  statistics : result.2.statistics = {}

theorem clean_load {e : Engine} {d : Definition} (h : (e.load d).1 = false) : Clean (e.load d) := by
  obtain ⟨built, -, ⟨-, heq⟩ | ⟨-, heq⟩⟩ := e.load_cases d
  · rw [heq] at h
    cases h
  · rw [heq]
    exact ⟨rfl, ⟨rfl, rfl, rejection_ne_nil d _⟩, rfl⟩

/-- A file that cannot be read costs the circuit, but not its statistics and the mark of its run. -/
theorem loadFile_none (e : Engine) (path : Text) :
    (e.loadFile path none).1 = false ∧ (e.loadFile path none).2.Dropped ∧
      (e.loadFile path none).2.statistics = e.statistics ∧
      (e.loadFile path none).2.hasRun = e.hasRun :=
  ⟨rfl, ⟨rfl, rfl, Fault.description_ne_nil _⟩, rfl, rfl⟩

/-- A load of a definition with errors is clean, from a file or not. A load of a file that cannot be
read is not: the statistics stay. -/
theorem failed_load (e : Engine) :
    (∀ d : Definition, ∃ built, d.build e.names = .ok built ∧
      (built.success = false → Clean (e.load d))) ∧
    (∀ path text, ∃ built, Definition.build { text, file := path } e.names = .ok built ∧
      (built.success = false → Clean (e.loadFile path (some text)))) ∧
    ∀ path, (e.loadFile path none).1 = false ∧ (e.loadFile path none).2.Dropped ∧
      (e.loadFile path none).2.statistics = e.statistics := by
  have hload : ∀ d : Definition, ∃ built, d.build e.names = .ok built ∧
      (built.success = false → Clean (e.load d)) := by
    intro d
    obtain ⟨built, hbuild, ⟨hs, -⟩ | ⟨-, heq⟩⟩ := e.load_cases d
    · exact ⟨built, hbuild, fun h => by rw [hs] at h; cases h⟩
    · exact ⟨built, hbuild, fun _ => clean_load (by rw [heq])⟩
  refine ⟨hload, fun path text => hload { text, file := path }, fun path => ?_⟩
  obtain ⟨hfailed, hdropped, hstatistics, -⟩ := e.loadFile_none path
  exact ⟨hfailed, hdropped, hstatistics⟩

/-- A file that cannot be read leaves an engine without a circuit, which has still counted the cycle
of the circuit that there was. -/
theorem unreadable_after_run :
    ¬ ∀ e : Engine, e.Reachable → (∀ d : Definition, ∀ built, d.build e.names = .ok built →
        built.success = false → Clean (e.load d)) ∧
      (∀ path text built, Definition.build { text, file := path } e.names = .ok built →
        built.success = false → Clean (e.loadFile path (some text))) ∧
      ∀ path, Clean (e.loadFile path none) := by
  intro h
  have hcycles :
      ([Call.load { text := clockedRing }, .run 1].foldl call {}).statistics.cycles = 1 := by
    decide +kernel
  have hclean := (h ([Call.load { text := clockedRing }, .run 1].foldl call {}) ⟨_, rfl⟩).2.2
    (.ofString "missing.txt")
  rw [(loadFile_none _ _).2.2.1.symm.trans hclean.statistics] at hcycles
  cases hcycles

end Engine

end GateSim
