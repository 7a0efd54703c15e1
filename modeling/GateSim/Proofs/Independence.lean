import GateSim.Proofs.Order
import GateSim.Proofs.Rebuild

/-!
# Building over any table

What a table has seen before a definition is built over it settles the ids of all names, and so the
order of the pins of each device, but nothing that is seen by names
(`Definition.build_independent`).
-/

namespace GateSim

theorem NameTable.carries {names names' : NameTable} (h : names.KnowsPins) (h' : names'.KnowsPins) :
    Recoding.Carries (.ofIds (names.carry names') (names.carry names')
      (names.carry_injective names') (names.carry_injective names')) names names' where
  device _ ht ht' := carry_idOf ht ht'
  pin t ht := carry_idOf (h t ht) (h' t ht)

/-- A definition is built alike over any two tables: with the same success and the same diagnostics,
and the circuits have the same sketch. The same commands, by the names of devices, have the same
story then, cycle by cycle. Only which floating input of a device makes a cycle fail depends on the
table, as the ids do. -/
theorem Definition.build_independent (d : Definition) (names names' : NameTable) :
    ∃ b b', d.build names = .ok b ∧ d.build names' = .ok b' ∧
      b'.success = b.success ∧ b'.diagnostics = b.diagnostics ∧
      b'.session.sketch = b.session.sketch ∧
      ∀ cs, b'.session.story cs = b.session.story cs := by
  obtain ⟨c, c', ds, hbuild, hbuild', hrelabels, -⟩ := d.build_relabels
    (NameTable.carries (d.knowsPins_names names) (d.knowsPins_names names'))
  have hr := Session.reachable_of_build hbuild
  have hr' := Session.reachable_of_build hbuild'
  refine ⟨_, _, hbuild, hbuild', by rw [Built.success, Built.success], rfl, ?_, fun cs => ?_⟩
  · exact (hrelabels.sketch_eq hr.intact hr'.intact).trans (Sketch.rename_id _)
  · have hstory := hrelabels.story_eq hr hr' cs fun _ _ _ _ _ _ heq => heq
    rwa [Command.rename_id, Moment.rename_id, List.map_id, List.map_id] at hstory

end GateSim
