import GateSim.Proofs.Rebuild

/-!
# Definitions without errors

A definition that is built without errors is a sentence whose statements make sense, and the circuit
is the one that they describe (`Definition.exists_accepts`). The names of its devices are names as
the scanner reads them (`Definition.Accepts.isName_nameOf`).
-/

namespace GateSim

open Grammar

namespace Definition
variable {d : Definition} {names : NameTable} {built : Built} {sts : List Statement}

/-- A declared name stands in a declaration. -/
theorem exists_symbol_of_mem_names (hsts : IsSentence d.text.symbols.1 sts) {t : Text}
    (ht : t ∈ (Description.ofStatements sts).names) :
    ∃ x ∈ d.text.symbols.1, x.type = .name ∧ x.text = t ∧ ∃ st ∈ sts, x ∈ st.symbols := by
  rw [Description.ofStatements_eq] at ht
  obtain ⟨_, hdecl, rfl⟩ := List.mem_map.1 ht
  obtain ⟨st, hst, heq⟩ := List.mem_filterMap.1 hdecl
  obtain ⟨s, xs, hxs, hs⟩ := hsts.exists_isStatement hst
  cases hs with
  | @device kind k name ys parameter _ hname _ =>
    cases heq
    exact ⟨name, hxs (by simp), hname, rfl, _, hst, List.mem_cons_self ..⟩
  | connection | monitor => cases heq

/-- What is built without errors stands for the statements of a sentence. -/
structure Accepts (d : Definition) (names : NameTable) (built : Built) (sts : List Statement) :
    Prop where
  build : d.build names = .ok built
  valid : ∀ x ∈ d.text.symbols.1, x.type ≠ .invalid
  sentence : IsSentence d.text.symbols.1 sts
  meaningful : (Description.ofStatements sts).Meaningful
  known : (Description.ofStatements sts).Known built.names
  names : built.names = d.names names
  circuit : built.circuit = (Description.ofStatements sts).circuit built.names
  success : built.success = true

theorem accepts_of_sentence (hv : ∀ x ∈ d.text.symbols.1, x.type ≠ .invalid)
    (hsts : IsSentence d.text.symbols.1 sts) (hm : (Description.ofStatements sts).Meaningful)
    (names : NameTable) : ∃ built, d.Accepts names built sts := by
  obtain ⟨built, hbuild, hnames, hsuccess, hcircuit⟩ := build_of_isSentence hv hsts names
  have hs := hsuccess.2 hm
  refine ⟨built, hbuild, hv, hsts, hm, ⟨hnames ▸ d.knowsPins_names names, fun t ht => ?_⟩, hnames,
    hnames ▸ hcircuit hs, hs⟩
  obtain ⟨x, -, -, rfl, st, hst, hx⟩ := exists_symbol_of_mem_names hsts ht
  exact hnames ▸ ((d.proper_of_isSentence names hv hsts st hst).seen x hx).known

theorem exists_accepts (hbuild : d.build names = .ok built) (hs : built.success = true) :
    ∃ sts, d.Accepts names built sts := by
  obtain ⟨hv, sts, hsts⟩ := exists_isSentence_of_build hbuild hs
  obtain ⟨_, hbuild', -, hsuccess, -⟩ := build_of_isSentence hv hsts names
  cases hbuild.symm.trans hbuild'
  obtain ⟨_, h⟩ := accepts_of_sentence hv hsts (hsuccess.1 hs) names
  cases hbuild.symm.trans h.build
  exact ⟨sts, h⟩

namespace Accepts
variable (h : d.Accepts names built sts)
include h

theorem isName {t : Text} (ht : t ∈ (Description.ofStatements sts).names) : t.isName = true := by
  obtain ⟨x, hx, hname, rfl, -⟩ := exists_symbol_of_mem_names h.sentence ht
  exact Scanner.isName_of_mem_symbols hx hname

theorem exists_name {a : NameId} (ha : a ∈ built.circuit.devices.ids) :
    ∃ t ∈ (Description.ofStatements sts).names, built.names.idOf t = a := by
  rw [h.circuit] at ha
  obtain ⟨_, hmem, rfl⟩ := List.mem_map.1 ha
  obtain ⟨decl, hdecl, rfl⟩ := List.mem_map.1 hmem
  exact ⟨decl.name, List.mem_map_of_mem hdecl, rfl⟩

/-- Names of devices are shown as they are written. -/
theorem isName_nameOf {a : NameId} (ha : a ∈ built.circuit.devices.ids) :
    (built.names.nameOf a).isName = true := by
  obtain ⟨t, ht, rfl⟩ := h.exists_name ha
  rw [NameTable.nameOf_idOf (h.known.devices t ht)]
  exact h.isName ht

end Accepts

end Definition

end GateSim
