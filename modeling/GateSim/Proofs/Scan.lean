import GateSim.Definition

/-!
# Places of symbols

Symbols other than the invalid ones stand at different places, in the order in which they are read
(`Definition.pairwise_position`), and the last of them is the only end of file.
-/

namespace GateSim

namespace Position
variable {p q r : Position}

/-- The place is read earlier. -/
def Before (p q : Position) : Prop := p.line < q.line ∨ p.line = q.line ∧ p.column < q.column

/-- The place is not read later. -/
def AtMost (p q : Position) : Prop := p.line < q.line ∨ p.line = q.line ∧ p.column ≤ q.column

theorem AtMost.refl (p : Position) : p.AtMost p := .inr ⟨rfl, Nat.le_refl _⟩

theorem AtMost.trans (h : p.AtMost q) (h' : q.AtMost r) : p.AtMost r := by
  simp only [AtMost] at *
  omega

theorem Before.trans_atMost (h : p.Before q) (h' : q.AtMost r) : p.Before r := by
  simp only [Before, AtMost] at *
  omega

theorem Before.ne (h : p.Before q) : p ≠ q := by
  rintro rfl
  simp only [Before] at h
  omega

theorem atMost_after (p : Position) (b : Byte) : p.AtMost (p.after b) := by
  unfold after
  split
  · exact .inl (Nat.lt_succ_self _)
  · split
    · exact .refl p
    · exact .inr ⟨rfl, Nat.le_succ _⟩

theorem before_after (p : Position) {b : Byte} (h : b.isContinuation = false) :
    p.Before (p.after b) := by
  unfold after
  split
  · exact .inl (Nat.lt_succ_self _)
  · rw [if_neg (by simp [h])]
    exact .inr ⟨rfl, Nat.lt_succ_self _⟩

theorem atMost_advance (p : Position) (t : Text) : p.AtMost (p.advance t) := by
  induction t generalizing p with
  | nil => exact .refl p
  | cons b t ih => exact (p.atMost_after b).trans (ih (p.after b))

end Position

open Position

namespace Scanner

theorem atMost_skip (g : Gap) (p : Position) (t : Text) : p.AtMost (skip g p t).2.position := by
  fun_induction skip g p t
  case case1 | case2 | case3 | case7 => exact .refl _
  case case4 ih | case5 ih | case6 ih | case8 ih | case9 ih => exact (atMost_after ..).trans ih

/-- A continuation byte starts no symbol but an invalid one. -/
theorem isContinuation_eq_false {b : Byte} (h : typeOf b ≠ .invalid) : b.isContinuation = false := by
  have hall : ∀ v : Fin 256, typeOf (UInt8.ofFin v) ≠ .invalid →
      Byte.isContinuation (UInt8.ofFin v) = false := by
    decide +kernel
  exact hall b.toFin h

/-- A symbol does not stand before the place where its scanner starts, and the next one starts
behind it. -/
theorem atMost_next (s : Scanner) : s.position.AtMost (next s).2.position ∧
    ((next s).1.type ≠ .invalid → s.position.AtMost (next s).1.position ∧
      ((next s).1.type ≠ .endOfFile → (next s).1.position.Before (next s).2.position)) := by
  have hskip := atMost_skip .blank s.position s.rest
  unfold next
  split
  · next opened s' heq =>
    rw [heq] at hskip
    exact ⟨hskip, fun h => absurd rfl h⟩
  · next p heq =>
    rw [heq] at hskip
    exact ⟨hskip, fun _ => ⟨hskip, fun h => absurd rfl h⟩⟩
  · next p b t heq =>
    rw [heq] at hskip
    refine ⟨hskip.trans (atMost_advance p _), fun h => ⟨hskip, fun _ => ?_⟩⟩
    have hb : b.isContinuation = false := by
      refine isContinuation_eq_false fun hinvalid => h ?_
      simp [hinvalid]
    exact (before_after p hb).trans_atMost (atMost_advance _ _)

theorem type_last (s : Scanner) : (symbols s).2.type = .endOfFile := by
  fun_induction symbols s with
  | case1 s symbol s' hs h => exact h
  | case2 s symbol s' hs h rest last hrest ih => rwa [hrest] at ih

theorem type_ne_endOfFile (s : Scanner) : ∀ x ∈ (symbols s).1, x.type ≠ .endOfFile := by
  fun_induction symbols s with
  | case1 s symbol s' hs h => exact fun _ hx => (List.not_mem_nil hx).elim
  | case2 s symbol s' hs h rest last hrest ih =>
    rw [hrest] at ih
    exact List.forall_mem_cons.2 ⟨h, ih⟩

theorem pairwise_position (s : Scanner) :
    ((symbols s).1.filter (·.type != .invalid) ++ [(symbols s).2]).Pairwise
        (fun x y => x.position.Before y.position) ∧
      ∀ x ∈ (symbols s).1.filter (·.type != .invalid) ++ [(symbols s).2],
        s.position.AtMost x.position := by
  fun_induction symbols s with
  | case1 s symbol s' hs h =>
    have hnext := (atMost_next s).2
    rw [hs] at hnext
    simpa [h] using (hnext (by simp [h])).1
  | case2 s symbol s' hs h rest last hrest ih =>
    obtain ⟨hmove, hsymbol⟩ := atMost_next s
    rw [hrest] at ih
    rw [hs] at hmove hsymbol
    obtain ⟨hpairwise, hall⟩ := ih
    have hrest : ∀ x ∈ rest.filter (·.type != .invalid) ++ [last], s.position.AtMost x.position :=
      fun x hx => hmove.trans (hall x hx)
    by_cases hinvalid : symbol.type = .invalid
    · rw [List.filter_cons_of_neg (by simp [hinvalid])]
      exact ⟨hpairwise, hrest⟩
    · obtain ⟨hle, hlt⟩ := hsymbol hinvalid
      rw [List.filter_cons_of_pos (by simpa using hinvalid), List.cons_append, List.pairwise_cons,
        List.forall_mem_cons]
      exact ⟨⟨fun x hx => (hlt h).trans_atMost (hall x hx), hpairwise⟩, hle, hrest⟩

end Scanner

namespace Definition

theorem pairwise_position (d : Definition) :
    (d.valid ++ [d.last]).Pairwise fun x y => x.position.Before y.position :=
  (Scanner.pairwise_position _).1

theorem type_last (d : Definition) : d.last.type = .endOfFile := Scanner.type_last _

theorem type_ne_endOfFile (d : Definition) : ∀ x ∈ d.valid, x.type ≠ .endOfFile := fun x hx =>
  Scanner.type_ne_endOfFile _ x (List.mem_filter.1 hx).1

/-- The end of file stands behind the other symbols. -/
theorem position_ne_last (d : Definition) : ∀ x ∈ d.valid, x.position ≠ d.last.position :=
  fun x hx =>
    ((List.pairwise_append.1 d.pairwise_position).2.2 x hx d.last (List.mem_singleton.2 rfl)).ne

end Definition

end GateSim
