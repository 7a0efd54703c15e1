import Mathlib.Data.List.DropRight
import GateSim.Proofs.Lines
import GateSim.Proofs.Reports

/-!
# Places in a text

A place counts the newlines before it and the characters before it in its line
(`Position.advance_start`). The scanner's places are those of its symbols in the text
(`Scanner.exists_standsAt`), and so the line that a diagnostic shows is the one in which its symbol
stands, with a caret under its first character (`Definition.build_places`).
-/

namespace GateSim

open Diagnostics

namespace Text

/-- What comes after the last newline. -/
def lastLine (t : Text) : Text := t.rtakeWhile (· != Byte.newline)

/-- The first byte of each character. -/
def characters (t : Text) : Text := t.filter (!·.isContinuation)

def withoutReturn (t : Text) : Text :=
  if t.getLast? = some Byte.carriageReturn then t.dropLast else t

/-- The line of a number, without its newline. -/
def IsLine (t : Text) (n : Nat) (l : Text) : Prop :=
  ∃ above below, t = above ++ (l ++ below) ∧ above.EndsLine ∧ above.count Byte.newline + 1 = n ∧
    Byte.newline ∉ l ∧ ∀ b ∈ below.head?, b = Byte.newline

/-! ### Lines and columns -/

theorem lastLine_concat (t : Text) (b : Byte) :
    (t ++ [b]).lastLine = if b = Byte.newline then [] else t.lastLine ++ [b] := by
  rw [lastLine, List.rtakeWhile_concat]
  by_cases hb : b = Byte.newline <;> simp [hb, lastLine]

theorem newline_not_mem_lastLine (t : Text) : Byte.newline ∉ t.lastLine := fun h => by
  simpa using List.mem_rtakeWhile_imp h

/-- A text is some complete lines and a last one. -/
theorem exists_eq_append_lastLine (t : Text) : ∃ above, t = above ++ t.lastLine ∧
    above.EndsLine ∧ above.count Byte.newline = t.count Byte.newline := by
  induction t using List.reverseRecOn with
  | nil => exact ⟨[], rfl, .inl rfl, rfl⟩
  | append_singleton t b ih =>
    rw [lastLine_concat]
    by_cases hb : b = Byte.newline
    · rw [if_pos hb, hb]
      exact ⟨t ++ [Byte.newline], by simp, .inr List.getLast?_concat, rfl⟩
    · obtain ⟨above, ht, habove, hcount⟩ := ih
      rw [if_neg hb]
      refine ⟨above, by rw [← List.append_assoc, ← ht], habove, ?_⟩
      rw [hcount, List.count_append]
      simp [hb]

end Text

theorem Position.advance_start (t : Text) : Position.start.advance t =
    ⟨t.count Byte.newline + 1, t.lastLine.characters.length + 1⟩ := by
  induction t using List.reverseRecOn with
  | nil => rfl
  | append_singleton t b ih =>
    have hafter : Position.start.advance (t ++ [b]) = (Position.start.advance t).after b :=
      List.foldl_append ..
    rw [hafter, ih, after, Text.lastLine_concat, List.count_append]
    by_cases hb : b = Byte.newline
    · simp [hb, Text.characters]
    · by_cases hc : b.isContinuation = true <;>
        simp [hb, hc, Text.characters]

namespace Text

theorem length_lines (t : Text) : t.lines.length = t.count Byte.newline + 1 := by
  induction t with
  | nil => rfl
  | cons b t ih =>
    obtain ⟨l, ls, heq⟩ := List.exists_cons_of_ne_nil (splitWhere_ne_nil (· == Byte.newline) t)
    rw [lines, heq] at ih
    rw [lines, splitWhere, heq]
    by_cases hb : b = Byte.newline <;> simp_all

theorem lines_of_newline_not_mem {l : Text} (h : Byte.newline ∉ l) : l.lines = [l] :=
  splitWhere_eq_singleton fun _ hb => beq_eq_false_iff_ne.2 fun heq => h (heq ▸ hb)

/-- The lines after some that are complete. -/
theorem lines_append_of_endsLine {t : Text} (h : t.EndsLine) (u : Text) :
    (t ++ u).lines.drop (t.count Byte.newline) = u.lines := by
  rcases h with rfl | h
  · rfl
  · obtain ⟨t, rfl⟩ := List.getLast?_eq_some_iff.1 h
    have hlength : (t ++ [Byte.newline]).count Byte.newline = (lines t).length := by
      rw [length_lines, List.count_append]
      rfl
    rw [hlength, List.append_assoc, List.singleton_append, lines_append, List.drop_left]

theorem IsLine.getElem?_lines {t l : Text} {n : Nat} (h : IsLine t (n + 1) l) :
    t.lines[n]? = some l := by
  obtain ⟨above, below, rfl, habove, hn, hl, hbelow⟩ := h
  obtain rfl := Nat.succ.inj hn
  have hhead : (l ++ below).lines.head? = some l := by
    cases below with
    | nil => rw [List.append_nil, lines_of_newline_not_mem hl]; rfl
    | cons b below =>
      obtain rfl := hbelow b rfl
      rw [lines_append, lines_of_newline_not_mem hl]
      rfl
  rw [← lines_append_of_endsLine habove, List.head?_drop] at hhead
  exact hhead

theorem lines_cases (t : Text) : (Byte.newline ∉ t ∧ lines t = [t]) ∨
    ∃ l u, t = l ++ Byte.newline :: u ∧ Byte.newline ∉ l ∧ lines t = l :: lines u := by
  obtain ⟨l, after, rfl, hl, hafter⟩ := exists_longest (· != Byte.newline) t
  have hl : Byte.newline ∉ l := fun h => by simpa using hl _ h
  cases after with
  | nil =>
    rw [List.append_nil]
    exact .inl ⟨hl, lines_of_newline_not_mem hl⟩
  | cons b u =>
    obtain rfl : b = Byte.newline := by simpa using hafter b rfl
    refine .inr ⟨l, u, rfl, hl, ?_⟩
    rw [lines_append, lines_of_newline_not_mem hl]
    rfl

theorem isLine_of_getElem? {t l : Text} {n : Nat} (h : t.lines[n]? = some l) :
    IsLine t (n + 1) l := by
  induction n generalizing t with
  | zero =>
    rcases lines_cases t with ⟨ht, heq⟩ | ⟨l', u, rfl, hl, heq⟩ <;> rw [heq] at h <;> cases h
    · exact ⟨[], [], by simp, .inl rfl, rfl, ht, by simp⟩
    · exact ⟨[], Byte.newline :: u, rfl, .inl rfl, rfl, hl, by simp⟩
  | succ n ih =>
    rcases lines_cases t with ⟨ht, heq⟩ | ⟨l', u, rfl, hl, heq⟩ <;> rw [heq] at h
    · cases h
    · obtain ⟨above, below, rfl, habove, hn, hlast, hbelow⟩ := ih h
      refine ⟨l' ++ Byte.newline :: above, below, by simp, ?_, ?_, hlast, hbelow⟩
      · rcases habove with rfl | habove
        · exact .inr List.getLast?_concat
        · obtain ⟨above, rfl⟩ := List.getLast?_eq_some_iff.1 habove
          exact .inr (by rw [← List.cons_append, ← List.append_assoc, List.getLast?_concat])
      · rw [List.count_append, List.count_eq_zero_of_not_mem hl, List.count_cons_self]
        omega

theorem line_eq_of_isLine {t l : Text} {n : Nat} (h : IsLine t n l) : t.line n = l.withoutReturn := by
  cases n with
  | zero =>
    obtain ⟨above, below, -, -, hn, -⟩ := h
    cases hn
  | succ n =>
    show ((t.lines[n]?).getD []).withoutReturn = _
    rw [h.getElem?_lines]
    rfl

/-- The line of a number is all that can be shown of it. -/
theorem exists_isLine {t : Text} {n : Nat} (h : t.line n ≠ []) :
    ∃ l, IsLine t n l ∧ t.line n = l.withoutReturn := by
  cases n with
  | zero => exact absurd rfl h
  | succ n =>
    cases hl : t.lines[n]? with
    | none =>
      have hnone : t.line (n + 1) = ((t.lines[n]?).getD []).withoutReturn := rfl
      rw [hl] at hnone
      exact absurd hnone h
    | some l =>
      have hline := isLine_of_getElem? hl
      exact ⟨l, hline, line_eq_of_isLine hline⟩

end Text

/-! ### Symbols in a text -/

namespace Text
variable {l w before after t : Text} {type : SymbolType}

theorem prefix_withoutReturn (h : l.getLast? ≠ some Byte.carriageReturn) (m : Text) :
    l <+: (l ++ m).withoutReturn := by
  unfold withoutReturn
  split
  · next hlast =>
    have hm : m ≠ [] := by
      rintro rfl
      rw [List.append_nil] at hlast
      exact h hlast
    rw [List.dropLast_append_of_ne_nil hm]
    exact List.prefix_append ..
  · exact List.prefix_append ..

/-- A piece without blanks stands in one line. -/
theorem prefix_line (ht : t = before ++ (w ++ after)) (hw : ∀ b ∈ w, b.isBlank = false)
    (hne : w ≠ []) : before.lastLine ++ w <+: t.line (before.count Byte.newline + 1) := by
  obtain ⟨above, hbefore, habove, hcount⟩ := exists_eq_append_lastLine before
  obtain ⟨m, below, rfl, hm, hbelow⟩ := exists_longest (· != Byte.newline) after
  have hline : IsLine t (before.count Byte.newline + 1) (before.lastLine ++ w ++ m) := by
    refine ⟨above, below, ?_, habove, by rw [hcount], ?_, fun b hb => by simpa using hbelow b hb⟩
    · rw [ht]
      nth_rewrite 1 [hbefore]
      simp only [List.append_assoc]
    · simp only [List.mem_append, not_or]
      refine ⟨⟨newline_not_mem_lastLine before, fun h => ?_⟩, fun h => ?_⟩
      · exact absurd (hw _ h) (by decide)
      · simpa using hm _ h
  rw [line_eq_of_isLine hline]
  refine prefix_withoutReturn (fun hlast => ?_) m
  rw [List.getLast?_append_of_ne_nil _ hne] at hlast
  exact absurd (hw _ (List.mem_of_getLast? hlast)) (by decide)

theorem IsSymbol.isBlank_eq_false (h : IsSymbol after type w) : ∀ b ∈ w, b.isBlank = false := by
  have hall : ∀ v : Fin 256, Byte.isNameByte (UInt8.ofFin v) = true ∨
      Byte.isContinuation (UInt8.ofFin v) = true ∨ (UInt8.ofFin v) ∈ Byte.marks.map (·.1) →
      Byte.isBlank (UInt8.ofFin v) = false := by
    decide +kernel
  replace hall := fun b : Byte => hall b.toFin
  cases h with
  | number _ hw _ => exact fun b hb => hall b (.inl (by simp [Byte.isNameByte, hw b hb]))
  | word hletter hw _ =>
    refine List.forall_mem_cons.2 ⟨hall _ (.inl ?_), fun b hb => hall b (.inl (hw b hb))⟩
    simp [Byte.isNameByte, hletter]
  | mark hmem =>
    intro b hb
    rw [List.mem_singleton.1 hb]
    exact hall _ (.inr (.inr (List.mem_map_of_mem hmem)))
  | other hother hw _ =>
    refine List.forall_mem_cons.2 ⟨?_, fun b hb => hall b (.inr (.inl (hw b hb)))⟩
    simp only [Byte.isOther, Byte.startsGap, Bool.not_eq_true', Bool.or_eq_false_iff] at hother
    exact hother.1.1.1.1.1

end Text

/-- The symbol stands after a piece of the text, and its place says how many lines and characters
come before it there. -/
structure Symbol.StandsAt (x : Symbol) (t before after : Text) : Prop where
  text : t = before ++ (x.text ++ after)
  line : x.position.line = before.count Byte.newline + 1
  column : x.position.column = before.lastLine.characters.length + 1
  inLine : x.type ≠ .endOfFile → before.lastLine ++ x.text <+: t.line x.position.line
  atEnd : x.type = .endOfFile → before = t

/-- A comment that is opened and never closed. -/
def Symbol.OpensComment (x : Symbol) (after : Text) : Prop :=
  x.type = .invalid ∧ x.text = Text.ofString "!" ∧ '!'.toUInt8 ∉ after

namespace Scanner
open Text

/-- The scanner has come so far in the text. -/
def Reached (t : Text) (s : Scanner) : Prop :=
  ∃ before, t = before ++ s.rest ∧ s.position = Position.start.advance before

theorem standsAt_word {t before after : Text} {type : SymbolType} {w : Text}
    (ht : t = before ++ (w ++ after)) (hw : ∀ b ∈ w, b.isBlank = false) (hne : w ≠ [])
    (htype : type ≠ .endOfFile) :
    Symbol.StandsAt ⟨type, w, Position.start.advance before⟩ t before after where
  text := ht
  line := by rw [Position.advance_start]
  column := by rw [Position.advance_start]
  inLine _ := by
    rw [Position.advance_start]
    exact prefix_line ht hw hne
  atEnd h := absurd h htype

/-- A call finds its symbol where it stands, and leaves what comes after it. -/
theorem next_reached {t : Text} {s : Scanner} (h : Reached t s) : Reached t (next s).2 ∧
    ∃ before after, (next s).1.StandsAt t before after ∧
      (after = (next s).2.rest ∨ (next s).1.OpensComment after ∧ (next s).2.rest = []) := by
  obtain ⟨before, ht, hposition⟩ := h
  obtain ⟨p, rest⟩ := s
  obtain rfl : p = Position.start.advance before := hposition
  have hadvance : ∀ u v : Text, (Position.start.advance u).advance v =
      Position.start.advance (u ++ v) := fun u v => (List.foldl_append ..).symm
  obtain ⟨gap, after, rfl, hgap, hstart | ⟨comment, rfl, hcomment⟩⟩ := exists_isGap rest
  · rw [next_gap hgap, hadvance]
    rw [show t = _ from ht, ← List.append_assoc]
    cases after with
    | nil =>
      rw [next_of_end, List.append_nil]
      refine ⟨⟨before ++ gap, (List.append_nil _).symm, rfl⟩, before ++ gap, [], ?_, .inl rfl⟩
      exact ⟨(List.append_nil _).symm, by rw [Position.advance_start],
        by rw [Position.advance_start], fun h => absurd rfl h, fun _ => rfl⟩
    | cons b u =>
      obtain ⟨type, w, after, heq, hsymbol⟩ := exists_isSymbol (hstart b rfl) u
      rw [heq, next_isSymbol hsymbol, hadvance]
      refine ⟨⟨before ++ gap ++ (b :: w), by simp, rfl⟩, before ++ gap, after, ?_, .inl rfl⟩
      exact standsAt_word rfl hsymbol.isBlank_eq_false hsymbol.ne_nil hsymbol.ne_endOfFile
  · rw [next_gap hgap, hadvance, next_openComment hcomment, hadvance]
    rw [show t = _ from ht, ← List.append_assoc]
    refine ⟨⟨before ++ gap ++ '!'.toUInt8 :: comment, by simp, rfl⟩, before ++ gap, comment, ?_,
      .inr ⟨⟨rfl, rfl, hcomment⟩, rfl⟩⟩
    have hmark : (∀ b ∈ ofString "!", b.isBlank = false) ∧ ofString "!" ≠ [] := by decide +kernel
    exact standsAt_word rfl hmark.1 hmark.2 (by decide)

/-- Every symbol that is ever given stands at its place, and the calls go on behind it. -/
theorem exists_standsAt (t : Text) (i : Nat) : ∃ before after,
    ((Scanner.mk .start t).call i).1.StandsAt t before after ∧
      (after = ((Scanner.mk .start t).call i).2.rest ∨
        ((Scanner.mk .start t).call i).1.OpensComment after ∧
          ((Scanner.mk .start t).call i).2.rest = []) := by
  have hstart : Reached t ⟨.start, t⟩ := ⟨[], rfl, rfl⟩
  generalize Scanner.mk .start t = s at hstart ⊢
  induction i generalizing s with
  | zero => exact (next_reached hstart).2
  | succ i ih => exact ih _ (next_reached hstart).1

/-! ### The order of symbols -/

theorem atMost_call (s : Scanner) (i : Nat) (h : (s.call i).1.type ≠ .invalid) :
    s.position.AtMost (s.call i).1.position := by
  induction i generalizing s with
  | zero => exact ((atMost_next s).2 h).1
  | succ i ih => exact (atMost_next s).1.trans (ih _ h)

/-- A symbol that is valid stands behind all earlier ones that are. -/
theorem before_call (s : Scanner) {i j : Nat} (hij : i < j) (hi : (s.call i).1.type ≠ .invalid)
    (hend : (s.call i).1.type ≠ .endOfFile) (hj : (s.call j).1.type ≠ .invalid) :
    (s.call i).1.position.Before (s.call j).1.position := by
  obtain ⟨j, rfl⟩ : ∃ k, j = k + 1 := ⟨j - 1, by omega⟩
  induction i generalizing s j with
  | zero => exact (((atMost_next s).2 hi).2 hend).trans_atMost (atMost_call _ j hj)
  | succ i ih =>
    obtain ⟨j, rfl⟩ : ∃ k, j = k + 1 := ⟨j - 1, by omega⟩
    exact ih (next s).2 hi hend j (by omega) hj

end Scanner

/-! ### Carets -/

namespace Diagnostic

/-- The padding has a byte for each character that it stands under. -/
theorem caretPadding_eq (l : Text) (n : Nat) : caretPadding l n =
    (List.range n).map fun k => if l.characters[k]? = some Byte.tab then Byte.tab else Byte.space := by
  fun_induction caretPadding l n with
  | case1 l => rfl
  | case2 n hn => simp [Text.characters]
  | case3 b t n hb ih =>
    have hcharacters : Text.characters (b :: t) = Text.characters t :=
      List.filter_cons_of_neg (by simpa using hb)
    rw [ih, hcharacters]
  | case4 b t n hb ih =>
    have hcharacters : Text.characters (b :: t) = b :: Text.characters t :=
      List.filter_cons_of_pos (by simpa using hb)
    rw [ih, List.range_succ_eq_map, List.map_cons, List.map_map, hcharacters]
    simp [Function.comp_def]

/-- A multibyte character takes one column, and a tab stays one. -/
example : caretPadding [0xC3, 0xA9, Byte.tab, 0x41] 3 = [Byte.space, Byte.tab, Byte.space] := by
  decide

/-- The first line of what is printed. -/
def headline (g : Diagnostic) : Text := render { g with sourceLine := [] }

theorem render_eq {g : Diagnostic} (hline : g.sourceLine ≠ []) (hcolumn : g.position.column ≠ 0) :
    g.render = g.headline ++ (Text.ofString "    " ++ g.sourceLine ++ Text.ofString "\n" ++
      (Text.ofString "    " ++ caretPadding g.sourceLine (g.position.column - 1) ++
        Text.ofString "^\n")) := by
  have hempty : g.sourceLine.isEmpty = false := by simpa using hline
  have hnone : excerpt { g with sourceLine := [] } = [] := rfl
  rw [headline, render, render, hnone, List.append_nil, excerpt, hempty, if_neg hcolumn]
  rfl

end Diagnostic

namespace Definition

/-- The symbols stand where they say, and one behind the other. A diagnostic that shows a line shows
the one in which its symbol stands, with a caret under it. -/
theorem build_places (d : Definition) (names : NameTable) :
    let s : Scanner := ⟨.start, d.text⟩
    (∀ i, ∃ before after, (s.call i).1.StandsAt d.text before after ∧
      (after = (s.call i).2.rest ∨ (s.call i).1.OpensComment after ∧ (s.call i).2.rest = [])) ∧
    (∀ i j, i < j → (s.call i).1.type ≠ .invalid → (s.call i).1.type ≠ .endOfFile →
      (s.call j).1.type ≠ .invalid →
      (s.call i).1.position.Before (s.call j).1.position) ∧
    ∃ built, d.build names = .ok built ∧ ∀ g ∈ built.diagnostics,
      (∃ i, g.position = (s.call i).1.position) ∧
      (g.sourceLine ≠ [] →
        (∃ l, d.text.IsLine g.position.line l ∧ g.sourceLine = l.withoutReturn) ∧
        ∃ padding, g.render = g.headline ++ (Text.ofString "    " ++ g.sourceLine ++
            Text.ofString "\n" ++ (Text.ofString "    " ++ padding ++ Text.ofString "^\n")) ∧
          padding.length = g.position.column - 1 ∧
          ∀ k < padding.length, padding[k]? = some
            (if g.sourceLine.characters[k]? = some Byte.tab then Byte.tab else Byte.space)) := by
  intro s
  refine ⟨Scanner.exists_standsAt d.text, fun i j hij => Scanner.before_call s hij, ?_⟩
  obtain ⟨built, hbuild, hall⟩ := d.exists_mem_reads names
  refine ⟨built, hbuild, fun g hg => ?_⟩
  obtain ⟨x, hx, hposition, hline⟩ := hall g hg
  rw [Scanner.eq_map_call d.reads_prefix] at hx
  obtain ⟨i, -, rfl⟩ := List.mem_map.1 hx
  refine ⟨⟨i, hposition⟩, fun hne => ?_⟩
  obtain ⟨before, after, hstands, -⟩ := Scanner.exists_standsAt d.text i
  have hcolumn : g.position.column ≠ 0 := by
    rw [hposition, hstands.column]
    exact Nat.succ_ne_zero _
  rw [← hposition] at hline
  refine ⟨?_, _, Diagnostic.render_eq hne hcolumn, ?_, fun k hk => ?_⟩
  · rw [hline] at hne ⊢
    exact Text.exists_isLine hne
  · rw [Diagnostic.caretPadding_eq, List.length_map, List.length_range]
  · rw [Diagnostic.caretPadding_eq, List.length_map, List.length_range] at hk
    rw [Diagnostic.caretPadding_eq, List.getElem?_map, List.getElem?_range hk]
    rfl

end Definition

end GateSim
