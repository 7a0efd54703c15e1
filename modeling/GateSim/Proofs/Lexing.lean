import GateSim.Proofs.Rearrange
import GateSim.Proofs.Scan
import GateSim.Proofs.Spelling

/-!
# Texts as gaps and symbols

A text is cut into a gap, a symbol, a gap, a symbol and so on, up to a last gap (`Text.Cuts`). Gaps
are made of blanks and comments, and a symbol is as long as its type allows. Every text can be cut
like this (`Text.exists_cuts`), and in one way only, since a scanner that is set on a text that is
cut comes past the gap and gives the symbol (`Scanner.next_gap`, `Scanner.next_isSymbol`). So the
calls of a scanner give the symbols into which its text is cut (`Scanner.scan_cuts`).
-/

namespace GateSim

namespace Byte

/-- The bytes that are symbols on their own. -/
def marks : List (Byte × SymbolType) :=
  [(','.toUInt8, .comma), (';'.toUInt8, .semicolon), (':'.toUInt8, .colon), ('.'.toUInt8, .dot),
    ('>'.toUInt8, .arrow)]

def startsGap (b : Byte) : Bool := b.isBlank || b == '#'.toUInt8 || b == '!'.toUInt8

/-- The byte starts neither a gap nor a symbol that is valid. -/
def isOther (b : Byte) : Bool :=
  !(b.startsGap || b.isDigit || b.isLetter || marks.any (·.1 == b))

end Byte

namespace Text

/-- Blanks and comments before what comes `after` them. A comment from `#` runs up to the end of its
line, and one from `!` to the next `!`. -/
inductive IsGap (after : Text) : Text → Prop
  | nil : IsGap after []
  | blank {b : Byte} {gap : Text} : b.isBlank = true → IsGap after gap → IsGap after (b :: gap)
  | lineComment {comment gap : Text} : Byte.newline ∉ comment →
      (∀ b ∈ (gap ++ after).head?, b = Byte.newline) → IsGap after gap →
      IsGap after ('#'.toUInt8 :: (comment ++ gap))
  | blockComment {comment gap : Text} : '!'.toUInt8 ∉ comment → IsGap after gap →
      IsGap after ('!'.toUInt8 :: (comment ++ '!'.toUInt8 :: gap))

/-- A piece of a text that is a symbol of a type. It ends where what comes `after` it does not go on
with it. -/
inductive IsSymbol (after : Text) : SymbolType → Text → Prop
  | number {w : Text} : w ≠ [] → (∀ b ∈ w, b.isDigit = true) →
      (∀ b ∈ after.head?, b.isDigit = false) → IsSymbol after .number w
  | word {b : Byte} {w : Text} : b.isLetter = true → (∀ c ∈ w, c.isNameByte = true) →
      (∀ c ∈ after.head?, c.isNameByte = false) →
      IsSymbol after (if isKeyword (b :: w) then .keyword else .name) (b :: w)
  | mark {b : Byte} {type : SymbolType} : (b, type) ∈ Byte.marks → IsSymbol after type [b]
  | other {b : Byte} {w : Text} : b.isOther = true → (∀ c ∈ w, c.isContinuation = true) →
      (∀ c ∈ after.head?, c.isContinuation = false) → IsSymbol after .invalid (b :: w)

/-- The text is the gaps and the symbols one after the other, the last gap included. A comment that
is never closed is one invalid symbol with all that is left. -/
inductive Cuts : Text → List Symbol → Prop
  | gap {gap : Text} : IsGap [] gap → Cuts gap []
  | symbol {gap after : Text} {x : Symbol} {xs : List Symbol} : IsGap (x.text ++ after) gap →
      IsSymbol after x.type x.text → Cuts after xs → Cuts (gap ++ (x.text ++ after)) (x :: xs)
  | openComment {gap comment : Text} {x : Symbol} : IsGap ('!'.toUInt8 :: comment) gap →
      '!'.toUInt8 ∉ comment → x.type = .invalid → x.text = ofString "!" →
      Cuts (gap ++ '!'.toUInt8 :: comment) [x]

/-! ### Every text can be cut -/

/-- The longest piece of a class at the start of a text. -/
theorem exists_longest (p : Byte → Bool) (t : Text) : ∃ w after, t = w ++ after ∧
    (∀ c ∈ w, p c = true) ∧ ∀ c ∈ after.head?, p c = false := by
  refine ⟨t.takeWhile p, t.dropWhile p, List.takeWhile_append_dropWhile.symm,
    List.all_eq_true.1 List.all_takeWhile, fun c hc => ?_⟩
  have hhead := List.head?_dropWhile_not p t
  rwa [Option.mem_def.1 hc] at hhead

/-- A text starts with a gap that is followed by a symbol, by a comment that is never closed, or by
nothing. -/
theorem exists_isGap (t : Text) : ∃ gap after, t = gap ++ after ∧ IsGap after gap ∧
    ((∀ b ∈ after.head?, b.startsGap = false) ∨
      ∃ comment, after = '!'.toUInt8 :: comment ∧ '!'.toUInt8 ∉ comment) := by
  induction hn : t.length using Nat.strong_induction_on generalizing t with
  | _ n ih =>
  subst hn
  cases t with
  | nil => exact ⟨[], [], rfl, .nil, .inl (by simp)⟩
  | cons b t =>
    by_cases hblank : b.isBlank = true
    · obtain ⟨gap, after, rfl, hgap, hafter⟩ := ih t.length (by simp) t rfl
      exact ⟨b :: gap, after, rfl, .blank hblank hgap, hafter⟩
    by_cases hline : b = '#'.toUInt8
    · subst hline
      obtain ⟨comment, u, rfl, hcomment, hu⟩ := exists_longest (· != Byte.newline) t
      have hlt : u.length < ('#'.toUInt8 :: (comment ++ u)).length := by
        simp only [List.length_cons, List.length_append]
        omega
      obtain ⟨gap, after, rfl, hgap, hafter⟩ := ih u.length hlt u rfl
      refine ⟨'#'.toUInt8 :: (comment ++ gap), after, by simp, .lineComment ?_ ?_ hgap, hafter⟩
      · exact fun hmem => by simpa using hcomment _ hmem
      · exact fun c hc => by simpa using hu c hc
    by_cases hblock : b = '!'.toUInt8
    · subst hblock
      by_cases hclosed : '!'.toUInt8 ∈ t
      · obtain ⟨comment, u, rfl, hcomment⟩ := List.eq_append_cons_of_mem hclosed
        have hlt : u.length < ('!'.toUInt8 :: (comment ++ '!'.toUInt8 :: u)).length := by
          simp only [List.length_cons, List.length_append]
          omega
        obtain ⟨gap, after, rfl, hgap, hafter⟩ := ih u.length hlt u rfl
        exact ⟨'!'.toUInt8 :: (comment ++ '!'.toUInt8 :: gap), after, by simp,
          .blockComment hcomment hgap, hafter⟩
      · exact ⟨[], _, rfl, .nil, .inr ⟨t, rfl, hclosed⟩⟩
    · refine ⟨[], b :: t, rfl, .nil, .inl ?_⟩
      simp [Byte.startsGap, hblank, hline, hblock]

/-- A byte that does not start a gap starts a symbol. -/
theorem exists_isSymbol {b : Byte} (h : b.startsGap = false) (t : Text) : ∃ type w after,
    b :: t = (b :: w) ++ after ∧ IsSymbol after type (b :: w) := by
  by_cases hdigit : b.isDigit = true
  · obtain ⟨w, after, rfl, hw, hafter⟩ := exists_longest Byte.isDigit t
    exact ⟨_, w, after, rfl, .number (by simp) (List.forall_mem_cons.2 ⟨hdigit, hw⟩) hafter⟩
  by_cases hletter : b.isLetter = true
  · obtain ⟨w, after, rfl, hw, hafter⟩ := exists_longest Byte.isNameByte t
    exact ⟨_, w, after, rfl, .word hletter hw hafter⟩
  by_cases hmark : (Byte.marks.any (·.1 == b)) = true
  · obtain ⟨⟨c, type⟩, hmem, hc⟩ := List.any_eq_true.1 hmark
    obtain rfl : c = b := eq_of_beq hc
    exact ⟨type, [], t, rfl, .mark hmem⟩
  · obtain ⟨w, after, rfl, hw, hafter⟩ := exists_longest Byte.isContinuation t
    exact ⟨_, w, after, rfl, .other (by simp [Byte.isOther, h, hdigit, hletter, hmark]) hw hafter⟩

theorem exists_cuts (t : Text) : ∃ xs, Cuts t xs := by
  induction hn : t.length using Nat.strong_induction_on generalizing t with
  | _ n ih =>
  subst hn
  obtain ⟨gap, after, rfl, hgap, hstart | ⟨comment, rfl, hcomment⟩⟩ := exists_isGap t
  · cases after with
    | nil =>
      rw [List.append_nil]
      exact ⟨[], .gap hgap⟩
    | cons b t =>
      obtain ⟨type, w, after, heq, hsymbol⟩ := exists_isSymbol (hstart b rfl) t
      rw [heq] at hgap ih ⊢
      have hlt : after.length < (gap ++ ((b :: w) ++ after)).length := by
        simp only [List.length_cons, List.length_append]
        omega
      obtain ⟨xs, hxs⟩ := ih after.length hlt after rfl
      exact ⟨_, Cuts.symbol (x := ⟨type, b :: w, .start⟩) hgap hsymbol hxs⟩
  · exact ⟨[⟨.invalid, ofString "!", .start⟩], .openComment hgap hcomment rfl rfl⟩

variable {t after gap w : Text} {type : SymbolType} {xs ys : List Symbol}

theorem IsSymbol.ne_nil (h : IsSymbol after type w) : w ≠ [] := by
  cases h with
  | number hne => exact hne
  | _ => simp

theorem IsSymbol.ne_endOfFile (h : IsSymbol after type w) : type ≠ .endOfFile := by
  cases h with
  | word => split <;> simp
  | mark hmem =>
    rintro rfl
    simp [Byte.marks] at hmem
  | _ => simp

/-- Each symbol takes a byte at least. -/
theorem Cuts.length_le (h : Cuts t xs) : xs.length ≤ t.length := by
  induction h with
  | gap => simp
  | symbol _ hsymbol _ ih =>
    have := List.length_pos_iff.2 hsymbol.ne_nil
    simp only [List.length_cons, List.length_append]
    omega
  | openComment =>
    simp only [List.length_cons, List.length_nil, List.length_append]
    omega

/-- Places do not matter. -/
theorem Cuts.of_placeless (h : Cuts t xs)
    (heq : ys.map Symbol.placeless = xs.map Symbol.placeless) : Cuts t ys := by
  induction h generalizing ys with
  | gap hgap =>
    obtain rfl := List.map_eq_nil_iff.1 heq
    exact .gap hgap
  | symbol hgap hsymbol _ ih =>
    obtain ⟨y, ys, rfl, hy, hys⟩ := List.map_eq_cons_iff.1 heq
    obtain ⟨htype, htext, -⟩ := Symbol.mk.injEq .. |>.mp hy
    rw [← htype, ← htext] at hsymbol
    rw [← htext] at hgap ⊢
    exact .symbol hgap hsymbol (ih hys)
  | openComment hgap hcomment hinvalid htext' =>
    obtain ⟨y, ys, rfl, hy, hys⟩ := List.map_eq_cons_iff.1 heq
    obtain rfl := List.map_eq_nil_iff.1 hys
    obtain ⟨htype, htext, -⟩ := Symbol.mk.injEq .. |>.mp hy
    exact .openComment hgap hcomment (htype.trans hinvalid) (htext.trans htext')

end Text

namespace Scanner
open Text
variable {after gap w : Text} {type : SymbolType} {p : Position}

/-! ### Past gaps -/

theorem skip_lineComment {comment : Text} (hcomment : Byte.newline ∉ comment)
    (hafter : ∀ b ∈ after.head?, b = Byte.newline) (p : Position) :
    skip .lineComment p (comment ++ after) = skip .blank (p.advance comment) after := by
  induction comment generalizing p with
  | nil =>
    cases after with
    | nil => rfl
    | cons b t =>
      obtain rfl := hafter b rfl
      rfl
  | cons b comment ih =>
    obtain ⟨hb, hcomment⟩ := not_or.1 (mt List.mem_cons.2 hcomment)
    rw [List.cons_append, skip, if_neg (Ne.symm hb)]
    exact ih hcomment (p.after b)

theorem skip_blockComment {comment : Text} (hcomment : '!'.toUInt8 ∉ comment)
    (opened p : Position) (after : Text) :
    skip (.blockComment opened) p (comment ++ '!'.toUInt8 :: after) =
      skip .blank (p.advance (comment ++ ['!'.toUInt8])) after := by
  induction comment generalizing p with
  | nil => rfl
  | cons b comment ih =>
    obtain ⟨hb, hcomment⟩ := not_or.1 (mt List.mem_cons.2 hcomment)
    rw [List.cons_append, skip, if_neg (Ne.symm hb)]
    exact ih hcomment (p.after b)

theorem skip_openComment {comment : Text} (hcomment : '!'.toUInt8 ∉ comment)
    (opened p : Position) :
    skip (.blockComment opened) p comment = (some opened, ⟨p.advance comment, []⟩) := by
  induction comment generalizing p with
  | nil => rfl
  | cons b comment ih =>
    obtain ⟨hb, hcomment⟩ := not_or.1 (mt List.mem_cons.2 hcomment)
    rw [skip, if_neg (Ne.symm hb)]
    exact ih hcomment (p.after b)

theorem skip_gap (h : IsGap after gap) (p : Position) :
    skip .blank p (gap ++ after) = skip .blank (p.advance gap) after := by
  induction h generalizing p with
  | nil => rfl
  | blank hb _ ih =>
    rw [List.cons_append, skip, if_pos hb]
    exact ih _
  | @lineComment comment gap hcomment hend _ ih =>
    have hskip : skip .blank p ('#'.toUInt8 :: (comment ++ (gap ++ after))) =
        skip .lineComment (p.after '#'.toUInt8) (comment ++ (gap ++ after)) := rfl
    rw [List.cons_append, List.append_assoc, hskip, skip_lineComment hcomment hend, ih]
    simp only [Position.advance, List.foldl_cons, List.foldl_append]
  | @blockComment comment gap hcomment _ ih =>
    have hskip : skip .blank p ('!'.toUInt8 :: (comment ++ '!'.toUInt8 :: (gap ++ after))) =
        skip (.blockComment p) (p.after '!'.toUInt8)
          (comment ++ '!'.toUInt8 :: (gap ++ after)) := rfl
    rw [List.cons_append, List.append_assoc, List.cons_append, hskip,
      skip_blockComment hcomment, ih]
    simp only [Position.advance, List.foldl_cons, List.foldl_append, List.foldl_nil]

/-- A scanner comes past a gap. -/
theorem next_gap (h : IsGap after gap) (p : Position) :
    next ⟨p, gap ++ after⟩ = next ⟨p.advance gap, after⟩ := by
  unfold next
  dsimp only
  rw [skip_gap h]

theorem next_openComment {comment : Text} (hcomment : '!'.toUInt8 ∉ comment) (p : Position) :
    next ⟨p, '!'.toUInt8 :: comment⟩ =
      (⟨.invalid, ofString "!", p⟩, ⟨p.advance ('!'.toUInt8 :: comment), []⟩) := by
  have hskip : skip .blank p ('!'.toUInt8 :: comment) =
      skip (.blockComment p) (p.after '!'.toUInt8) comment := rfl
  unfold next
  dsimp only
  rw [hskip, skip_openComment hcomment]
  rfl

/-! ### Symbols -/

theorem next_word {b : Byte} (hb : b.startsGap = false)
    (hw : ∀ c ∈ w, continues (typeOf b) c = true)
    (hafter : ∀ c ∈ after.head?, continues (typeOf b) c = false) (p : Position) :
    next ⟨p, b :: (w ++ after)⟩ =
      (⟨finalType (typeOf b) (b :: w), b :: w, p⟩, ⟨p.advance (b :: w), after⟩) := by
  have hskip : skip .blank p (b :: (w ++ after)) = (none, ⟨p, b :: (w ++ after)⟩) := by
    simp only [Byte.startsGap, Bool.or_eq_false_iff, beq_eq_false_iff_ne] at hb
    obtain ⟨⟨hblank, hline⟩, hblock⟩ := hb
    rw [skip, if_neg (Bool.eq_false_iff.1 hblank), if_neg hline, if_neg hblock]
  obtain ⟨htake, hdrop⟩ := takeWhile_dropWhile_append hw hafter
  rw [next_of_skip hskip, word, htake, hdrop]

/-- What a byte that does not start a gap is taken for. -/
theorem typeOf_eq (b : Byte) :
    (b.isDigit = true → b.startsGap = false ∧ typeOf b = .number) ∧
    (b.isLetter = true → b.startsGap = false ∧ typeOf b = .name) ∧
    (∀ type, (b, type) ∈ Byte.marks → b.startsGap = false ∧ typeOf b = type) ∧
    (b.isOther = true → b.startsGap = false ∧ typeOf b = .invalid) := by
  have hall : ∀ v : Fin 256,
      (Byte.isDigit (UInt8.ofFin v) = true →
        Byte.startsGap (UInt8.ofFin v) = false ∧ typeOf (UInt8.ofFin v) = .number) ∧
      (Byte.isLetter (UInt8.ofFin v) = true →
        Byte.startsGap (UInt8.ofFin v) = false ∧ typeOf (UInt8.ofFin v) = .name) ∧
      (∀ m ∈ Byte.marks, m.1 = UInt8.ofFin v →
        Byte.startsGap (UInt8.ofFin v) = false ∧ typeOf (UInt8.ofFin v) = m.2) ∧
      (Byte.isOther (UInt8.ofFin v) = true →
        Byte.startsGap (UInt8.ofFin v) = false ∧ typeOf (UInt8.ofFin v) = .invalid) := by
    decide +kernel
  obtain ⟨hdigit, hletter, hmark, hother⟩ := hall b.toFin
  exact ⟨hdigit, hletter, fun type hmem => hmark _ hmem rfl, hother⟩

theorem next_isSymbol (h : IsSymbol after type w) (p : Position) :
    next ⟨p, w ++ after⟩ = (⟨type, w, p⟩, ⟨p.advance w, after⟩) := by
  cases h with
  | number hne hw hafter =>
    obtain ⟨b, w, rfl⟩ := List.exists_cons_of_ne_nil hne
    obtain ⟨hdigit, hw⟩ := List.forall_mem_cons.1 hw
    obtain ⟨hstart, htype⟩ := (typeOf_eq b).1 hdigit
    have hnext : next ⟨p, b :: (w ++ after)⟩ = _ :=
      next_word hstart (by rwa [htype]) (by rwa [htype]) p
    rwa [htype] at hnext
  | @word b w hletter hw hafter =>
    obtain ⟨hstart, htype⟩ := (typeOf_eq b).2.1 hletter
    have hnext : next ⟨p, b :: (w ++ after)⟩ = _ :=
      next_word hstart (by rwa [htype]) (by rwa [htype]) p
    rw [htype] at hnext
    simp only [finalType, true_and] at hnext
    exact hnext
  | @mark b _ hmem =>
    obtain ⟨hstart, htype⟩ := (typeOf_eq b).2.2.1 type hmem
    have hmarks : ∀ m ∈ Byte.marks, continues m.2 = (fun _ => false) ∧ m.2 ≠ .name := by
      simp [Byte.marks, continues]
    obtain ⟨hcontinues, hname⟩ := hmarks _ hmem
    have hnext : next ⟨p, b :: ([] ++ after)⟩ = _ :=
      next_word hstart (by simp) (by rw [htype, hcontinues]; simp) p
    rw [htype] at hnext
    simpa [finalType, hname] using hnext
  | @other b w hother hw hafter =>
    obtain ⟨hstart, htype⟩ := (typeOf_eq b).2.2.2 hother
    have hnext : next ⟨p, b :: (w ++ after)⟩ = _ :=
      next_word hstart (by rwa [htype]) (by rwa [htype]) p
    rwa [htype] at hnext

/-- There is one way only to cut a text. -/
theorem map_placeless_symbols {t : Text} {xs : List Symbol} (h : Cuts t xs) (p : Position) :
    (symbols ⟨p, t⟩).1.map Symbol.placeless = xs.map Symbol.placeless := by
  induction h generalizing p with
  | @gap gap hgap =>
    have hnext := next_gap hgap p
    rw [List.append_nil, next_of_end] at hnext
    rw [symbols_of_endOfFile (by rw [hnext])]
  | @symbol gap after x xs hgap hsymbol _ ih =>
    have hnext := next_gap hgap p
    rw [next_isSymbol hsymbol] at hnext
    rw [symbols_of_next hnext hsymbol.ne_endOfFile, List.map_cons, List.map_cons, ih]
    rfl
  | @openComment gap comment x hgap hcomment htype htext =>
    have hnext := next_gap hgap p
    rw [next_openComment hcomment] at hnext
    rw [symbols_of_next hnext (by simp), symbols_of_endOfFile (by rw [next_of_end])]
    simp [Symbol.placeless, htype, htext]

theorem cuts_iff {t : Text} {xs : List Symbol} {p : Position} : Cuts t xs ↔
    xs.map Symbol.placeless = (symbols ⟨p, t⟩).1.map Symbol.placeless := by
  refine ⟨fun h => (map_placeless_symbols h p).symm, fun h => ?_⟩
  obtain ⟨ys, hys⟩ := exists_cuts t
  exact hys.of_placeless (h.trans (map_placeless_symbols hys p))

/-! ### Calls -/

/-- The symbol that a call gives and the scanner that it leaves; the first call is number 0. -/
def call : Scanner → Nat → Symbol × Scanner
  | s, 0 => next s
  | s, i + 1 => call (next s).2 i

/-- The names that are known after so many calls: the keywords are seen first, and each call sees
the symbol that it gives. -/
def seen (s : Scanner) (names : NameTable) (n : Nat) : NameTable :=
  names.insertKeywords.insertSymbols ((List.range n).map fun i => (s.call i).1)

variable {s : Scanner} {names : NameTable}

theorem call_of_endOfFile (h : (next s).1.type = .endOfFile) (i : Nat) : s.call i = next s := by
  induction i generalizing s with
  | zero => rfl
  | succ i ih =>
    rcases next_cases s with ⟨opened, s', -, heq⟩ | ⟨p, -, heq⟩ | ⟨p, b, t, -, heq⟩ <;>
      rw [heq] at h
    · cases h
    · rw [call, heq]
      exact ih rfl
    · exact absurd (eq_of_finalType h (by decide)) (typeOf_ne_endOfFile b)

/-- The calls give the symbols, and then the end of file over and over. -/
theorem call_symbols (s : Scanner) :
    ((List.range (symbols s).1.length).map fun i => (s.call i).1) = (symbols s).1 ∧
      (s.call (symbols s).1.length).1 = (symbols s).2 ∧
      ∀ i ≥ (symbols s).1.length, s.call i = s.call (symbols s).1.length := by
  fun_induction symbols s with
  | case1 s x s' hs hend =>
    have hnext : (next s).1.type = .endOfFile := by rwa [hs]
    refine ⟨rfl, ?_, fun i _ => ?_⟩
    · show (next s).1 = x
      rw [hs]
    · rw [call_of_endOfFile hnext, call_of_endOfFile hnext]
  | case2 s x s' hs hend rest last hrest ih =>
    rw [hrest] at ih
    obtain ⟨hgiven, hlast, hstays⟩ := ih
    have hcall : ∀ i, s.call (i + 1) = s'.call i := fun i => by rw [call, hs]
    have hfirst : (s.call 0).1 = x := by rw [call, hs]
    refine ⟨?_, ?_, fun i hi => ?_⟩
    · rw [List.length_cons, List.range_succ_eq_map, List.map_cons, List.map_map, hfirst]
      simp only [Function.comp_def, Nat.succ_eq_add_one, hcall, hgiven]
    · rw [List.length_cons, hcall, hlast]
    · obtain ⟨i, rfl⟩ : ∃ j, i = j + 1 := ⟨i - 1, by rw [List.length_cons] at hi; omega⟩
      rw [List.length_cons, hcall, hcall]
      exact hstays i (by simpa using hi)

theorem seen_succ (s : Scanner) (names : NameTable) (n : Nat) :
    s.seen names (n + 1) = (s.seen names n).insertSymbols [(s.call n).1] := by
  rw [seen, seen, List.range_succ, List.map_append, NameTable.insertSymbols_append]
  rfl

/-- The id that a call gives to a text stands for it ever after. -/
theorem text?_seen {i m : Nat} (hm : i < m) (h : (s.call i).1.type.isNamed = true) :
    (s.seen names m).text? ((s.call i).1.id (s.seen names (i + 1))) = some (s.call i).1.text := by
  have hkept : (s.call i).1.text ∈ (s.seen names m).texts ∧
      (s.seen names m).idOf (s.call i).1.text =
        (s.seen names (i + 1)).idOf (s.call i).1.text := by
    induction m, hm using Nat.le_induction with
    | base =>
      rw [seen_succ, NameTable.mem_insertSymbols]
      exact ⟨.inr ⟨_, List.mem_singleton.2 rfl, h, rfl⟩, rfl⟩
    | succ m _ ih =>
      rw [seen_succ s names m, NameTable.mem_insertSymbols]
      exact ⟨.inl ih.1, (NameTable.idOf_insertAll _ ih.1).trans ih.2⟩
  rw [Symbol.id, if_pos h, ← hkept.2]
  exact NameTable.text?_idOf hkept.1

/-- Calls past the end see no name. -/
theorem seen_of_endOfFile {n i : Nat} (hi : n ≤ i) (h : ∀ j ≥ n, (s.call j).1.type = .endOfFile) :
    s.seen names i = s.seen names n := by
  induction i, hi using Nat.le_induction with
  | base => rfl
  | succ i hi ih =>
    rw [seen_succ, NameTable.insertSymbols_eq_self, ih]
    intro x hx hnamed
    rw [List.mem_singleton.1 hx, h i hi] at hnamed
    cases hnamed

/-- Scanning a text loses nothing: the symbols that the calls give before the end of file, at most
one for each byte, are those into which the text can be cut, and it can be cut into no others. From
the end of file on every call gives the same and changes nothing. The id of each keyword, name and
number stands for its text from then on. -/
theorem scan_cuts (t : Text) (names : NameTable) :
    let s : Scanner := ⟨.start, t⟩
    ∃ n ≤ t.length, t.symbols = ((List.range n).map fun i => (s.call i).1, (s.call n).1) ∧
      (∀ i < n, (s.call i).1.type ≠ .endOfFile) ∧ (s.call n).1.type = .endOfFile ∧
      (∀ xs, Cuts t xs ↔ xs.map Symbol.placeless = t.symbols.1.map Symbol.placeless) ∧
      (∀ i ≥ n, s.call i = s.call n ∧ s.seen names i = s.seen names n) ∧
      ∀ i m, i < m → (s.call i).1.type.isNamed = true →
        (s.seen names m).text? ((s.call i).1.id (s.seen names (i + 1))) =
          some (s.call i).1.text := by
  intro s
  obtain ⟨hgiven, hlast, hstays⟩ := call_symbols s
  have hend : (s.call (symbols s).1.length).1.type = .endOfFile := hlast ▸ type_last s
  have hcuts : Cuts t (symbols s).1 := cuts_iff.2 rfl
  refine ⟨(symbols s).1.length, hcuts.length_le, ?_, fun i hi => ?_, hend, fun xs => cuts_iff,
    fun i hi => ⟨hstays i hi, seen_of_endOfFile hi fun j hj => by rwa [hstays j hj]⟩,
    fun i m hm => text?_seen hm⟩
  · rw [hgiven, hlast]
    rfl
  · refine type_ne_endOfFile s _ ?_
    rw [← hgiven]
    exact List.mem_map.2 ⟨i, List.mem_range.2 hi, rfl⟩

/-- A line comment with a mark of block comments in it, an empty block comment, and one that is
never closed. -/
example : (Text.symbols (ofString "A1.Q#!\n!!12x! ")).1.map Symbol.text =
    ["A1", ".", "Q", "12", "x", "!"].map ofString := by
  decide +kernel

end Scanner

end GateSim
