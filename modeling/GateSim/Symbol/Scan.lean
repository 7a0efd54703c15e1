import GateSim.Symbol

/-!
# Scanning

`Scanner.next` cuts one symbol off a text, past the blanks and comments before it, and takes the
longest piece of its type. A comment runs from `#` to the end of the line or from `!` to the next
`!`. At the end of the text every further symbol is the same end of file (`next_of_end`); before
it, each call leaves less to read (`length_rest_next_lt`).
-/

namespace GateSim

/-- What is still to be read, and the place where it starts. -/
structure Scanner where
  position : Position
  rest : Text
  deriving DecidableEq

namespace Scanner

/-- What the bytes between two symbols belong to. -/
inductive Gap
  | blank
  | lineComment
  | blockComment (opened : Position)

/-- Passes over blanks and comments. Gives the place of a block comment that is never closed, and
where reading goes on. -/
def skip : Gap → Position → Text → Option Position × Scanner
  | .blockComment opened, p, [] => (some opened, ⟨p, []⟩)
  | .blank, p, [] | .lineComment, p, [] => (none, ⟨p, []⟩)
  | .blank, p, b :: t =>
    if b.isBlank then skip .blank (p.after b) t
    else if b = '#'.toUInt8 then skip .lineComment (p.after b) t
    else if b = '!'.toUInt8 then skip (.blockComment p) (p.after b) t
    else (none, ⟨p, b :: t⟩)
  | .lineComment, p, b :: t =>
    skip (if b = Byte.newline then .blank else .lineComment) (p.after b) t
  | .blockComment opened, p, b :: t =>
    skip (if b = '!'.toUInt8 then .blank else .blockComment opened) (p.after b) t

/-- The type of the symbol that starts with a byte; a name may turn out to be a keyword. -/
def typeOf (b : Byte) : SymbolType :=
  if b = ','.toUInt8 then .comma
  else if b = ';'.toUInt8 then .semicolon
  else if b = ':'.toUInt8 then .colon
  else if b = '.'.toUInt8 then .dot
  else if b = '>'.toUInt8 then .arrow
  else if b.isDigit then .number
  else if b.isLetter then .name
  else .invalid

/-- The bytes that go on with a symbol of a type. -/
def continues : SymbolType → Byte → Bool
  | .number => Byte.isDigit
  | .name => Byte.isNameByte
  | .invalid => Byte.isContinuation
  | _ => fun _ => false

/-- The next symbol, and what is left after it. A comment that is never closed is one invalid
symbol, at the place where it was opened. -/
def next (s : Scanner) : Symbol × Scanner :=
  match skip .blank s.position s.rest with
  | (some opened, s) => (⟨.invalid, .ofString "!", opened⟩, s)
  | (none, ⟨p, []⟩) => (⟨.endOfFile, [], p⟩, ⟨p, []⟩)
  | (none, ⟨p, b :: t⟩) =>
    let type := typeOf b
    let text := b :: t.takeWhile (continues type)
    (⟨if type = .name ∧ isKeyword text then .keyword else type, text, p⟩,
      ⟨p.advance text, t.dropWhile (continues type)⟩)

theorem length_skip_le (g : Gap) (p : Position) (t : Text) :
    (skip g p t).2.rest.length ≤ t.length := by
  fun_induction skip g p t <;> simp_all <;> omega

theorem eq_nil_of_skip_eq_some {g : Gap} {p opened : Position} {t : Text} {s : Scanner}
    (h : skip g p t = (some opened, s)) : s.rest = [] := by
  fun_induction skip g p t <;> grind

theorem skip_blank_nil (p : Position) : skip .blank p [] = (none, ⟨p, []⟩) := rfl

/-- Nothing comes after the end of file. -/
theorem next_of_end (p : Position) : next ⟨p, []⟩ = (⟨.endOfFile, [], p⟩, ⟨p, []⟩) := rfl

/-- A symbol before the end of file leaves less to read. -/
theorem length_rest_next_lt {s : Scanner} (h : (next s).1.type ≠ .endOfFile) :
    (next s).2.rest.length < s.rest.length := by
  have hle := length_skip_le .blank s.position s.rest
  unfold next at h ⊢
  split at h
  · next opened s' heq =>
    simp only [eq_nil_of_skip_eq_some heq, List.length_nil]
    cases hr : s.rest with
    | nil => rw [hr, skip_blank_nil] at heq; simp at heq
    | cons b t => simp
  · simp at h
  · next p b t heq =>
    simp only [heq, List.length_cons] at hle ⊢
    have := (List.dropWhile_sublist (continues (typeOf b)) (l := t)).length_le
    omega

/-- The symbols before the end of file, and the end of file. -/
def symbols (s : Scanner) : List Symbol × Symbol :=
  match _hs : next s with
  | (symbol, s') =>
    if symbol.type = .endOfFile then ([], symbol)
    else
      let (rest, last) := symbols s'
      (symbol :: rest, last)
termination_by s.rest.length
decreasing_by
  have := length_rest_next_lt (s := s)
  rw [_hs] at this
  exact this ‹_›

end Scanner

namespace Text

/-- The symbols of a text before its end, and its end. -/
def symbols (t : Text) : List Symbol × Symbol := Scanner.symbols ⟨Position.start, t⟩

/-- A line by its number, without a carriage return at its end; empty if there is none. -/
def line (t : Text) : Nat → Text
  | 0 => []
  | n + 1 =>
    let l := (t.lines[n]?).getD []
    if l.getLast? = some Byte.carriageReturn then l.dropLast else l

end Text

end GateSim
