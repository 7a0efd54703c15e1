import GateSim.Symbol.Scan

/-!
# How symbols are written

The first byte of a symbol settles its type and what it goes on with (`Scanner.Spells`). Every symbol
is written like this, but for the end of file and for a comment that is never closed
(`Scanner.next_cases`, `Scanner.spells_next`).
-/

namespace GateSim

/-- A letter, then letters, digits and underscores, but no keyword. -/
def Text.isName : Text → Bool
  | [] => false
  | b :: t => b.isLetter && t.all Byte.isNameByte && !isKeyword (b :: t)

theorem Text.isNameByte_of_isName {t : Text} (h : t.isName = true) :
    ∀ b ∈ t, b.isNameByte = true := by
  cases t with
  | nil => cases h
  | cons b t =>
    simp only [isName, Bool.and_eq_true, List.all_eq_true] at h
    exact List.forall_mem_cons.2 ⟨by simp [Byte.isNameByte, h.1.1], h.1.2⟩

namespace Scanner
variable {b : Byte} {w : Text} {type : SymbolType} {s : Scanner}

/-! ### First bytes -/

theorem isDigit_of_typeOf (h : typeOf b = .number) : b.isDigit = true := by
  unfold typeOf at h
  repeat' split at h
  all_goals first | assumption | cases h

theorem isLetter_of_typeOf (h : typeOf b = .name) : b.isLetter = true := by
  unfold typeOf at h
  repeat' split at h
  all_goals first | assumption | cases h

theorem typeOf_of_isLetter (h : b.isLetter = true) : typeOf b = .name := by
  have hall : ∀ v : Fin 256, Byte.isLetter (UInt8.ofFin v) = true →
      typeOf (UInt8.ofFin v) = .name := by
    decide +kernel
  exact hall b.toFin h

theorem eq_of_typeOf (b : Byte) : (typeOf b = .comma → b = ','.toUInt8) ∧
    (typeOf b = .colon → b = ':'.toUInt8) ∧ (typeOf b = .semicolon → b = ';'.toUInt8) := by
  unfold typeOf
  repeat' split
  all_goals simp_all

theorem typeOf_ne_endOfFile (b : Byte) : typeOf b ≠ .endOfFile := by
  unfold typeOf
  repeat' split
  all_goals exact SymbolType.noConfusion

/-! ### Words -/

/-- What a symbol of a type is written as. -/
def Spells (type : SymbolType) (w : Text) : Prop :=
  ∃ b t, w = b :: t ∧ typeOf b = type ∧ ∀ c ∈ t, continues type c = true

/-- The type of a word: that of its first byte, unless it is a keyword. -/
def finalType (type : SymbolType) (w : Text) : SymbolType :=
  if type = .name ∧ isKeyword w then .keyword else type

theorem eq_of_finalType {type' : SymbolType} (h : finalType type w = type')
    (hkeyword : type' ≠ .keyword) : type = type' := by
  unfold finalType at h
  split at h
  · exact absurd h.symm hkeyword
  · exact h

/-- Names are the words that start with a letter and are no keywords. -/
theorem isName_iff : w.isName = true ↔ Spells .name w ∧ finalType .name w = .name := by
  constructor
  · intro h
    cases w with
    | nil => cases h
    | cons b t =>
      simp only [Text.isName, Bool.and_eq_true, List.all_eq_true, Bool.not_eq_true'] at h
      obtain ⟨⟨hletter, hbytes⟩, hkeyword⟩ := h
      exact ⟨⟨b, t, rfl, typeOf_of_isLetter hletter, hbytes⟩, by simp [finalType, hkeyword]⟩
  · rintro ⟨⟨b, t, rfl, hb, ht⟩, hfinal⟩
    have hkeyword : isKeyword (b :: t) = false := Bool.eq_false_iff.2 fun hkeyword => by
      rw [finalType, if_pos ⟨rfl, hkeyword⟩] at hfinal
      cases hfinal
    have hbytes : t.all Byte.isNameByte = true := List.all_eq_true.2 ht
    rw [Text.isName, isLetter_of_typeOf hb, hbytes, hkeyword]
    rfl

/-- The symbol that starts with a byte, and what is left after it. -/
def word (p : Position) (b : Byte) (t : Text) : Symbol × Scanner :=
  let text := b :: t.takeWhile (continues (typeOf b))
  (⟨finalType (typeOf b) text, text, p⟩, ⟨p.advance text, t.dropWhile (continues (typeOf b))⟩)

theorem spells_word (p : Position) (b : Byte) (t : Text) :
    Spells (typeOf b) (word p b t).1.text :=
  ⟨b, _, rfl, rfl, fun c hc => List.all_eq_true.1 List.all_takeWhile c hc⟩

/-- A piece ends where nothing goes on with it. -/
theorem takeWhile_dropWhile_append {p : Byte → Bool} {t tail : Text} (ht : ∀ c ∈ t, p c = true)
    (htail : ∀ c ∈ tail.head?, p c = false) :
    (t ++ tail).takeWhile p = t ∧ (t ++ tail).dropWhile p = tail := by
  rw [List.takeWhile_append_of_pos ht, List.dropWhile_append_of_pos ht]
  cases tail with
  | nil => exact ⟨List.append_nil t, rfl⟩
  | cons c tail =>
    have hc : ¬ p c = true := Bool.eq_false_iff.1 (htail c rfl)
    rw [List.takeWhile_cons_of_neg hc, List.dropWhile_cons_of_neg hc]
    exact ⟨List.append_nil t, rfl⟩

theorem next_of_skip {p q : Position} {t u : Text} (h : skip .blank q t = (none, ⟨p, b :: u⟩)) :
    next ⟨q, t⟩ = word p b u := by
  unfold next
  dsimp only
  rw [h]
  rfl

theorem next_cases (s : Scanner) :
    (∃ opened s', skip .blank s.position s.rest = (some opened, s') ∧
        next s = (⟨.invalid, .ofString "!", opened⟩, s')) ∨
      (∃ p, skip .blank s.position s.rest = (none, ⟨p, []⟩) ∧
        next s = (⟨.endOfFile, [], p⟩, ⟨p, []⟩)) ∨
      ∃ p b t, skip .blank s.position s.rest = (none, ⟨p, b :: t⟩) ∧ next s = word p b t := by
  rcases h : skip .blank s.position s.rest with ⟨_ | opened, p, _ | ⟨b, t⟩⟩
  · exact .inr (.inl ⟨p, rfl, by simp only [next, h]⟩)
  · exact .inr (.inr ⟨p, b, t, rfl, next_of_skip h⟩)
  · exact .inl ⟨opened, _, rfl, by simp only [next, h]⟩
  · exact .inl ⟨opened, _, rfl, by simp only [next, h]⟩

/-- A symbol is written as its type tells. -/
theorem spells_next (h : (next s).1.type = type)
    (htype : type ∉ [SymbolType.invalid, .endOfFile, .keyword]) :
    Spells type (next s).1.text ∧ finalType type (next s).1.text = type := by
  subst h
  simp only [List.mem_cons, List.not_mem_nil, or_false, not_or] at htype
  obtain ⟨hinvalid, hend, hkeyword⟩ := htype
  rcases next_cases s with ⟨opened, s', -, heq⟩ | ⟨p, -, heq⟩ | ⟨p, b, t, -, heq⟩ <;>
    rw [heq] at hinvalid hend hkeyword ⊢
  · exact absurd rfl hinvalid
  · exact absurd rfl hend
  · have hb : typeOf b = (word p b t).1.type := eq_of_finalType rfl hkeyword
    rw [← hb]
    exact ⟨spells_word p b t, hb.symm⟩

theorem isName_next (h : (next s).1.type = .name) : (next s).1.text.isName = true :=
  isName_iff.2 (spells_next h (by decide))

theorem text_next_of_endOfFile (h : (next s).1.type = .endOfFile) : (next s).1.text = [] := by
  rcases next_cases s with ⟨opened, s', -, heq⟩ | ⟨p, -, heq⟩ | ⟨p, b, t, -, heq⟩ <;>
    rw [heq] at h ⊢
  · cases h
  · exact absurd (eq_of_finalType h (by decide)) (typeOf_ne_endOfFile b)

/-! ### Symbols of a text -/

theorem symbols_of_endOfFile (h : (next s).1.type = .endOfFile) : (symbols s).1 = [] := by
  rw [symbols]
  split
  next hs =>
  rw [hs] at h
  rw [if_pos h]

theorem symbols_of_next {s' : Scanner} {x : Symbol} (h : next s = (x, s'))
    (hend : x.type ≠ .endOfFile) :
    (symbols s).1 = x :: (symbols s').1 := by
  rw [symbols]
  split
  next hs =>
  cases h.symm.trans hs
  rw [if_neg hend]

theorem exists_next {x : Symbol} (hx : x ∈ (symbols s).1) : ∃ s', (next s').1 = x := by
  fun_induction symbols s with
  | case1 s symbol s' hs hend => simp at hx
  | case2 s symbol s' hs hend rest last hrest ih =>
    rcases List.mem_cons.1 hx with rfl | hx
    · exact ⟨s, by rw [hs]⟩
    · exact ih (by rw [hrest]; exact hx)

theorem isName_of_mem_symbols {x : Symbol} (hx : x ∈ (symbols s).1) (h : x.type = .name) :
    x.text.isName = true := by
  obtain ⟨s, rfl⟩ := exists_next hx
  exact isName_next h

end Scanner

end GateSim
