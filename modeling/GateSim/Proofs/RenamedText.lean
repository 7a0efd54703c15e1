import GateSim.Proofs.Accepted
import GateSim.Proofs.DeviceNames

/-!
# Texts with other names for devices

The text of a definition is copied but for the names of devices, in whose place others are put
(`Scanner.rename`). The symbols are the same then but for these names (`Definition.content_rename`):
blanks and comments are passed wherever they stand, and a name ends where the one in its place does,
since no byte after it goes on with either.
-/

namespace GateSim

namespace Scanner

/-- What is still to be read, with other names for devices; `dot` tells whether the symbol before it
is a dot. Whatever is not the name of a device is copied. -/
def rename (σ : Text → Text) (dot : Bool) (s : Scanner) : Text :=
  match _hs : next s with
  | (x, s') =>
    if x.type = .endOfFile then s.rest
    else
      let read := s.rest.take (s.rest.length - s'.rest.length)
      (if x.isName && !dot then read.take (read.length - x.text.length) ++ σ x.text else read) ++
        rename σ (x.type == .dot) s'
termination_by s.rest.length
decreasing_by
  have := length_rest_next_lt (s := s)
  rw [_hs] at this
  exact this ‹_›

/-! ### Blanks and comments -/

/-- What the next byte belongs to, unless it is to be read. -/
def Gap.step (p : Position) : Gap → Byte → Option Gap
  | .blank, b =>
    if b.isBlank then some .blank
    else if b = '#'.toUInt8 then some .lineComment
    else if b = '!'.toUInt8 then some (.blockComment p)
    else none
  | .lineComment, b => some (if b = Byte.newline then .blank else .lineComment)
  | .blockComment opened, b => some (if b = '!'.toUInt8 then .blank else .blockComment opened)

/-- The same, but for the place where a block comment was opened. -/
inductive Gap.Like : Gap → Gap → Prop
  | blank : Like .blank .blank
  | lineComment : Like .lineComment .lineComment
  | blockComment (p q : Position) : Like (.blockComment p) (.blockComment q)

theorem Gap.Like.step {g g' : Gap} (h : g.Like g') (p q : Position) (b : Byte) :
    Option.Rel Gap.Like (g.step p b) (g'.step q b) := by
  cases h with
  | blank =>
    unfold Gap.step
    dsimp only
    split
    · exact .some .blank
    split
    · exact .some .lineComment
    split
    · exact .some (.blockComment ..)
    · exact .none
  | lineComment =>
    unfold Gap.step
    dsimp only
    split
    · exact .some .blank
    · exact .some .lineComment
  | blockComment =>
    unfold Gap.step
    dsimp only
    split
    · exact .some .blank
    · exact .some (.blockComment ..)

theorem skip_cons (g : Gap) (p : Position) (b : Byte) (t : Text) :
    skip g p (b :: t) = match g.step p b with
      | some g' => skip g' (p.after b) t
      | none => (none, ⟨p, b :: t⟩) := by
  cases g with
  | blank =>
    rw [skip, Gap.step]
    repeat' split
    all_goals first | rfl | simp_all
  | lineComment => rw [skip, Gap.step]
  | blockComment opened => rw [skip, Gap.step]

/-- A byte that starts a symbol is to be read. -/
theorem step_of_typeOf {b : Byte} (h : typeOf b ≠ .invalid) (p : Position) :
    Gap.step p .blank b = none := by
  have hall : ∀ v : Fin 256, typeOf (UInt8.ofFin v) ≠ .invalid →
      Byte.isBlank (UInt8.ofFin v) = false ∧ UInt8.ofFin v ≠ '#'.toUInt8 ∧
        UInt8.ofFin v ≠ '!'.toUInt8 := by
    decide +kernel
  obtain ⟨hblank, hline, hblock⟩ : b.isBlank = false ∧ b ≠ '#'.toUInt8 ∧ b ≠ '!'.toUInt8 :=
    hall b.toFin h
  rw [Gap.step, if_neg (Bool.eq_false_iff.1 hblank), if_neg hline, if_neg hblock]

/-- What is passed elsewhere is passed alike. -/
theorem skip_like {g g' : Gap} (hg : g.Like g') (p q : Position) (t : Text) :
    (skip g p t).1.isSome = (skip g' q t).1.isSome ∧
      (skip g p t).2.rest = (skip g' q t).2.rest := by
  induction t generalizing g g' p q with
  | nil => cases hg <;> exact ⟨rfl, rfl⟩
  | cons b t ih =>
    have hstep := hg.step p q b
    rw [skip_cons, skip_cons]
    cases h : g.step p b <;> cases h' : g'.step q b <;> rw [h, h'] at hstep <;> cases hstep
    · exact ⟨rfl, rfl⟩
    · next hlike => exact ih hlike _ _

/-- What is passed before a symbol is passed elsewhere too, whatever symbol comes after it. -/
theorem exists_gap {g : Gap} {p p' : Position} {t u : Text} {b : Byte}
    (h : skip g p t = (none, ⟨p', b :: u⟩)) : ∃ gap, t = gap ++ b :: u ∧
      ∀ g' q c v, g.Like g' → typeOf c ≠ .invalid →
        skip g' q (gap ++ c :: v) = (none, ⟨q.advance gap, c :: v⟩) := by
  induction t generalizing g p with
  | nil => cases g <;> cases h
  | cons b₀ t ih =>
    rw [skip_cons] at h
    cases hstep : g.step p b₀ with
    | none =>
      rw [hstep] at h
      cases h
      refine ⟨[], rfl, fun g' q c v hlike hc => ?_⟩
      cases hlike with
      | blank => rw [List.nil_append, skip_cons, step_of_typeOf hc]; rfl
      | _ => cases hstep
    | some g₁ =>
      rw [hstep] at h
      obtain ⟨gap, rfl, hgap⟩ := ih h
      refine ⟨b₀ :: gap, rfl, fun g' q c v hlike hc => ?_⟩
      have hstep' := hlike.step p q b₀
      rw [hstep] at hstep'
      cases h' : g'.step q b₀ <;> rw [h'] at hstep' <;> cases hstep'
      next g₁' hlike₁ =>
      rw [List.cons_append, skip_cons, h']
      exact hgap g₁' _ c v hlike₁ hc

/-! ### Symbols -/

/-- All letters go on with a symbol, or none does. -/
theorem continues_of_isLetter (type : SymbolType) {b : Byte} (h : b.isLetter = true) :
    continues type b = (type == .name) := by
  have hall : ∀ v : Fin 256, Byte.isLetter (UInt8.ofFin v) = true →
      Byte.isDigit (UInt8.ofFin v) = false ∧ Byte.isContinuation (UInt8.ofFin v) = false := by
    decide +kernel
  obtain ⟨hdigit, hcontinuation⟩ : b.isDigit = false ∧ b.isContinuation = false := hall b.toFin h
  cases type with
  | name => simp [continues, Byte.isNameByte, h]
  | number => simp [continues, hdigit]
  | invalid => simp [continues, hcontinuation]
  | _ => rfl

/-- Nothing but blanks and comments is left. -/
theorem type_next_eq_endOfFile (s : Scanner) : (next s).1.type = .endOfFile ↔
    (skip .blank s.position s.rest).1.isSome = false ∧
      (skip .blank s.position s.rest).2.rest = [] := by
  rcases next_cases s with
    ⟨opened, s', hskip, hnext⟩ | ⟨p, hskip, hnext⟩ | ⟨p, b, t, hskip, hnext⟩ <;>
    rw [hskip, hnext]
  · simp
  · simp
  · have hne : (word p b t).1.type ≠ .endOfFile := fun h =>
      typeOf_ne_endOfFile b (eq_of_finalType h (by decide))
    simp [hne]

theorem endOfFile_elsewhere {s : Scanner} (h : (next s).1.type = .endOfFile) (q : Position) :
    (next ⟨q, s.rest⟩).1.type = .endOfFile := by
  obtain ⟨hsome, hrest⟩ := skip_like .blank s.position q s.rest
  rw [type_next_eq_endOfFile] at h ⊢
  rwa [← hsome, ← hrest]

/-- A symbol that is not invalid, with what is passed before it. Another word of its type may stand
in its place, wherever that is, as long as nothing after it goes on with the word. -/
theorem next_replace {s s' : Scanner} {x : Symbol} (h : next s = (x, s'))
    (hend : x.type ≠ .endOfFile) (hvalid : x.type ≠ .invalid) :
    ∃ gap type, s.rest = gap ++ (x.text ++ s'.rest) ∧
      Spells type x.text ∧ x.type = finalType type x.text ∧
      (∀ c ∈ s'.rest.head?, continues type c = false) ∧
      ∀ q w tail, Spells type w → (∀ c ∈ tail.head?, continues type c = false) →
        ∃ y t, next ⟨q, gap ++ (w ++ tail)⟩ = (y, t) ∧ y.type = finalType type w ∧ y.text = w ∧
          t.rest = tail := by
  rcases next_cases s with ⟨opened, _, -, hnext⟩ | ⟨p, -, hnext⟩ | ⟨p, b, t, hskip, hnext⟩ <;>
    obtain ⟨rfl, rfl⟩ := Prod.mk.inj (h.symm.trans hnext)
  · exact absurd rfl hvalid
  · exact absurd rfl hend
  obtain ⟨gap, hrest, hgap⟩ := exists_gap hskip
  have hinvalid : typeOf b ≠ .invalid := fun hb => hvalid (by simp [finalType, hb])
  refine ⟨gap, typeOf b, ?_, spells_word p b t, rfl, fun c hc => ?_, ?_⟩
  · rw [hrest]
    show gap ++ b :: t = gap ++ b :: (t.takeWhile _ ++ t.dropWhile _)
    rw [List.takeWhile_append_dropWhile]
  · have hhead := List.head?_dropWhile_not (continues (typeOf b)) t
    rw [show (t.dropWhile (continues (typeOf b))).head? = some c from hc] at hhead
    exact hhead
  · rintro q w tail ⟨b', t', rfl, htype, hcontinues⟩ htail
    have hskip' := hgap .blank q b' (t' ++ tail) .blank (htype ▸ hinvalid)
    rw [← htype] at hcontinues htail
    obtain ⟨htake, hdrop⟩ := takeWhile_dropWhile_append hcontinues htail
    refine ⟨_, _, next_of_skip hskip', ?_, ?_, hdrop⟩
    · rw [htake, htype]
    · rw [htake]

/-! ### The renamed text -/

section
variable {s s' : Scanner} {x : Symbol} {σ : Text → Text} {dot : Bool}

theorem rename_of_endOfFile (h : (next s).1.type = .endOfFile) : rename σ dot s = s.rest := by
  rw [rename]
  split
  next hs =>
  rw [hs] at h
  rw [if_pos h]

theorem rename_of_next (h : next s = (x, s')) (hend : x.type ≠ .endOfFile) {gap : Text}
    (hrest : s.rest = gap ++ (x.text ++ s'.rest)) : rename σ dot s =
      gap ++ ((if x.isName && !dot then σ x.text else x.text) ++ rename σ (x.type == .dot) s') := by
  have hread : s.rest.take (s.rest.length - s'.rest.length) = gap ++ x.text := by
    rw [hrest, ← List.append_assoc, List.length_append, Nat.add_sub_cancel, List.take_left']
    rfl
  rw [rename]
  split
  next hs =>
  cases h.symm.trans hs
  rw [if_neg hend, hread]
  dsimp only
  split
  · rw [List.length_append, Nat.add_sub_cancel, List.take_left' rfl, List.append_assoc]
  · rw [List.append_assoc]

theorem isName_rename_of_next (h : next s = (x, s')) (hend : x.type ≠ .endOfFile)
    (hσ : ∀ t ∈ Symbol.deviceNames dot (symbols s).1, (σ t).isName = true) :
    ((x.isName && !dot) = true → (σ x.text).isName = true) ∧
      ∀ t ∈ Symbol.deviceNames (x.type == .dot) (symbols s').1, (σ t).isName = true := by
  rw [symbols_of_next h hend, Symbol.deviceNames] at hσ
  refine ⟨fun hname => hσ _ ?_, fun t ht => hσ t (List.mem_append_right _ ht)⟩
  rw [if_pos hname]
  exact List.mem_append_left _ (List.mem_singleton_self _)

/-- The text starts with the byte it had, or with the first letter of another name. -/
theorem head_rename (hvalid : ∀ x ∈ (symbols s).1, x.type ≠ .invalid)
    (hσ : ∀ t ∈ Symbol.deviceNames dot (symbols s).1, (σ t).isName = true) :
    ∀ b ∈ (rename σ dot s).head?, ∃ c ∈ s.rest.head?,
      b = c ∨ b.isLetter = true ∧ c.isLetter = true := by
  intro b hb
  rcases hs : next s with ⟨x, s'⟩
  by_cases hend : x.type = .endOfFile
  · rw [rename_of_endOfFile (by rw [hs]; exact hend)] at hb
    exact ⟨b, hb, .inl rfl⟩
  have hsymbols := symbols_of_next hs hend
  obtain ⟨gap, type, hrest, ⟨c, t, htext, hc, -⟩, htype, -⟩ := next_replace hs hend
    (hvalid x (hsymbols ▸ List.mem_cons_self ..))
  rw [rename_of_next hs hend hrest] at hb
  cases gap with
  | cons a gap => exact ⟨b, by rw [hrest]; exact hb, .inl rfl⟩
  | nil =>
    split at hb
    · next hname =>
      obtain ⟨⟨b', t', hσx, hb', -⟩, -⟩ :=
        isName_iff.1 ((isName_rename_of_next hs hend hσ).1 hname)
      have hx : finalType (typeOf c) x.text = .name := by
        rw [hc, ← htype]
        simpa [Symbol.isName] using (Bool.and_eq_true_iff.1 hname).1
      have hname' : typeOf c = .name := eq_of_finalType hx (by decide)
      rw [List.nil_append, hσx] at hb
      cases hb
      exact ⟨c, by rw [hrest, htext]; rfl,
        .inr ⟨isLetter_of_typeOf hb', isLetter_of_typeOf hname'⟩⟩
    · exact ⟨b, by rw [hrest, htext]; rw [htext] at hb; exact hb, .inl rfl⟩

/-- No more than before goes on with a symbol that the text comes after. -/
theorem continues_head_rename (hvalid : ∀ x ∈ (symbols s).1, x.type ≠ .invalid)
    (hσ : ∀ t ∈ Symbol.deviceNames dot (symbols s).1, (σ t).isName = true) {type : SymbolType}
    (hstop : ∀ c ∈ s.rest.head?, continues type c = false) :
    ∀ c ∈ (rename σ dot s).head?, continues type c = false := by
  intro c hc
  obtain ⟨c', hc', rfl | ⟨hletter, hletter'⟩⟩ := head_rename hvalid hσ c hc
  · exact hstop c hc'
  · rw [continues_of_isLetter type hletter, ← continues_of_isLetter type hletter']
    exact hstop c' hc'

/-- The word in the place of a symbol is of the same type. -/
theorem spells_rename {type : SymbolType} (hspells : Spells type x.text)
    (htype : x.type = finalType type x.text)
    (hname : (x.isName && !dot) = true → (σ x.text).isName = true) :
    Spells type (if x.isName && !dot then σ x.text else x.text) ∧
      finalType type (if x.isName && !dot then σ x.text else x.text) = x.type := by
  split
  · next hdevice =>
    have hx : x.type = .name := by
      simpa [Symbol.isName] using (Bool.and_eq_true_iff.1 hdevice).1
    obtain rfl : type = .name := eq_of_finalType (htype.symm.trans hx) (by decide)
    obtain ⟨hword, hfinal⟩ := isName_iff.1 (hname hdevice)
    exact ⟨hword, hfinal.trans hx.symm⟩
  · exact ⟨hspells, htype.symm⟩

/-- The symbols of the renamed text, wherever it stands. -/
theorem symbols_rename (hvalid : ∀ x ∈ (symbols s).1, x.type ≠ .invalid)
    (hσ : ∀ t ∈ Symbol.deviceNames dot (symbols s).1, (σ t).isName = true) (q : Position) :
    (symbols ⟨q, rename σ dot s⟩).1.map Symbol.placeless =
      Symbol.renameAll σ dot ((symbols s).1.map Symbol.placeless) := by
  induction hn : s.rest.length using Nat.strong_induction_on generalizing s dot q with
  | _ n ih =>
  subst hn
  rcases hs : next s with ⟨x, s'⟩
  by_cases hend : x.type = .endOfFile
  · have hlast : (next s).1.type = .endOfFile := by rw [hs]; exact hend
    rw [rename_of_endOfFile hlast, symbols_of_endOfFile hlast,
      symbols_of_endOfFile (endOfFile_elsewhere hlast q)]
    rfl
  have hsymbols := symbols_of_next hs hend
  rw [hsymbols] at hvalid
  obtain ⟨hx, hvalid'⟩ := List.forall_mem_cons.1 hvalid
  obtain ⟨hname, hσ'⟩ := isName_rename_of_next hs hend hσ
  obtain ⟨gap, type, hrest, hspells, htype, hstop, hnext⟩ := next_replace hs hend hx
  have hlt : s'.rest.length < s.rest.length := by
    have := length_rest_next_lt (s := s) (by rw [hs]; exact hend)
    rwa [hs] at this
  -- the next symbol is the word in its place, and what comes after it starts as it did
  obtain ⟨hword, hfinal⟩ := spells_rename hspells htype hname
  obtain ⟨y, ⟨q', t⟩, hy, hytype, hytext, rfl⟩ :=
    hnext q _ _ hword (continues_head_rename hvalid' hσ' hstop)
  have hyend : y.type ≠ .endOfFile := by rwa [hytype, hfinal]
  rw [rename_of_next hs hend hrest, symbols_of_next hy hyend, hsymbols, List.map_cons,
    List.map_cons, Symbol.renameAll, ih _ hlt hvalid' hσ' q' rfl]
  refine congrArg₂ List.cons ?_ rfl
  show Symbol.placeless y = if x.isName && !dot then _ else _
  rw [Symbol.placeless, hytype, hytext, hfinal]
  split <;> rfl

end

end Scanner

namespace Definition

/-- The definition with other names for its devices. -/
def rename (σ : Text → Text) (d : Definition) : Definition :=
  { d with text := Scanner.rename σ false ⟨.start, d.text⟩ }

theorem content_rename {σ : Text → Text} {d : Definition}
    (hvalid : ∀ x ∈ d.text.symbols.1, x.type ≠ .invalid)
    (hσ : ∀ t ∈ Symbol.deviceNames false d.text.symbols.1, (σ t).isName = true) :
    (d.rename σ).content = Symbol.renameAll σ false d.content :=
  Scanner.symbols_rename hvalid hσ .start

end Definition

end GateSim
