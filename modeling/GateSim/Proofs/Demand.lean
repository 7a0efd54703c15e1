import Mathlib.Data.List.Infix
import GateSim.Proofs.Layout
import GateSim.Proofs.Lexing

/-!
# Reading on demand

Symbols are asked for one by one: the first one at the start, and one more after each that is passed,
invalid symbols being asked past (`Definition.reads`). The first end of file is the last symbol that
is asked for, so no definition takes more calls than it has bytes, but for one. What is found out
depends on no other symbol (`Definition.notes_eq_of_reads_prefix`), and no other symbol is blamed for
it (`Definition.blamed_subset_reads`).
-/

namespace GateSim

open Grammar Diagnostics Position

/-! ### Calls -/

namespace Scanner

/-- Asks for symbols until one is valid. -/
def advance (s : Scanner) : List Symbol × Scanner :=
  match _hs : next s with
  | (x, s') =>
    if x.type = .invalid then
      let (xs, s'') := advance s'
      (x :: xs, s'')
    else ([x], s')
termination_by s.rest.length
decreasing_by
  have := length_rest_next_lt (s := s)
  simp_all

/-- The symbols that are asked for: each pass goes on to the next one that is valid. -/
def reads (s : Scanner) : List Note → List Symbol
  | [] => []
  | .pass :: notes => (advance s).1 ++ reads (advance s).2 notes
  | _ :: notes => reads s notes

def lexemes (s : Scanner) : List Lexeme := Lexeme.gather (symbols s).2 [] (symbols s).1

end Scanner

namespace Lexeme

def symbols (l : Lexeme) : List Symbol := l.strays ++ [l.symbol]

/-- Gathering keeps all symbols in order. -/
theorem flatMap_symbols_gather (last : Symbol) (strays xs : List Symbol) :
    (gather last strays xs).flatMap symbols = strays ++ xs ++ [last] := by
  fun_induction gather last strays xs <;> simp_all [symbols]

theorem invalid_of_mem_gather {last : Symbol} {strays xs : List Symbol}
    (hlast : last.type ≠ .invalid) (hstrays : ∀ x ∈ strays, x.type = .invalid) :
    ∀ l ∈ gather last strays xs, (∀ x ∈ l.strays, x.type = .invalid) ∧ l.symbol.type ≠ .invalid := by
  fun_induction gather last strays xs with
  | case1 strays => simpa using ⟨hstrays, hlast⟩
  | case2 strays x rest hx ih =>
    refine ih fun y hy => ?_
    rcases List.mem_append.1 hy with hy | hy
    · exact hstrays y hy
    · rwa [List.mem_singleton.1 hy]
  | case3 strays x rest hx ih =>
    exact List.forall_mem_cons.2 ⟨⟨hstrays, hx⟩, ih fun y hy => absurd hy List.not_mem_nil⟩

end Lexeme

namespace Scanner
variable {s s' : Scanner} {x : Symbol}

theorem symbols_eq (h : next s = (x, s')) : symbols s =
    if x.type = .endOfFile then ([], x) else (x :: (symbols s').1, (symbols s').2) := by
  rw [symbols]
  split
  next hs =>
  cases h.symm.trans hs
  rfl

/-- One advance gives the invalid symbols before the next one that is valid, and this one. -/
theorem gather_advance (s : Scanner) (strays : List Symbol) : ∃ l ls,
    Lexeme.gather (symbols s).2 strays (symbols s).1 = l :: ls ∧
      l.symbols = strays ++ (advance s).1 ∧
      (l.symbol.type = .endOfFile → ls = []) ∧
      (l.symbol.type ≠ .endOfFile → ls = (advance s).2.lexemes) := by
  fun_induction advance s generalizing strays with
  | case1 s x s' hs hx xs s'' hadvance ih =>
    obtain ⟨l, ls, hgather, hl, hend, hmore⟩ := ih (strays ++ [x])
    rw [hadvance] at hl hmore
    refine ⟨l, ls, ?_, by simpa using hl, hend, hmore⟩
    rw [symbols_eq hs, if_neg (by simp [hx]), Lexeme.gather, if_pos hx, hgather]
  | case2 s x s' hs hx =>
    rw [symbols_eq hs]
    split
    · next hend => exact ⟨⟨strays, x⟩, [], rfl, rfl, fun _ => rfl, fun h => absurd hend h⟩
    · next hend =>
      rw [Lexeme.gather, if_neg hx]
      exact ⟨⟨strays, x⟩, _, rfl, rfl, fun h => absurd h hend, fun _ => rfl⟩

theorem lexemes_eq (s : Scanner) : ∃ l ls, s.lexemes = l :: ls ∧ l.symbols = (advance s).1 ∧
    (l.symbol.type = .endOfFile → ls = []) ∧
    (l.symbol.type ≠ .endOfFile → ls = (advance s).2.lexemes) :=
  gather_advance s []

theorem reads_of_countP_eq_zero {notes : List Note} (h : notes.countP (· == .pass) = 0)
    (s : Scanner) : s.reads notes = [] := by
  fun_induction reads s notes <;> simp_all

/-- As many lexemes are read as there are passes. -/
theorem reads_eq {notes : List Note} (h : notes.countP (· == .pass) ≤ s.lexemes.length) :
    s.reads notes = (s.lexemes.take (notes.countP (· == .pass))).flatMap Lexeme.symbols := by
  induction notes generalizing s with
  | nil => rfl
  | cons n notes ih =>
    cases n with
    | pass =>
      obtain ⟨l, ls, hlexemes, hl, hend, hmore⟩ := lexemes_eq s
      rw [hlexemes] at h ⊢
      simp only [List.countP_cons_of_pos, BEq.rfl, List.length_cons] at h ⊢
      rw [List.take_succ_cons, List.flatMap_cons, hl, reads]
      refine congrArg ((advance s).1 ++ ·) ?_
      by_cases hlast : l.symbol.type = .endOfFile
      · obtain rfl := hend hlast
        rw [reads_of_countP_eq_zero (by simpa using h)]
        simp
      · rw [hmore hlast] at h ⊢
        exact ih (by omega)
    | reject | endsEarly | abandon | complete =>
      rw [List.countP_cons_of_neg (by simp)] at h ⊢
      exact ih h

/-- All that is asked for up to the end of file. -/
def given (s : Scanner) : List Symbol := (symbols s).1 ++ [(symbols s).2]

theorem flatMap_symbols_lexemes (s : Scanner) : s.lexemes.flatMap Lexeme.symbols = s.given :=
  Lexeme.flatMap_symbols_gather ..

theorem given_eq (s : Scanner) :
    s.given = (List.range s.given.length).map fun i => (s.call i).1 := by
  obtain ⟨hgiven, hlast, -⟩ := call_symbols s
  rw [given, List.length_append, List.length_singleton, List.range_succ, List.map_append, hgiven,
    List.map_singleton, hlast]

/-- What is asked for is what the first calls give. -/
theorem eq_map_call {xs : List Symbol} (h : xs <+: s.given) :
    xs = (List.range xs.length).map fun i => (s.call i).1 := by
  have htake := List.prefix_iff_eq_take.1 h
  have hle := h.length_le
  rw [given_eq s, List.length_map, List.length_range] at hle
  rw [given_eq s, ← List.map_take, List.take_range, Nat.min_eq_left hle] at htake
  exact htake

theorem ne_endOfFile_of_mem_dropLast {xs : List Symbol} (h : xs <+: s.given) :
    ∀ x ∈ xs.dropLast, x.type ≠ .endOfFile := by
  intro x hx
  refine type_ne_endOfFile s x ?_
  obtain ⟨ys, hys⟩ := h
  rcases List.eq_nil_or_concat ys with rfl | ⟨ys, y, rfl⟩
  · rw [List.append_nil] at hys
    rwa [hys, given, List.dropLast_concat] at hx
  · rw [List.concat_eq_append, ← List.append_assoc] at hys
    rw [← List.append_inj_left' hys rfl]
    exact List.mem_append_left _ (List.mem_of_mem_dropLast hx)

theorem length_given_le (s : Scanner) : s.given.length ≤ s.rest.length + 1 := by
  have hcuts : Text.Cuts s.rest (symbols s).1 := cuts_iff.2 rfl
  rw [given, List.length_append, List.length_singleton]
  exact Nat.succ_le_succ hcuts.length_le

end Scanner

namespace Walks
variable {passed ahead left : List Symbol} {notes : List Note}

theorem left_eq (h : Walks passed ahead notes left) :
    left = ahead.drop (notes.countP (· == .pass)) := by
  rw [← List.append_nil notes] at h
  have hdrop := h.drop
  generalize ahead.drop (notes.countP (· == .pass)) = ahead' at hdrop ⊢
  cases hdrop
  rfl

theorem countP_le (h : Walks passed ahead notes left) :
    notes.countP (· == .pass) ≤ ahead.length := by
  induction h with
  | nil => exact Nat.zero_le _
  | pass _ ih => simpa using ih
  | reject _ ih | endsEarly _ ih | abandon _ _ _ ih | complete _ _ _ ih => simpa using ih

end Walks

namespace Definition
variable (d : Definition)

/-- The symbols that are asked for while the definition is read. -/
def reads (d : Definition) : List Symbol := Scanner.reads ⟨.start, d.text⟩ (.pass :: d.notes)

theorem reads_eq :
    d.reads = (d.lexemes.take (Outline.reach d.notes)).flatMap Lexeme.symbols := by
  obtain ⟨left, hwalk⟩ := Outline.walks_outline d.valid
  have hle := hwalk.countP_le
  have hlength := d.length_lexemes
  have hreach : (.pass :: d.notes).countP (· == .pass) = Outline.reach d.notes := by
    simp [Outline.reach]
  rw [reads, Scanner.reads_eq, hreach]
  · rfl
  · rw [hreach]
    show Outline.reach d.notes ≤ d.lexemes.length
    rw [hlength]
    exact Nat.succ_le_succ hle

theorem reads_prefix : d.reads <+: Scanner.given ⟨.start, d.text⟩ := by
  rw [reads_eq, ← Scanner.flatMap_symbols_lexemes]
  exact (List.take_prefix _ _).flatMap _

theorem invalid_of_mem_lexemes {l : Lexeme} (hl : l ∈ d.lexemes) :
    (∀ x ∈ l.strays, x.type = .invalid) ∧ l.symbol.type ≠ .invalid :=
  Lexeme.invalid_of_mem_gather (by rw [d.type_last]; simp)
    (fun _ hx => absurd hx List.not_mem_nil) l hl

/-- The valid symbols that are asked for: the first one, and one more for each pass. -/
theorem filter_reads_valid : d.reads.filter (·.type != .invalid) =
    (d.valid ++ [d.last]).take (Outline.reach d.notes) := by
  have hmap : d.lexemes.map (·.symbol) = d.valid ++ [d.last] := Lexeme.map_symbol_gather ..
  rw [reads_eq, List.filter_flatMap, ← hmap, ← List.map_take, List.map_eq_flatMap]
  refine List.flatMap_congr fun l hl => ?_
  obtain ⟨hstrays, hsymbol⟩ := d.invalid_of_mem_lexemes (List.mem_of_mem_take hl)
  rw [Lexeme.symbols, List.filter_append, List.filter_eq_nil_iff.2 (by simpa using hstrays)]
  simp [hsymbol]

/-- The invalid symbols that are asked for stand before the valid ones. -/
theorem filter_reads_invalid : d.reads.filter (·.type == .invalid) =
    (d.lexemes.take (Outline.reach d.notes)).flatMap (·.strays) := by
  rw [reads_eq, List.filter_flatMap]
  refine List.flatMap_congr fun l hl => ?_
  obtain ⟨hstrays, hsymbol⟩ := d.invalid_of_mem_lexemes (List.mem_of_mem_take hl)
  rw [Lexeme.symbols, List.filter_append, List.filter_eq_self.2 (by simpa using hstrays)]
  simp [hsymbol]

/-- The names that are seen are those that have been asked for. -/
theorem names_eq_reads (names : NameTable) :
    d.names names = names.insertKeywords.insertPins.insertSymbols d.reads := by
  have hnamed : d.reads.filter (·.type.isNamed) =
      (d.reads.filter (·.type != .invalid)).filter (·.type.isNamed) := by
    rw [List.filter_filter]
    refine List.filter_congr fun x _ => ?_
    cases x.type <;> rfl
  -- the end of file is not named
  have hlast : ∀ n, ([d.last].take n).filter (·.type.isNamed) = [] := fun n => by
    refine List.filter_eq_nil_iff.2 fun x hx => ?_
    rw [List.mem_singleton.1 (List.mem_of_mem_take hx), d.type_last]
    decide
  have hvalid : d.reads.filter (·.type.isNamed) =
      (d.valid.take (Outline.reach d.notes)).filter (·.type.isNamed) := by
    rw [hnamed, filter_reads_valid, List.take_append, List.filter_append, hlast, List.append_nil]
  rw [Definition.names, NameTable.insertSymbols, NameTable.insertSymbols, hvalid]

end Definition

/-! ### Invalid symbols -/

/-- The invalid symbol that is found. -/
def Event.stray? : Event → Option Symbol
  | .stray x => some x
  | .note _ => none

theorem Event.filterMap_stray?_look (ahead : List Lexeme) :
    (look ahead).filterMap stray? = (ahead.take 1).flatMap (·.strays) := by
  cases ahead with
  | nil => rfl
  | cons l ahead => simp [look, List.filterMap_map, Function.comp_def, stray?]

/-- Invalid symbols are found when the next valid one is asked for. -/
theorem Event.filterMap_stray?_follow (ahead : List Lexeme) (notes : List Note) :
    (follow ahead notes).filterMap stray? =
      (ahead.tail.take (notes.countP (· == .pass))).flatMap (·.strays) := by
  induction notes generalizing ahead with
  | nil => simp [follow]
  | cons n notes ih =>
    by_cases hn : n = .pass
    · subst hn
      rw [follow_pass, List.filterMap_append, filterMap_stray?_look, ih, ← List.flatMap_append,
        List.countP_cons_of_pos (by simp), Nat.add_comm, List.take_add, List.drop_one]
    · rw [follow_cons hn, List.filterMap_cons_none rfl, ih,
        List.countP_cons_of_neg (by simpa using hn)]

theorem Definition.filterMap_stray?_events (d : Definition) :
    d.events.filterMap Event.stray? = d.reads.filter (·.type == .invalid) := by
  rw [filter_reads_invalid, events, List.filterMap_append, Event.filterMap_stray?_look,
    Event.filterMap_stray?_follow, ← List.flatMap_append, Outline.reach, Nat.add_comm,
    List.take_add, List.drop_one]

/-! ### What the outline depends on -/

/-- What is found out depends on the symbols that are passed and on the first one that is left. -/
def OnDemand (f : List Symbol → List Note × List Symbol) (symbols : List Symbol) : Prop :=
  ∃ passed, symbols = passed ++ (f symbols).2 ∧
    ∀ ys, ys.head? = (f symbols).2.head? → f (passed ++ ys) = ((f symbols).1, ys)

/-- What is read next starts at the symbol that is left. -/
def andThen (f g : List Symbol → List Note × List Symbol) (symbols : List Symbol) :
    List Note × List Symbol :=
  ((f symbols).1 ++ (g (f symbols).2).1, (g (f symbols).2).2)

theorem OnDemand.andThen {f g : List Symbol → List Note × List Symbol} {symbols : List Symbol}
    (hf : OnDemand f symbols) (hg : OnDemand g (f symbols).2) :
    OnDemand (andThen f g) symbols := by
  obtain ⟨front, hfront, hf⟩ := hf
  obtain ⟨back, hback, hg⟩ := hg
  refine ⟨front ++ back, ?_, fun ys hys => ?_⟩
  · rw [List.append_assoc]
    exact hfront.trans (congrArg (front ++ ·) hback)
  · have hhead : (back ++ ys).head? = (f symbols).2.head? := by
      rw [hback, List.head?_append, List.head?_append, hys]
      rfl
    rw [List.append_assoc, GateSim.andThen, hf _ hhead, hg _ hys]
    rfl

namespace Outline

theorem onDemand_items (s : Section) (symbols : List Symbol) : OnDemand (items s) symbols := by
  unfold OnDemand
  fun_induction items s symbols with
  | case1 symbols item hdrop =>
    have hitem : item = symbols := by
      have happend := List.takeWhile_append_dropWhile (p := (!·.isSeparator)) (l := symbols)
      rwa [hdrop, List.append_nil] at happend
    refine ⟨symbols, (List.append_nil _).symm, fun ys hys => ?_⟩
    obtain rfl := List.head?_eq_none_iff.1 hys
    have hall : ∀ y ∈ symbols, y.isSeparator = false := fun y hy =>
      isSeparator_of_mem_takeWhile (show y ∈ item by rwa [hitem])
    rw [List.append_nil, items_of_isSeparator hall, hitem]
  | case2 symbols item x rest hdrop notes hx more left hmore ih =>
    rw [hmore] at ih
    obtain ⟨passed, hrest, hpassed⟩ := ih
    obtain ⟨hsymbols : symbols = item ++ x :: rest, hsep⟩ := cut hdrop
    refine ⟨item ++ x :: passed, by rw [hsymbols, hrest]; simp, fun ys hys => ?_⟩
    rw [List.append_assoc, List.cons_append,
      items_append (fun y hy => isSeparator_of_mem_takeWhile hy) hsep, if_pos hx, hpassed ys hys,
      Item.notes_cons, ← Item.notes_cons s item x rest]
  | case3 symbols item x rest hdrop notes hcomma hsemi =>
    obtain ⟨hsymbols : symbols = item ++ x :: rest, hsep⟩ := cut hdrop
    refine ⟨item ++ [x], by rw [hsymbols]; simp, fun ys _ => ?_⟩
    rw [List.append_assoc, List.singleton_append,
      items_append (fun y hy => isSeparator_of_mem_takeWhile hy) hsep, if_neg hcomma, if_pos hsemi,
      Item.notes_cons, ← Item.notes_cons s item x rest]
  | case4 symbols item x rest hdrop notes hcomma hsemi =>
    obtain ⟨hsymbols : symbols = item ++ x :: rest, hsep⟩ := cut hdrop
    refine ⟨item, hsymbols, fun ys hys => ?_⟩
    obtain ⟨rest', rfl⟩ := List.head?_eq_some_iff.1 hys
    rw [items_append (fun y hy => isSeparator_of_mem_takeWhile hy) hsep, if_neg hcomma,
      if_neg hsemi, Item.notes_cons, ← Item.notes_cons s item x rest]

theorem onDemand_colon (s : Section) (symbols : List Symbol) : OnDemand (colon s) symbols := by
  cases symbols with
  | nil =>
    refine ⟨[], rfl, fun ys hys => ?_⟩
    obtain rfl := List.head?_eq_none_iff.1 hys
    rfl
  | cons x rest =>
    by_cases hx : x.type = .colon
    · have heq : ∀ ys, colon s (x :: ys) = ([.pass], ys) := fun ys => if_pos hx
      refine ⟨[x], by rw [heq]; rfl, fun ys _ => ?_⟩
      rw [List.singleton_append, heq, heq]
    · have heq : ∀ ys, colon s (x :: ys) = ([.reject (some x) (.expectedColon s)], x :: ys) :=
        fun ys => if_neg hx
      refine ⟨[], by rw [heq]; rfl, fun ys hys => ?_⟩
      rw [heq] at hys ⊢
      obtain ⟨rest', rfl⟩ := List.head?_eq_some_iff.1 hys
      exact heq rest'

theorem onDemand_content (s : Section) (symbols : List Symbol) : OnDemand (content s) symbols := by
  by_cases hsemi : symbols.head?.any (·.type == .semicolon) = true
  · obtain ⟨x, rest, rfl, hx⟩ : ∃ x rest, symbols = x :: rest ∧ x.type = .semicolon := by
      cases symbols with
      | nil => simp at hsemi
      | cons x rest => exact ⟨x, rest, rfl, by simpa using hsemi⟩
    refine ⟨[x], by simp [content, hx], fun ys _ => by simp [content, hx]⟩
  · -- the first symbol decides that there are items
    have hitems : ∀ xs : List Symbol, xs.head? = symbols.head? → content s xs = items s xs := by
      intro xs hxs
      rw [← hxs] at hsemi
      cases xs with
      | nil => rfl
      | cons x rest => exact if_neg (by simpa using hsemi)
    obtain ⟨passed, hpassed, h⟩ := onDemand_items s symbols
    rw [← hitems symbols rfl] at hpassed h
    refine ⟨passed, hpassed, fun ys hys => ?_⟩
    have hhead : (passed ++ ys).head? = symbols.head? := by
      rw [hpassed, List.head?_append, List.head?_append, hys]
    rw [hitems _ hhead, h ys hys]

theorem onDemand_afterWord (s : Section) (symbols : List Symbol) :
    OnDemand (afterWord s) symbols :=
  (onDemand_colon s symbols).andThen (onDemand_content s _)

/-- A section whose word does not come first starts at the word at which reading goes on, unless this
is the word of a later one. -/
theorem part_append {s : Section} {skipped : List Symbol} {x : Symbol}
    (hskipped : ∀ y ∈ skipped, (s.onward.any fun t => y.section? == some t) = false)
    (hx : (s.onward.any fun t => x.section? == some t) = true)
    (hstart : ((skipped ++ [x]).head?.any (·.section? == some s)) = false) (rest : List Symbol) :
    part s (skipped ++ x :: rest) =
      if x.section? = some s then
        (Note.blame (.expectedSection s) (skipped ++ [x]) :: Note.passes skipped ++
          .pass :: (afterWord s rest).1, (afterWord s rest).2)
      else (Note.blame (.expectedSection s) (skipped ++ [x]) :: Note.passes skipped, x :: rest) := by
  have htake : (skipped ++ x :: rest).takeWhile
      (fun y => !s.onward.any fun t => y.section? == some t) = skipped := by
    rw [List.takeWhile_append_of_pos (by simpa using hskipped),
      List.takeWhile_cons_of_neg (by simpa using hx), List.append_nil]
  have hdrop : (skipped ++ x :: rest).dropWhile
      (fun y => !s.onward.any fun t => y.section? == some t) = x :: rest := by
    rw [List.dropWhile_append_of_pos (by simpa using hskipped),
      List.dropWhile_cons_of_neg (by simpa using hx)]
  have hhead : (skipped ++ x :: rest).head? = (skipped ++ [x]).head? := by
    cases skipped <;> rfl
  have hblame : ∀ fault, Note.blame fault (skipped ++ x :: rest) =
      Note.blame fault (skipped ++ [x]) := fun fault => by
    cases skipped <;> rfl
  simp only [part, htake, hdrop, hhead, hstart, Bool.false_eq_true, if_false, hblame, beq_iff_eq]

theorem onDemand_part (s : Section) (symbols : List Symbol) : OnDemand (part s) symbols := by
  by_cases hstart : symbols.head?.any (·.section? == some s) = true
  · obtain ⟨x, rest, rfl, hx⟩ : ∃ x rest, symbols = x :: rest ∧ x.section? = some s := by
      cases symbols with
      | nil => simp at hstart
      | cons x rest => exact ⟨x, rest, rfl, by simpa using hstart⟩
    have hpart : ∀ left, part s (x :: left) = (.pass :: (afterWord s left).1, (afterWord s left).2) :=
      fun left => part_of_isWord (Symbol.section?_eq_some_iff.1 hx)
    obtain ⟨passed, hpassed, h⟩ := onDemand_afterWord s rest
    refine ⟨x :: passed, ?_, fun ys hys => ?_⟩
    · rw [hpart, List.cons_append, ← hpassed]
    · rw [hpart] at hys
      rw [List.cons_append, hpart, h ys hys, hpart]
  have hsymbols := (List.takeWhile_append_dropWhile
    (p := fun y : Symbol => !s.onward.any fun t => y.section? == some t) (l := symbols)).symm
  have hskipped := fun y hy => List.all_eq_true.1 (List.all_takeWhile (l := symbols)
    (p := fun y : Symbol => !s.onward.any fun t => y.section? == some t)) y hy
  have hfound := List.head?_dropWhile_not
    (fun y : Symbol => !s.onward.any fun t => y.section? == some t) symbols
  generalize symbols.takeWhile _ = skipped at hsymbols hskipped
  cases hdrop : symbols.dropWhile (fun y => !s.onward.any fun t => y.section? == some t) with
  | nil =>
    -- neither the section nor a later one comes, so all symbols are passed
    have hleft : (part s symbols).2 = [] := by simp [part, hdrop]
    refine ⟨symbols, by rw [hleft, List.append_nil], fun ys hys => ?_⟩
    rw [hleft] at hys
    obtain rfl := List.head?_eq_none_iff.1 hys
    rw [List.append_nil, ← hleft]
  | cons x rest =>
    rw [hdrop] at hsymbols hfound
    have hx : (s.onward.any fun t => x.section? == some t) = true := by simpa using hfound
    have hfirst : ((skipped ++ [x]).head?.any (·.section? == some s)) = false := by
      rw [hsymbols] at hstart
      cases skipped <;> simpa using hstart
    have hpart := part_append (fun y hy => by simpa using hskipped y hy) hx hfirst
    rw [hsymbols]
    by_cases hword : x.section? = some s
    · simp only [if_pos hword] at hpart
      obtain ⟨passed, hpassed, h⟩ := onDemand_afterWord s rest
      refine ⟨skipped ++ x :: passed, ?_, fun ys hys => ?_⟩
      · rw [hpart, List.append_assoc, List.cons_append, ← hpassed]
      · rw [hpart] at hys
        rw [List.append_assoc, List.cons_append, hpart, h ys hys, hpart]
    · simp only [if_neg hword] at hpart
      refine ⟨skipped, by rw [hpart], fun ys hys => ?_⟩
      rw [hpart] at hys ⊢
      obtain ⟨rest', rfl⟩ := List.head?_eq_some_iff.1 hys
      exact hpart rest'

/-- The end, with the symbols that are left. -/
def closing (symbols : List Symbol) : List Note × List Symbol :=
  (close symbols, symbols.drop ((close symbols).countP (· == .pass)))

theorem walks_closing (symbols passed : List Symbol) :
    Walks passed symbols (closing symbols).1 (closing symbols).2 := by
  obtain ⟨left, hwalk⟩ := walks_close symbols
  obtain rfl := (hwalk passed).left_eq
  exact hwalk passed

theorem onDemand_closing (symbols : List Symbol) : OnDemand closing symbols := by
  match symbols with
  | [] =>
    refine ⟨[], rfl, fun ys hys => ?_⟩
    obtain rfl := List.head?_eq_none_iff.1 hys
    rfl
  | x :: rest =>
  by_cases hx : x.section? = some .close
  case neg =>
    have heq : ∀ ys, closing (x :: ys) = ([.reject (some x) .expectedClose], x :: ys) := fun ys => by
      simp [closing, close, hx]
    refine ⟨[], by rw [heq]; rfl, fun ys hys => ?_⟩
    rw [heq] at hys ⊢
    obtain ⟨rest', rfl⟩ := List.head?_eq_some_iff.1 hys
    exact heq rest'
  match rest with
  | [] =>
    have heq : closing [x] = ([.pass, .endsEarly], []) := by simp [closing, close, hx]
    refine ⟨[x], by rw [heq]; rfl, fun ys hys => ?_⟩
    rw [heq] at hys ⊢
    obtain rfl := List.head?_eq_none_iff.1 hys
    exact heq
  | y :: rest =>
  by_cases hy : y.type = .semicolon
  case neg =>
    have heq : ∀ ys, closing (x :: y :: ys) =
        ([.pass, .reject (some y) .expectedFinalSemicolon], y :: ys) := fun ys => by
      simp [closing, close, hx, hy]
    refine ⟨[x], by rw [heq]; rfl, fun ys hys => ?_⟩
    rw [heq] at hys ⊢
    obtain ⟨rest', rfl⟩ := List.head?_eq_some_iff.1 hys
    exact heq rest'
  have heq : ∀ ys, closing (x :: y :: ys) =
      (.pass :: .pass :: ys.head?.toList.map fun z => .reject (some z) .afterClose, ys) := by
    intro ys
    cases ys <;> simp [closing, close, hx, hy, Note.blame]
  refine ⟨[x, y], by rw [heq]; rfl, fun ys hys => ?_⟩
  rw [heq] at hys ⊢
  show closing (x :: y :: ys) = _
  rw [heq, hys]

/-- The outline, with the symbols that are left. -/
def whole : List Symbol → List Note × List Symbol :=
  andThen (andThen (andThen (part .devices) (part .connect)) (part .monitor)) closing

theorem onDemand_whole (symbols : List Symbol) : OnDemand whole symbols :=
  (((onDemand_part _ symbols).andThen (onDemand_part _ _)).andThen (onDemand_part _ _)).andThen
    (onDemand_closing _)

theorem snd_whole (symbols : List Symbol) :
    (whole symbols).2 = symbols.drop ((outline symbols).countP (· == .pass)) := by
  have hdevices := walks_part (s := .devices) (by decide) symbols []
  have hconnect := hdevices.append (walks_part (s := .connect) (by decide) _)
  have hmonitor := hconnect.append (walks_part (s := .monitor) (by decide) _)
  exact (hmonitor.append (walks_closing _)).left_eq

/-- The outline depends on the symbols that are passed and on the next one only. -/
theorem outline_eq_of_take_eq {xs ys : List Symbol}
    (h : ys.take (reach (outline xs)) = xs.take (reach (outline xs))) : outline ys = outline xs := by
  obtain ⟨passed, hpassed, hsame⟩ := onDemand_whole xs
  rw [snd_whole] at hpassed hsame
  rw [reach] at h
  generalize (outline xs).countP (· == .pass) = n at h hpassed hsame
  have htake : passed = xs.take n :=
    (List.append_cancel_right ((List.take_append_drop n xs).trans hpassed)).symm
  have hys : ys.take n = passed := by
    rw [htake, ← Nat.min_eq_left (Nat.le_succ n), ← List.take_take, h, List.take_take]
  have hhead : (ys.drop n).head? = (xs.drop n).head? := by
    rw [List.head?_drop, List.head?_drop, ← List.getElem?_take_of_lt (Nat.lt_succ_self n), h,
      List.getElem?_take_of_lt (Nat.lt_succ_self n)]
  have hwhole := hsame (ys.drop n) hhead
  rw [← hys, List.take_append_drop] at hwhole
  exact congrArg Prod.fst hwhole

end Outline

namespace Definition
variable {d d' : Definition}

theorem take_append_endOfFile {xs : List Symbol} {last : Symbol} (hlast : last.type = .endOfFile)
    (hxs : ∀ x ∈ xs, x.type ≠ .endOfFile) (n : Nat) :
    ((xs ++ [last]).take n).filter (·.type != .endOfFile) = xs.take n := by
  have hend : ([last].take (n - xs.length)).filter (·.type != .endOfFile) = [] :=
    List.filter_eq_nil_iff.2 fun x hx => by
      rw [List.mem_singleton.1 (List.mem_of_mem_take hx), hlast]
      simp
  have hself : (xs.take n).filter (·.type != .endOfFile) = xs.take n :=
    List.filter_eq_self.2 fun x hx => by simpa using hxs x (List.mem_of_mem_take hx)
  rw [List.take_append, List.filter_append, hend, hself, List.append_nil]

/-- Another text that starts with the symbols that have been asked for is read in the same way. -/
theorem notes_eq_of_reads_prefix (h : d.reads <+: Scanner.given ⟨.start, d'.text⟩) :
    d'.notes = d.notes := by
  have hgiven : (Scanner.given ⟨.start, d'.text⟩).filter (·.type != .invalid) =
      d'.valid ++ [d'.last] := by
    have hlast : [d'.last].filter (·.type != .invalid) = [d'.last] := by simp [d'.type_last]
    exact (List.filter_append ..).trans (congrArg (d'.valid ++ ·) hlast)
  have hle : Outline.reach d.notes ≤ (d.valid ++ [d.last]).length := by
    obtain ⟨left, hwalk⟩ := Outline.walks_outline d.valid
    rw [List.length_append]
    exact Nat.succ_le_succ hwalk.countP_le
  have htake := List.prefix_iff_eq_take.1 (h.filter (·.type != .invalid))
  rw [filter_reads_valid, hgiven, List.length_take, Nat.min_eq_left hle] at htake
  refine Outline.outline_eq_of_take_eq ?_
  rw [← take_append_endOfFile d.type_last d.type_ne_endOfFile,
    ← take_append_endOfFile d'.type_last d'.type_ne_endOfFile]
  exact (congrArg (List.filter _) htake).symm

end Definition

/-! ### Symbols that are blamed -/

/-- The symbols that the note may be about; the last one is the end of the file. -/
def Note.blamed (last : Symbol) : Note → List Symbol
  | .reject x _ => [x.getD last]
  | .endsEarly => [last]
  | .complete st => st.symbols
  | .pass | .abandon _ => []

def Event.blamed (last : Symbol) : Event → List Symbol
  | .stray x => [x]
  | .note n => n.blamed last

/-- Nothing is blamed that has not been looked at. -/
theorem Walks.blamed_subset {passed ahead left : List Symbol} {notes : List Note}
    (h : Walks passed ahead notes left) (last : Symbol) : ∀ n ∈ notes,
      n.blamed last ⊆ passed ++ (ahead ++ [last]).take (Outline.reach notes) := by
  unfold Outline.reach
  induction h with
  | nil => exact fun n hn => absurd hn List.not_mem_nil
  | pass _ ih =>
    refine List.forall_mem_cons.2 ⟨List.nil_subset _, fun n hn => ?_⟩
    simpa using ih n hn
  | @reject passed ahead left fault notes _ ih =>
    refine List.forall_mem_cons.2 ⟨?_, by simpa using ih⟩
    cases ahead <;> simp [Note.blamed]
  | endsEarly _ ih =>
    refine List.forall_mem_cons.2 ⟨?_, by simpa using ih⟩
    simp [Note.blamed]
  | abandon _ _ _ ih => exact List.forall_mem_cons.2 ⟨List.nil_subset _, by simpa using ih⟩
  | complete hst hpassed _ ih =>
    refine List.forall_mem_cons.2 ⟨fun x hx => ?_, by simpa using ih⟩
    exact List.mem_append_left _ (hpassed (hst.mem x hx).1)

theorem Definition.blamed_subset_reads (d : Definition) :
    ∀ e ∈ d.events, e.blamed d.last ⊆ d.reads := by
  intro e he x hx
  cases e with
  | stray y =>
    obtain rfl := List.mem_singleton.1 hx
    have hmem : x ∈ d.events.filterMap Event.stray? := List.mem_filterMap.2 ⟨_, he, rfl⟩
    rw [filterMap_stray?_events] at hmem
    exact (List.mem_filter.1 hmem).1
  | note n =>
    obtain ⟨left, hwalk⟩ := Outline.walks_outline d.valid
    have hmem := hwalk.blamed_subset d.last n (note_mem_events.1 he).1 hx
    have hreads : x ∈ d.reads.filter (·.type != .invalid) := by
      rw [filter_reads_valid]
      exact hmem
    exact (List.mem_filter.1 hreads).1

end GateSim
