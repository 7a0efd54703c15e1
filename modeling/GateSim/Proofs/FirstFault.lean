import GateSim.Proofs.Beginning
import GateSim.Proofs.Outline

/-!
# The first fault of an outline

Symbols that are no sentence have an outline with a first fault. The symbols passed before it start a
sentence, and with the next one, if there is one, they do not
(`Outline.exists_breaksAt_outline`). Each part of an outline breaks at its own first fault
(`BreaksAt`), and so does what contains it, before its other parts (`BreaksAt.extend`) or after them
(`BreaksAt.prepend`).
-/

namespace GateSim

open Grammar

/-- The first fault comes when so many symbols have been passed. -/
def FaultsAfter (notes : List Note) (passed : Nat) : Prop :=
  ∃ before n after, notes = before ++ n :: after ∧ Clean before ∧ n.isFault = true ∧
    before.countP (· == .pass) = passed

namespace FaultsAfter
variable {a b : List Note} {n : Note} {k m : Nat} {sts : List Statement}

theorem head (h : n.isFault = true) (notes : List Note) : FaultsAfter (n :: notes) 0 :=
  ⟨[], n, notes, rfl, fun _ h => (List.not_mem_nil h).elim, h, rfl⟩

theorem append_right (h : FaultsAfter a k) (b : List Note) : FaultsAfter (a ++ b) k := by
  obtain ⟨before, n, after, rfl, hbefore, hn, hk⟩ := h
  exact ⟨before, n, after ++ b, by simp, hbefore, hn, hk⟩

theorem prepend (h : FaultsAfter b k) (ha : Reads a m sts) : FaultsAfter (a ++ b) (m + k) := by
  obtain ⟨before, n, after, rfl, hbefore, hn, rfl⟩ := h
  refine ⟨a ++ before, n, after, by simp, Clean.append_iff.2 ⟨ha.clean, hbefore⟩, hn, ?_⟩
  rw [List.countP_append, ha.passes]

theorem not_clean (h : FaultsAfter a k) : ¬ Clean a := by
  obtain ⟨before, n, after, rfl, -, hn, -⟩ := h
  exact Clean.not_of_mem (by simp) hn

end FaultsAfter

/-- Notes `f` on the symbols `xs` have their first fault after the symbols `ys`. These start a list
that is in the language `P`, and if there is a next symbol there is a fault whatever follows it. -/
structure BreaksAt (f : List Symbol → List Note) (P : List Symbol → Prop) (xs ys : List Symbol) :
    Prop where
  initial : ys <+: xs
  faultsAfter : FaultsAfter (f xs) ys.length
  begins : ∃ zs, P (ys ++ zs)
  stuck : ∀ x rest, xs = ys ++ x :: rest → ∀ zs, ¬ Clean (f (ys ++ x :: zs))

namespace BreaksAt
variable {f g : List Symbol → List Note} {P Q : List Symbol → Prop} {xs ys : List Symbol}

/-- Nothing can start like this. -/
theorem nil {x : Symbol} {rest : List Symbol} (hbegins : ∃ zs, P zs)
    (hfault : ∀ zs, FaultsAfter (f (x :: zs)) 0) : BreaksAt f P (x :: rest) [] where
  initial := ⟨x :: rest, rfl⟩
  faultsAfter := hfault rest
  begins := hbegins
  stuck _ _ h zs := by
    obtain ⟨rfl, -⟩ := List.cons.inj h
    exact (hfault zs).not_clean

/-- Everything is still to come. -/
theorem of_nil (hbegins : ∃ zs, P zs) (hfault : FaultsAfter (f []) 0) : BreaksAt f P [] [] where
  initial := ⟨[], rfl⟩
  faultsAfter := hfault
  begins := hbegins
  stuck _ _ h _ := by cases h

/-- What is read before is read without a fault, and not otherwise for what follows. -/
theorem prepend (us : List Symbol) (h : BreaksAt g Q xs ys)
    (hf : ∀ zs, ∃ a sts, Reads a us.length sts ∧ f (us ++ zs) = a ++ g zs)
    (hP : ∀ zs, Q zs → P (us ++ zs)) : BreaksAt f P (us ++ xs) (us ++ ys) where
  initial := by
    obtain ⟨zs, rfl⟩ := h.initial
    exact ⟨zs, List.append_assoc ..⟩
  faultsAfter := by
    obtain ⟨a, sts, ha, heq⟩ := hf xs
    rw [heq, List.length_append]
    exact h.faultsAfter.prepend ha
  begins := by
    obtain ⟨zs, hzs⟩ := h.begins
    exact ⟨zs, by rw [List.append_assoc]; exact hP _ hzs⟩
  stuck x rest hxs zs hclean := by
    rw [List.append_assoc] at hxs hclean
    obtain ⟨a, sts, -, heq⟩ := hf (ys ++ x :: zs)
    rw [heq, Clean.append_iff] at hclean
    exact h.stuck x rest (List.append_cancel_left hxs) zs hclean.2

/-- What is read after it takes part only once this has been read. -/
theorem extend (h : BreaksAt f P xs ys)
    (hg : ∀ zs, zs.head? = xs.head? → ∃ b, g zs = f zs ++ b)
    (hQ : ∀ us, P us → ∃ zs, Q (us ++ zs)) : BreaksAt g Q xs ys where
  initial := h.initial
  faultsAfter := by
    obtain ⟨b, hb⟩ := hg xs rfl
    rw [hb]
    exact h.faultsAfter.append_right b
  begins := by
    obtain ⟨zs, hzs⟩ := h.begins
    obtain ⟨zs', hzs'⟩ := hQ _ hzs
    exact ⟨zs ++ zs', by rwa [← List.append_assoc]⟩
  stuck x rest hxs zs hclean := by
    have hhead : (ys ++ x :: zs).head? = xs.head? := by
      rw [hxs]
      cases ys <;> rfl
    obtain ⟨b, hb⟩ := hg _ hhead
    rw [hb, Clean.append_iff] at hclean
    exact h.stuck x rest hxs zs hclean.1

end BreaksAt

/-! ### Items -/

namespace Item
variable {s : Section} {xs ys : List Symbol}

theorem Takes.faultsAfter (h : Takes (read s) xs ys) (hno : ∀ st, ¬ IsStatement s xs st)
    (after : List Symbol) : FaultsAfter (notes s xs after) ys.length := by
  rw [h.notes_eq]
  refine FaultsAfter.append_right ?_ _
  split
  · next st hst =>
    have hrest : (read s xs).rest ≠ [] := by
      intro hnil
      have hxs := h.append
      rw [hnil, List.append_nil] at hxs
      exact hno st (hxs ▸ h.isStatement_iff.2 hst)
    rw [if_neg hrest]
    have hfault := (FaultsAfter.head (Note.isFault_blame .expectedSeparator (read s xs).rest) []).prepend
      ((Reads.passOver ys).append (.complete st))
    simpa using hfault
  · exact (FaultsAfter.head (Note.isFault_blame ..) _).prepend (.passOver ys)

end Item

namespace Grammar
variable {s : Section}

/-- Items and the semicolon that ends their section. -/
def IsClosedItems (s : Section) (ys : List Symbol) : Prop :=
  ∃ xs semicolon sts, ys = xs ++ [semicolon] ∧ semicolon.type = .semicolon ∧ IsItems s xs sts

/-- `END;`. -/
def IsClose (ys : List Symbol) : Prop :=
  ∃ word semicolon, ys = [word, semicolon] ∧ IsWord .close word ∧ semicolon.type = .semicolon

theorem exists_type (t : SymbolType) : ∃ x : Symbol, x.type = t := ⟨⟨t, [], .start⟩, rfl⟩

theorem exists_isWord (s : Section) : ∃ x, IsWord s x := ⟨⟨.keyword, s.text, .start⟩, rfl, rfl⟩

theorem exists_isClose : ∃ zs, IsClose zs := by
  obtain ⟨word, hword⟩ := exists_isWord .close
  obtain ⟨semicolon, hsemi⟩ := exists_type .semicolon
  exact ⟨_, word, semicolon, rfl, hword, hsemi⟩

theorem IsStatement.isClosedItems {xs : List Symbol} {st : Statement} (h : IsStatement s xs st) :
    ∃ zs, IsClosedItems s (xs ++ zs) := by
  obtain ⟨semicolon, hsemi⟩ := exists_type .semicolon
  exact ⟨[semicolon], xs, semicolon, [st], rfl, hsemi, .single h⟩

theorem Begins.isClosedItems {xs : List Symbol} (h : Begins s xs) :
    ∃ zs, IsClosedItems s (xs ++ zs) := by
  obtain ⟨ys, st, hst⟩ := h
  obtain ⟨zs, hzs⟩ := hst.isClosedItems
  exact ⟨ys ++ zs, by rwa [← List.append_assoc]⟩

theorem exists_isClosedItems (hs : s ≠ .close) : ∃ zs, IsClosedItems s zs := by
  obtain ⟨ys, h⟩ := Item.takes_read hs []
  obtain ⟨zs, hzs⟩ := h.begins.isClosedItems
  exact ⟨_, hzs⟩

theorem exists_isPart (hs : s ≠ .close) : ∃ xs sts, IsPart s xs sts := by
  obtain ⟨word, hword⟩ := exists_isWord s
  obtain ⟨colon, hcolon⟩ := exists_type .colon
  obtain ⟨_, xs, semicolon, sts, rfl, hsemi, hitems⟩ := exists_isClosedItems hs
  exact ⟨_, sts, .items hword hcolon hitems hsemi⟩

end Grammar

namespace Outline
variable {s : Section} {symbols xs ys zs : List Symbol} {x : Symbol} {st : Statement}

/-- The notes on the first item come first. -/
theorem items_eq_append (s : Section) (symbols : List Symbol) : ∃ after b,
    (items s symbols).1 = Item.notes s (symbols.takeWhile (!·.isSeparator)) after ++ b := by
  fun_cases items s symbols with
  | case1 => exact ⟨_, _, rfl⟩
  | case2 => exact ⟨_, _, rfl⟩
  | case3 => exact ⟨_, _, rfl⟩
  | case4 => exact ⟨_, _, rfl⟩

theorem exists_isStatement_of_clean (h : Clean (items s symbols).1) :
    ∃ st, IsStatement s (symbols.takeWhile (!·.isSeparator)) st := by
  obtain ⟨after, b, heq⟩ := items_eq_append s symbols
  rw [heq, Clean.append_iff] at h
  exact Item.exists_isStatement h.1

theorem takeWhile_append (hys : ∀ y ∈ ys, y.isSeparator = false) (zs : List Symbol) :
    (ys ++ zs).takeWhile (!·.isSeparator) = ys ++ zs.takeWhile (!·.isSeparator) :=
  List.takeWhile_append_of_pos (by simpa using hys)

/-- An item goes on up to the first separator. -/
theorem cut {rest : List Symbol} (h : symbols.dropWhile (!·.isSeparator) = x :: rest) :
    symbols = symbols.takeWhile (!·.isSeparator) ++ x :: rest ∧ x.isSeparator = true := by
  refine ⟨by rw [← h, List.takeWhile_append_dropWhile], ?_⟩
  have hhead := List.head?_dropWhile_not (!·.isSeparator) symbols
  rw [h] at hhead
  simpa using hhead

theorem isSeparator_of_mem_takeWhile {y : Symbol} (hy : y ∈ symbols.takeWhile (!·.isSeparator)) :
    y.isSeparator = false := by
  simpa using List.all_eq_true.1 List.all_takeWhile y hy

/-- An item that is no statement breaks off where none can go on, or at its end. -/
theorem breaksAt_item (hno : ∀ st, ¬ IsStatement s (symbols.takeWhile (!·.isSeparator)) st)
    (ht : Item.Takes (Item.read s) (symbols.takeWhile (!·.isSeparator)) ys) :
    BreaksAt (fun xs => (items s xs).1) (IsClosedItems s) symbols ys := by
  have hys : ∀ y ∈ ys, y.isSeparator = false := fun y hy =>
    isSeparator_of_mem_takeWhile (by rw [ht.append]; exact List.mem_append_left _ hy)
  have hsymbols := (List.takeWhile_append_dropWhile (p := (!·.isSeparator)) (l := symbols)).symm
  refine ⟨?_, ?_, ht.begins.isClosedItems, fun x rest hrest zs hclean => ?_⟩
  · rw [hsymbols, ht.append, List.append_assoc]
    exact ⟨_, rfl⟩
  · obtain ⟨after, b, heq⟩ := items_eq_append s symbols
    rw [heq]
    exact (ht.faultsAfter hno after).append_right b
  obtain ⟨st, hst⟩ := exists_isStatement_of_clean hclean
  rw [takeWhile_append hys] at hst
  cases hleft : (Item.read s (symbols.takeWhile (!·.isSeparator))).rest with
  | nil =>
    -- the item ends here, so the next symbol is a separator
    have hxs := ht.append
    rw [hleft, List.append_nil] at hxs
    rw [hrest, takeWhile_append hys] at hxs
    have hx : x.isSeparator = true := by
      refine Decidable.byContradiction fun hx => ?_
      rw [List.takeWhile_cons_of_pos (by simpa using hx)] at hxs
      simp at hxs
    rw [List.takeWhile_cons_of_neg (by simpa using hx), List.append_nil] at hst
    rw [hrest, takeWhile_append hys, List.takeWhile_cons_of_neg (by simpa using hx),
      List.append_nil] at hno
    exact hno st hst
  | cons y left =>
    have hnot := ht.not_begins hleft
    have hxs := ht.append
    rw [hleft] at hxs
    have hxy : x = y := by
      rw [hxs, List.append_assoc, hrest] at hsymbols
      exact (List.cons.inj (List.append_cancel_left hsymbols)).1
    subst hxy
    have hx : x.isSeparator = false := isSeparator_of_mem_takeWhile (by rw [hxs]; simp)
    rw [List.takeWhile_cons_of_pos (by simpa using hx)] at hst
    exact hnot ⟨zs.takeWhile (!·.isSeparator), st, by simpa using hst⟩

theorem isStatement_or_breaksAt (hs : s ≠ .close) (symbols : List Symbol) :
    (∃ st, IsStatement s (symbols.takeWhile (!·.isSeparator)) st) ∨
      ∃ ys, BreaksAt (fun xs => (items s xs).1) (IsClosedItems s) symbols ys := by
  by_cases hst : ∃ st, IsStatement s (symbols.takeWhile (!·.isSeparator)) st
  · exact .inl hst
  · obtain ⟨ys, ht⟩ := Item.takes_read hs (symbols.takeWhile (!·.isSeparator))
    exact .inr ⟨ys, breaksAt_item (not_exists.1 hst) ht⟩

/-- After a statement that nothing ends, its end is missing. -/
theorem breaksAt_unended (hst : IsStatement s xs st) :
    BreaksAt (fun xs => (items s xs).1) (IsClosedItems s) xs xs := by
  refine ⟨⟨[], List.append_nil _⟩, ?_, hst.isClosedItems, fun x rest hrest => ?_⟩
  · rw [items_of_isSeparator hst.isSeparator]
    exact (FaultsAfter.head rfl []).prepend (Item.reads_notes [] hst)
  · simp at hrest

/-- A statement is not followed by the word of a section. -/
theorem breaksAt_unclosed (hst : IsStatement s xs st) (hx : x.isSeparator = true)
    (hcomma : x.type ≠ .comma) (hsemi : x.type ≠ .semicolon) (rest : List Symbol) :
    BreaksAt (fun xs => (items s xs).1) (IsClosedItems s) (xs ++ x :: rest) xs := by
  have hfault : ∀ zs, FaultsAfter (items s (xs ++ x :: zs)).1 xs.length := fun zs => by
    rw [items_append hst.isSeparator hx, if_neg hcomma, if_neg hsemi]
    exact (FaultsAfter.head rfl []).prepend (Item.reads_notes _ hst)
  refine ⟨⟨x :: rest, rfl⟩, hfault rest, hst.isClosedItems, fun y left heq zs => ?_⟩
  obtain ⟨rfl, -⟩ := List.cons.inj (List.append_cancel_left heq)
  exact (hfault zs).not_clean

/-- Items break off where those after the first one do. -/
theorem breaksAt_comma (hst : IsStatement s xs st) (hx : x.type = .comma)
    (h : BreaksAt (fun xs => (items s xs).1) (IsClosedItems s) symbols ys) :
    BreaksAt (fun xs => (items s xs).1) (IsClosedItems s) (xs ++ [x] ++ symbols)
      (xs ++ [x] ++ ys) := by
  refine h.prepend _ (fun zs => ⟨Item.notes s xs (x :: zs) ++ [.pass], [st], ?_, ?_⟩)
    fun zs hzs => ?_
  · rw [List.length_append]
    exact (Item.reads_notes _ hst).append .pass
  · rw [List.append_assoc, List.singleton_append,
      items_append hst.isSeparator (Symbol.isSeparator_of_type (.inl hx)), if_pos hx,
      List.append_assoc, List.singleton_append]
  · obtain ⟨us, semicolon, sts, rfl, hsemi, hitems⟩ := hzs
    exact ⟨xs ++ x :: us, semicolon, st :: sts, by simp, hsemi, .cons hst hx hitems⟩

theorem exists_breaksAt_items (hs : s ≠ .close) (h : ¬ Clean (items s symbols).1) :
    ∃ ys, BreaksAt (fun xs => (items s xs).1) (IsClosedItems s) symbols ys := by
  fun_induction items s symbols with
  | case1 symbols item hdrop =>
    obtain ⟨st, hst⟩ | hbreaks := isStatement_or_breaksAt hs symbols
    case inr => exact hbreaks
    have hitem : symbols.takeWhile (!·.isSeparator) = symbols := by
      have happend := List.takeWhile_append_dropWhile (p := (!·.isSeparator)) (l := symbols)
      rwa [hdrop, List.append_nil] at happend
    rw [hitem] at hst
    exact ⟨symbols, breaksAt_unended hst⟩
  | case2 symbols item x rest hdrop notes hx more left hmore ih =>
    obtain ⟨st, hst⟩ | hbreaks := isStatement_or_breaksAt hs symbols
    case inr => exact hbreaks
    obtain ⟨ys, hys⟩ := ih fun hclean => by
      rw [hmore] at hclean
      refine h (Clean.append_iff.2 ⟨(Item.reads_notes _ hst).clean, ?_⟩)
      exact Clean.append_iff.2 ⟨Reads.pass.clean, hclean⟩
    obtain ⟨hsymbols, -⟩ := cut hdrop
    rw [hsymbols, ← List.singleton_append, ← List.append_assoc]
    exact ⟨_, breaksAt_comma hst hx hys⟩
  | case3 symbols item x rest hdrop notes hcomma hsemi =>
    obtain ⟨st, hst⟩ | hbreaks := isStatement_or_breaksAt hs symbols
    case inr => exact hbreaks
    exact absurd (Clean.append_iff.2 ⟨(Item.reads_notes _ hst).clean, Reads.pass.clean⟩) h
  | case4 symbols item x rest hdrop notes hcomma hsemi =>
    obtain ⟨st, hst⟩ | hbreaks := isStatement_or_breaksAt hs symbols
    case inr => exact hbreaks
    obtain ⟨hsymbols, hsep⟩ := cut hdrop
    rw [hsymbols]
    exact ⟨item, breaksAt_unclosed hst hsep hcomma hsemi rest⟩

/-! ### Sections -/

/-- What a section goes on with after its word, and after its colon. -/
theorem exists_breaksAt_content {word colon : Symbol} (hs : s ≠ .close) (hword : IsWord s word)
    (hcolon : colon.type = .colon) (h : ¬ Clean (content s symbols).1) :
    ∃ ys, BreaksAt (fun xs => (content s xs).1)
      (fun xs => ∃ sts, IsPart s (word :: colon :: xs) sts) symbols ys := by
  have hpart : ∀ us, IsClosedItems s us →
      ∃ zs sts, IsPart s (word :: colon :: (us ++ zs)) sts := by
    rintro _ ⟨xs, semicolon, sts, rfl, hsemi, hitems⟩
    exact ⟨[], sts, by simpa using IsPart.items hword hcolon hitems hsemi⟩
  have hitems : ∀ xs, xs.head?.any (·.type == .semicolon) = false → content s xs = items s xs := by
    intro xs hxs
    cases xs with
    | nil => rfl
    | cons x xs => exact if_neg (by simpa using hxs)
  cases hhead : symbols.head?.any (·.type == .semicolon) with
  | false =>
    rw [hitems symbols hhead] at h
    obtain ⟨ys, hys⟩ := exists_breaksAt_items hs h
    refine ⟨ys, hys.extend (fun zs hzs => ⟨[], ?_⟩) hpart⟩
    rw [hitems zs (by rw [hzs]; exact hhead), List.append_nil]
  | true =>
    obtain ⟨x, rest, rfl, hx⟩ : ∃ x rest, symbols = x :: rest ∧ x.type = .semicolon := by
      cases symbols with
      | nil => simp at hhead
      | cons x rest => exact ⟨x, rest, rfl, by simpa using hhead⟩
    by_cases hdevices : s = .devices
    · obtain ⟨us, hus⟩ := exists_isClosedItems hs
      refine ⟨[], .nil ⟨_, hpart us hus |>.choose_spec⟩ fun zs => ?_⟩
      simp only [content, if_pos hx, if_pos hdevices]
      exact .head rfl _
    · simp only [content, if_pos hx, if_neg hdevices] at h
      exact absurd Reads.pass.clean h

theorem exists_breaksAt_afterWord {word : Symbol} (hs : s ≠ .close) (hword : IsWord s word)
    (h : ¬ Clean (afterWord s symbols).1) :
    ∃ ys, BreaksAt (fun xs => (afterWord s xs).1) (fun xs => ∃ sts, IsPart s (word :: xs) sts)
      symbols ys := by
  obtain ⟨colon, hcolon⟩ := exists_type .colon
  obtain ⟨_, xs, semicolon, sts, rfl, hsemi, hitems⟩ := exists_isClosedItems hs
  have hbegins : ∃ zs sts, IsPart s (word :: zs) sts := ⟨_, sts, .items hword hcolon hitems hsemi⟩
  cases symbols with
  | nil => exact ⟨[], .of_nil hbegins (.head rfl _)⟩
  | cons x rest =>
    by_cases hx : x.type = .colon
    · have hcons : ∀ zs, afterWord s (x :: zs) = (.pass :: (content s zs).1, (content s zs).2) :=
        fun zs => by simp [afterWord, Outline.colon, hx]
      rw [hcons, Clean.cons_iff] at h
      obtain ⟨ys, hys⟩ := exists_breaksAt_content hs hword hx fun hclean => h ⟨rfl, hclean⟩
      exact ⟨x :: ys, hys.prepend [x] (fun zs => ⟨_, [], .pass, congrArg Prod.fst (hcons zs)⟩)
        fun zs hzs => hzs⟩
    · refine ⟨[], .nil hbegins fun zs => ?_⟩
      simp only [afterWord, Outline.colon, if_neg hx]
      exact .head rfl _

theorem exists_breaksAt_part (hs : s ≠ .close) (h : ¬ Clean (part s symbols).1) :
    ∃ ys, BreaksAt (fun xs => (part s xs).1) (fun xs => ∃ sts, IsPart s xs sts) symbols ys := by
  have hfault : ∀ xs, xs.head?.any (·.section? == some s) = false →
      FaultsAfter (part s xs).1 0 := by
    intro xs hxs
    have hhead : ∀ notes, FaultsAfter (Note.blame (.expectedSection s) xs :: notes) 0 :=
      FaultsAfter.head (Note.isFault_blame ..)
    simp only [part, hxs]
    split
    · exact hhead _
    · split
      · exact (hhead _).append_right _
      · exact hhead _
  cases symbols with
  | nil => exact ⟨[], .of_nil (Grammar.exists_isPart hs) (hfault [] rfl)⟩
  | cons x rest =>
    by_cases hx : x.section? = some s
    case neg => exact ⟨[], .nil (Grammar.exists_isPart hs) fun zs => hfault _ (by simpa using hx)⟩
    have hword := Symbol.section?_eq_some_iff.1 hx
    rw [part_of_isWord hword, Clean.cons_iff] at h
    obtain ⟨ys, hys⟩ := exists_breaksAt_afterWord hs hword fun hclean => h ⟨rfl, hclean⟩
    refine ⟨x :: ys, hys.prepend [x] (fun zs => ⟨_, [], .pass, ?_⟩) fun zs hzs => hzs⟩
    exact congrArg Prod.fst (part_of_isWord hword)

/-! ### Outlines -/

theorem exists_breaksAt_close (h : ¬ Clean (close symbols)) :
    ∃ ys, BreaksAt close IsClose symbols ys := by
  cases symbols with
  | nil => exact ⟨[], .of_nil exists_isClose (.head rfl _)⟩
  | cons x rest =>
    by_cases hx : x.section? = some .close
    case neg =>
      refine ⟨[], .nil exists_isClose fun zs => ?_⟩
      simp only [close, if_neg hx]
      exact .head rfl _
    have hword := Symbol.section?_eq_some_iff.1 hx
    -- what is noted after `END`
    let ends (zs : List Symbol) : List Note := (close (x :: zs)).tail
    have hclose : ∀ zs, close (x :: zs) = .pass :: ends zs := fun zs => by simp [ends, close, hx]
    suffices hends : ∃ ys, BreaksAt ends (fun zs => IsClose (x :: zs)) rest ys by
      obtain ⟨ys, hys⟩ := hends
      exact ⟨x :: ys, hys.prepend [x] (fun zs => ⟨_, [], .pass, hclose zs⟩) fun _ h => h⟩
    have hbegins : ∃ zs, IsClose (x :: zs) := by
      obtain ⟨semicolon, hsemi⟩ := exists_type .semicolon
      exact ⟨[semicolon], x, semicolon, rfl, hword, hsemi⟩
    cases rest with
    | nil => exact ⟨[], .of_nil hbegins (by simpa [ends, close, hx] using .head rfl [])⟩
    | cons y rest =>
      by_cases hy : y.type = .semicolon
      case neg =>
        exact ⟨[], .nil hbegins fun zs => by simpa [ends, close, hx, hy] using .head rfl []⟩
      cases rest with
      | nil => exact absurd (reads_close hword hy).clean h
      | cons z rest =>
        have hafter : ∀ zs, FaultsAfter (ends (y :: z :: zs)) 1 := fun zs => by
          have hends : ends (y :: z :: zs) = [.pass] ++ [.reject (some z) .afterClose] := by
            simp [ends, close, hx, hy, Note.blame]
          rw [hends]
          exact (FaultsAfter.head rfl []).prepend .pass
        refine ⟨[y], ⟨_, rfl⟩, hafter rest, ⟨[], x, y, rfl, hword, hy⟩, fun z' rest' heq zs => ?_⟩
        obtain ⟨rfl, -⟩ := List.cons.inj (List.cons.inj heq).2
        exact (hafter zs).not_clean

/-- A section and what comes after it. -/
def IsPartThen (s : Section) (Q : List Symbol → Prop) (xs : List Symbol) : Prop :=
  ∃ us vs sts, xs = us ++ vs ∧ IsPart s us sts ∧ Q vs

section partThen
variable {g : List Symbol → List Note} {Q : List Symbol → Prop}

theorem exists_isPartThen (hs : s ≠ .close) (h : ∃ zs, Q zs) : ∃ zs, IsPartThen s Q zs := by
  obtain ⟨us, sts, hus⟩ := Grammar.exists_isPart hs
  obtain ⟨vs, hvs⟩ := h
  exact ⟨us ++ vs, us, vs, sts, rfl, hus, hvs⟩

theorem exists_breaksAt_partThen (hs : s ≠ .close) (hQ : ∃ zs, Q zs)
    (hg : ∀ left, ¬ Clean (g left) → ∃ ys, BreaksAt g Q left ys)
    (h : ¬ Clean ((part s symbols).1 ++ g (part s symbols).2)) :
    ∃ ys, BreaksAt (fun xs => (part s xs).1 ++ g (part s xs).2) (IsPartThen s Q) symbols ys := by
  by_cases hpart : Clean (part s symbols).1
  case neg =>
    obtain ⟨ys, hys⟩ := exists_breaksAt_part hs hpart
    obtain ⟨vs, hvs⟩ := hQ
    exact ⟨ys, hys.extend (fun _ _ => ⟨_, rfl⟩)
      fun us ⟨sts, hus⟩ => ⟨vs, us, vs, sts, rfl, hus, hvs⟩⟩
  obtain ⟨us, sts, hsymbols, hus⟩ := exists_isPart hpart
  obtain ⟨ys, hys⟩ := hg _ fun hclean => h (Clean.append_iff.2 ⟨hpart, hclean⟩)
  rw [hsymbols]
  refine ⟨us ++ ys, hys.prepend _ (fun zs => ⟨_, sts, (reads_part zs hus).1, ?_⟩)
    fun zs hzs => ⟨us, zs, sts, rfl, hus, hzs⟩⟩
  simp only [(reads_part zs hus).2]

end partThen

/-- Where the outline of symbols that are no sentence has its first fault. -/
theorem exists_breaksAt_outline (h : ¬ Clean (outline symbols)) :
    ∃ ys, BreaksAt outline (fun xs => ∃ sts, IsSentence xs sts) symbols ys := by
  have hmonitor : Section.monitor ≠ .close := by decide
  have hconnect : Section.connect ≠ .close := by decide
  have houtline : ∀ xs, outline xs = (part .devices xs).1 ++ ((part .connect (part .devices xs).2).1 ++
      ((part .monitor (part .connect (part .devices xs).2).2).1 ++
        close (part .monitor (part .connect (part .devices xs).2).2).2)) := fun xs => by
    simp only [outline, List.append_assoc]
  rw [houtline] at h
  obtain ⟨ys, hys⟩ := exists_breaksAt_partThen (by decide)
    (exists_isPartThen hconnect (exists_isPartThen hmonitor exists_isClose))
    (fun _ => exists_breaksAt_partThen hconnect (exists_isPartThen hmonitor exists_isClose)
      fun _ => exists_breaksAt_partThen hmonitor exists_isClose fun _ => exists_breaksAt_close) h
  refine ⟨ys, hys.extend (fun zs _ => ⟨[], by rw [houtline, List.append_nil]⟩) ?_⟩
  rintro _ ⟨us, _, ds, rfl, hds, vs, _, cs, rfl, hcs, ws, _, ms, rfl, hms, word, semicolon, rfl,
    hword, hsemi⟩
  exact ⟨[], ds ++ cs ++ ms, by simpa using IsSentence.mk hds hcs hms hword hsemi⟩

end Outline

end GateSim
