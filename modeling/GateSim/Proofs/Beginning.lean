import GateSim.Proofs.Grammar

/-!
# Beginnings of statements

A reader of an item stops where no statement can go on. What it has taken by then begins a statement
(`Item.Takes.begins`), with the symbol that it stops at it does not (`Item.Takes.not_begins`), and it
is a statement itself exactly if the reader says so (`Item.Takes.isStatement_iff`). What a reader does
depends on the symbols that it takes and on the next one only, which is why the grammar need not be
gone through for the second of these.
-/

namespace GateSim

open Grammar

namespace Grammar
variable {s : Section} {xs ys zs : List Symbol}

/-- A statement can start with these symbols. -/
def Begins (s : Section) (xs : List Symbol) : Prop := ∃ ys st, IsStatement s (xs ++ ys) st

theorem Begins.of_append (h : Begins s (xs ++ ys)) : Begins s xs := by
  obtain ⟨zs, st, hst⟩ := h
  exact ⟨ys ++ zs, st, by rwa [← List.append_assoc]⟩

/-- A declaration up to its name, where a parameter has to follow. -/
def IsHalfDevice (s : Section) (xs : List Symbol) (name : Symbol) : Prop :=
  s = .devices ∧ ∃ k kind, xs = [k, name] ∧ IsKind kind k ∧ IsName name ∧ kind.takesParameter = true

/-- The first symbols of an item, as many as a statement can start with. -/
structure IsLongestBeginning (s : Section) (item ys : List Symbol) : Prop where
  initial : ys <+: item
  begins : Begins s ys
  longest : ∀ zs, zs <+: item → Begins s zs → zs <+: ys

/-- It is enough that the next symbol cannot follow. -/
theorem IsLongestBeginning.of_not_begins (h : Begins s ys)
    (hnext : ∀ x rest, zs = x :: rest → ¬ Begins s (ys ++ [x])) :
    IsLongestBeginning s (ys ++ zs) ys := by
  have hinitial : ys <+: ys ++ zs := ⟨zs, rfl⟩
  refine ⟨hinitial, h, fun ws hws hbegins => ?_⟩
  rcases List.prefix_or_prefix_of_prefix hws hinitial with hle | ⟨us, rfl⟩
  · exact hle
  cases us with
  | nil => exact ⟨[], by rw [List.append_nil, List.append_nil]⟩
  | cons u us =>
    obtain ⟨vs, hvs⟩ := hws
    rw [List.append_assoc, List.cons_append] at hvs
    have hzs := (List.append_cancel_left hvs).symm
    rw [← List.singleton_append, ← List.append_assoc] at hbegins
    exact absurd hbegins.of_append (hnext u _ hzs)

theorem IsLongestBeginning.unique {ys' : List Symbol} {item : List Symbol}
    (h : IsLongestBeginning s item ys) (h' : IsLongestBeginning s item ys') : ys = ys' :=
  (h'.longest ys h.initial h.begins).eq_of_length
    (Nat.le_antisymm (h'.longest ys h.initial h.begins).length_le
      (h.longest ys' h'.initial h'.begins).length_le)

end Grammar

namespace Item

/-- The reader takes the symbols `ys` from `xs`. It would do so whatever came after the next symbol.
There are symbols with which it would come to the end of a statement, and it has come to the end of
one if it would without what is left. -/
structure Takes (reader : List Symbol → Reading) (xs ys : List Symbol) : Prop where
  append : xs = ys ++ (reader xs).rest
  stops : ∀ x rest, (reader xs).rest = x :: rest →
    ∀ zs, reader (ys ++ x :: zs) = ⟨(reader xs).outcome, x :: zs⟩
  goesOn : ∃ zs st, reader (ys ++ zs) = ⟨.complete st, []⟩
  complete : ∀ st, (reader xs).outcome = .complete st ↔ reader ys = ⟨.complete st, []⟩

variable {xs ys : List Symbol} {x : Symbol}

/-- A reader that has come to the end of a statement. -/
theorem takes_complete (st : Statement) (xs : List Symbol) :
    Takes (fun rest => ⟨.complete st, rest⟩) xs [] :=
  ⟨rfl, fun _ _ h _ => by rw [List.nil_append], ⟨[], st, rfl⟩, fun _ => by simp⟩

/-- A reader that has come to the end of the symbols. -/
theorem takes_nil {reader : List Symbol → Reading} (hrest : (reader []).rest = [])
    (hgoesOn : ∃ zs st, reader zs = ⟨.complete st, []⟩) : Takes reader [] [] where
  append := hrest.symm
  stops := fun _ _ h => by
    rw [hrest] at h
    cases h
  goesOn := hgoesOn
  complete := fun st => by
    rcases hr : reader [] with ⟨outcome, rest⟩
    rw [hr] at hrest
    obtain rfl : rest = [] := hrest
    simp

/-- A reader that goes on as another one after the first symbol. -/
theorem Takes.cons {reader go : List Symbol → Reading} (h : Takes go xs ys)
    (hcons : ∀ zs, reader (x :: zs) = go zs) : Takes reader (x :: xs) (x :: ys) where
  append := by rw [hcons, List.cons_append, ← h.append]
  stops := fun y rest hrest zs => by
    rw [hcons] at hrest ⊢
    exact (hcons _).trans (h.stops y rest hrest zs)
  goesOn := by
    obtain ⟨zs, st, heq⟩ := h.goesOn
    exact ⟨zs, st, (hcons _).trans heq⟩
  complete := fun st => by
    rw [hcons, hcons]
    exact h.complete st

/-- A reader that breaks off at the first symbol. -/
theorem takes_broken {reader : List Symbol → Reading} {fault : SyntaxFault} {name : Option Symbol}
    (hx : ∀ zs, reader (x :: zs) = ⟨.broken fault name, x :: zs⟩)
    (hnil : ∀ st, reader [] ≠ ⟨.complete st, []⟩)
    (hgoesOn : ∃ zs st, reader zs = ⟨.complete st, []⟩) (xs : List Symbol) :
    Takes reader (x :: xs) [] where
  append := by rw [hx, List.nil_append]
  stops := fun y rest hrest zs => by
    rw [hx] at hrest ⊢
    obtain ⟨rfl, -⟩ := List.cons.inj hrest
    exact hx zs
  goesOn := hgoesOn
  complete := fun st => by
    rw [hx]
    exact iff_of_false (by simp) (hnil st)

section expect
variable {α : Type} {accept : Symbol → Option α} {fault : SyntaxFault}
  {go : α → List Symbol → Reading} {a : α}

theorem expect_cons (h : accept x = some a) (xs : List Symbol) :
    expect accept fault go (x :: xs) = go a xs := by
  simp only [expect, h]

theorem expect_cons_none (h : accept x = none) (xs : List Symbol) :
    expect accept fault go (x :: xs) = ⟨.broken fault none, x :: xs⟩ := by
  simp only [expect, h]

theorem takes_expect (hsome : ∃ x a, accept x = some a) (hgo : ∀ a xs, ∃ ys, Takes (go a) xs ys)
    (xs : List Symbol) : ∃ ys, Takes (expect accept fault go) xs ys := by
  have hgoesOn : ∃ zs st, expect accept fault go zs = ⟨.complete st, []⟩ := by
    obtain ⟨x, a, ha⟩ := hsome
    obtain ⟨ys, h⟩ := hgo a []
    obtain ⟨zs, st, heq⟩ := h.goesOn
    exact ⟨x :: (ys ++ zs), st, by rw [expect_cons ha, heq]⟩
  cases xs with
  | nil => exact ⟨[], takes_nil rfl hgoesOn⟩
  | cons x xs =>
    cases hx : accept x with
    | none =>
      exact ⟨[], takes_broken (expect_cons_none hx) (fun st => by simp [expect]) hgoesOn xs⟩
    | some a =>
      obtain ⟨ys, h⟩ := hgo a xs
      exact ⟨x :: ys, h.cons (expect_cons hx)⟩

end expect

theorem takes_expect_guard {p : Symbol → Bool} {fault : SyntaxFault}
    {go : Symbol → List Symbol → Reading} (hp : ∃ x, p x = true)
    (hgo : ∀ a xs, ∃ ys, Takes (go a) xs ys) (xs : List Symbol) :
    ∃ ys, Takes (expect (Option.guard p) fault go) xs ys := by
  obtain ⟨x, hx⟩ := hp
  exact takes_expect ⟨x, x, Option.guard_eq_some_iff.2 ⟨rfl, hx⟩⟩ hgo xs

section optionalPin
variable {go : Option Symbol → List Symbol → Reading}

theorem optionalPin_of_ne_dot (h : ∀ x ∈ xs.head?, x.type ≠ .dot) :
    optionalPin go xs = go none xs := by
  cases xs with
  | nil => rfl
  | cons x xs => exact if_neg (h x rfl)

theorem optionalPin_of_dot (hx : x.type = .dot) (xs : List Symbol) :
    optionalPin go (x :: xs) =
      expect (Option.guard Symbol.isOutputPin) .expectedOutputPin (fun pin => go (some pin)) xs :=
  if_pos hx

/-- Without a dot it goes on without a pin, and a dot can still come where nothing has been taken. -/
theorem takes_optionalPin_of_ne_dot (hxs : ∀ x ∈ xs.head?, x.type ≠ .dot)
    (hdot : ∃ zs st, optionalPin go zs = ⟨.complete st, []⟩) (h : Takes (go none) xs ys) :
    Takes (optionalPin go) xs ys := by
  have hself : optionalPin go xs = go none xs := optionalPin_of_ne_dot hxs
  -- what is taken starts with the same symbol, so it is taken in the same way
  have hys : ∀ zs, (∀ z ∈ zs.head?, ys = [] → z.type ≠ .dot) →
      optionalPin go (ys ++ zs) = go none (ys ++ zs) := by
    intro zs hzs
    refine optionalPin_of_ne_dot fun y hy => ?_
    cases ys with
    | nil => exact hzs y hy rfl
    | cons z ys =>
      have happend := h.append
      rw [List.cons_append] at happend
      refine hxs y ?_
      rw [happend]
      exact hy
  refine ⟨by rw [hself]; exact h.append, fun x rest hrest zs => ?_, ?_, fun st => ?_⟩
  · rw [hself] at hrest ⊢
    rw [hys (x :: zs) fun z hz hnil => ?_]
    · exact h.stops x rest hrest zs
    · refine hxs z ?_
      rw [h.append, hnil, hrest]
      exact hz
  · cases ys with
    | nil => exact hdot
    | cons y ys =>
      obtain ⟨zs, st, heq⟩ := h.goesOn
      exact ⟨zs, st, (hys zs fun _ _ h => by cases h).trans heq⟩
  · have hstop := hys [] (by simp)
    rw [List.append_nil] at hstop
    rw [hself, hstop]
    exact h.complete st

theorem takes_optionalPin (hgo : ∀ pin xs, ∃ ys, Takes (go pin) xs ys) (xs : List Symbol) :
    ∃ ys, Takes (optionalPin go) xs ys := by
  let dot : Symbol := ⟨.dot, .ofString ".", .start⟩
  let pin : Symbol := ⟨.name, PinWord.q, .start⟩
  have hpin : pin.isOutputPin = true := by decide
  have hnamed : ∀ xs, ∃ ys, Takes (expect (Option.guard Symbol.isOutputPin) .expectedOutputPin
      fun pin => go (some pin)) xs ys := takes_expect_guard ⟨pin, hpin⟩ fun a => hgo (some a)
  by_cases hxs : ∃ y zs, xs = y :: zs ∧ y.type = .dot
  · obtain ⟨y, zs, rfl, hy⟩ := hxs
    obtain ⟨ys, h⟩ := hnamed zs
    exact ⟨y :: ys, h.cons (optionalPin_of_dot hy)⟩
  · obtain ⟨ys, h⟩ := hgo none xs
    obtain ⟨vs, hvs⟩ := hnamed []
    obtain ⟨zs, st, heq⟩ := hvs.goesOn
    refine ⟨ys, takes_optionalPin_of_ne_dot (fun x hx hdot => hxs ?_)
      ⟨dot :: (vs ++ zs), st, (optionalPin_of_dot rfl _).trans heq⟩ h⟩
    obtain ⟨zs, rfl⟩ := List.head?_eq_some_iff.1 hx
    exact ⟨x, zs, rfl, hdot⟩

end optionalPin

theorem takes_parameter (kind : Kind) (name : Symbol) (xs : List Symbol) :
    ∃ ys, Takes (parameter kind name) xs ys := by
  by_cases ht : kind.takesParameter = true
  case neg =>
    have hparameter : parameter kind name = fun rest => ⟨.complete (.device kind name none), rest⟩ :=
      funext fun rest => if_neg ht
    rw [hparameter]
    exact ⟨[], takes_complete _ xs⟩
  let accepted (x : Symbol) : Bool := x.type == .number && !(kind.takesNumber && x.hasLeadingZero)
  have hcons : ∀ {x : Symbol} (rest : List Symbol), accepted x = true →
      parameter kind name (x :: rest) = ⟨.complete (.device kind name (some x)), rest⟩ := by
    intro x rest hx
    simp only [accepted, Bool.and_eq_true, beq_iff_eq, Bool.not_eq_true'] at hx
    simp [parameter, ht, hx.1, hx.2]
  have hnot : ∀ {x : Symbol}, accepted x = false →
      ∃ f, ∀ rest, parameter kind name (x :: rest) = ⟨.broken f (some name), x :: rest⟩ := by
    intro x hx
    by_cases hnumber : x.type = .number
    · refine ⟨.leadingZero, fun rest => ?_⟩
      have hzero : (kind.takesNumber && x.hasLeadingZero) = true := by
        simpa [accepted, hnumber] using hx
      simp [parameter, ht, hnumber, hzero]
    · exact ⟨.expectedParameter kind name.text, fun rest => by simp [parameter, ht, hnumber]⟩
  have hnil : parameter kind name [] =
      ⟨.broken (.expectedParameter kind name.text) (some name), []⟩ := by
    simp [parameter, ht]
  let one : Symbol := ⟨.number, .ofString "1", .start⟩
  have hone : accepted one = true := by
    have : one.hasLeadingZero = false := by decide
    simp [accepted, this, one]
  have hgoesOn : ∃ zs st, parameter kind name zs = ⟨.complete st, []⟩ := ⟨[one], _, hcons [] hone⟩
  cases xs with
  | nil => exact ⟨[], takes_nil (by rw [hnil]) hgoesOn⟩
  | cons x xs =>
    cases hx : accepted x with
    | true => exact ⟨[x], (takes_complete _ xs).cons fun zs => hcons zs hx⟩
    | false =>
      obtain ⟨f, hf⟩ := hnot hx
      exact ⟨[], takes_broken hf (fun st => by simp [hnil]) hgoesOn xs⟩

theorem takes_read {s : Section} (hs : s ≠ .close) (xs : List Symbol) : ∃ ys, Takes (read s) xs ys := by
  have hname : ∃ x : Symbol, x.isName = true := ⟨⟨.name, .ofString "A", .start⟩, rfl⟩
  cases s with
  | devices =>
    have hkind : ∃ x k, Symbol.kind? x = some k :=
      ⟨⟨.keyword, Kind.xor.text, .start⟩, .xor, Kind.ofText?_text .xor⟩
    exact takes_expect hkind
      (fun kind => takes_expect_guard hname fun name => takes_parameter kind name) xs
  | connect =>
    have harrow : ∃ x : Symbol, (x.type == .arrow) = true := ⟨⟨.arrow, [], .start⟩, rfl⟩
    have hdot : ∃ x : Symbol, (x.type == .dot) = true := ⟨⟨.dot, [], .start⟩, rfl⟩
    have hpin : ∃ x : Symbol, x.isInputPin = true := ⟨⟨.name, PinWord.data, .start⟩, by decide⟩
    exact takes_expect_guard hname (fun source => takes_optionalPin fun sourcePin =>
      takes_expect_guard harrow fun _ => takes_expect_guard hname fun target =>
      takes_expect_guard hdot fun _ => takes_expect_guard hpin fun targetPin xs =>
      ⟨[], takes_complete (.connection source sourcePin target targetPin) xs⟩) xs
  | monitor =>
    exact takes_expect_guard hname (fun device => takes_optionalPin fun pin xs =>
      ⟨[], takes_complete (.monitor device pin) xs⟩) xs
  | close => exact absurd rfl hs

/-! ### Declarations that break off -/

theorem device_cons {kind : Kind} {k name : Symbol} (hk : k.kind? = some kind)
    (hname : name.isName = true) (xs : List Symbol) :
    device (k :: name :: xs) = parameter kind name xs := by
  have hguard : Option.guard Symbol.isName name = some name := Option.guard_eq_some_iff.2 ⟨rfl, hname⟩
  rw [device, expect_cons hk, expectName, expect_cons hguard]

/-- A parameter is taken or the declaration breaks off. -/
theorem parameter_broken {kind : Kind} (h : kind.takesParameter = true) (name : Symbol)
    (xs : List Symbol) :
    (∃ p rest, xs = p :: rest ∧
      parameter kind name xs = ⟨.complete (.device kind name (some p)), rest⟩) ∨
    ∃ f, parameter kind name xs = ⟨.broken f (some name), xs⟩ := by
  simp only [parameter, h, if_true]
  cases xs with
  | nil => exact .inr ⟨_, rfl⟩
  | cons x xs =>
    dsimp only
    split
    · exact .inr ⟨_, rfl⟩
    · split
      · exact .inr ⟨_, rfl⟩
      · exact .inl ⟨x, xs, rfl, rfl⟩

/-- The reader tells no name when it breaks off. -/
def Nameless (reader : List Symbol → Reading) : Prop :=
  ∀ xs fault name, (reader xs).outcome ≠ .broken fault (some name)

theorem nameless_complete (st : Statement) : Nameless fun rest => ⟨.complete st, rest⟩ :=
  fun _ _ _ h => by cases h

theorem nameless_expect {α : Type} {accept : Symbol → Option α} {fault : SyntaxFault}
    {go : α → List Symbol → Reading} (h : ∀ a, Nameless (go a)) :
    Nameless (expect accept fault go) := by
  intro xs f name
  cases xs with
  | nil => simp [expect]
  | cons x xs =>
    cases hx : accept x with
    | none => simp [expect, hx]
    | some a => simpa only [expect, hx] using h a xs f name

theorem nameless_optionalPin {go : Option Symbol → List Symbol → Reading}
    (h : ∀ pin, Nameless (go pin)) : Nameless (optionalPin go) := by
  intro xs f name
  cases xs with
  | nil => exact h none [] f name
  | cons x xs =>
    rw [optionalPin]
    split
    · exact nameless_expect (fun pin => h (some pin)) xs f name
    · exact h none _ f name

/-- A device declaration that breaks off at its parameter is the only item whose reader tells a
name. -/
theorem exists_of_broken {s : Section} {fault : SyntaxFault} {name : Symbol}
    (h : (read s xs).outcome = .broken fault (some name)) :
    s = .devices ∧ ∃ k kind, xs = k :: name :: (read s xs).rest ∧ k.kind? = some kind ∧
      name.isName = true ∧ kind.takesParameter = true := by
  cases s with
  | devices =>
    refine ⟨rfl, ?_⟩
    cases xs with
    | nil => simp [read, device, expect] at h
    | cons k xs =>
      cases hk : k.kind? with
      | none => simp [read, device, expect, hk] at h
      | some kind =>
        cases xs with
        | nil => simp [read, device, expect, hk, expectName] at h
        | cons name' xs =>
          cases hname : name'.isName with
          | false => simp [read, device, expect, hk, expectName, Option.guard, hname] at h
          | true =>
            have hread : read .devices (k :: name' :: xs) = parameter kind name' xs :=
              device_cons hk hname xs
            rw [hread] at h ⊢
            by_cases ht : kind.takesParameter = true
            case neg => simp [parameter, ht] at h
            rcases parameter_broken ht name' xs with ⟨p, rest, -, heq⟩ | ⟨f, heq⟩
            · simp [heq] at h
            · rw [heq] at h ⊢
              obtain ⟨-, hsome⟩ := Outcome.broken.inj h
              cases hsome
              exact ⟨k, kind, rfl, hk, hname, ht⟩
  | connect =>
    exact absurd h (nameless_expect (fun source => nameless_optionalPin fun sourcePin =>
      nameless_expect fun _ => nameless_expect fun target => nameless_expect fun _ =>
      nameless_expect fun targetPin =>
      nameless_complete (.connection source sourcePin target targetPin)) xs fault name)
  | monitor =>
    exact absurd h (nameless_expect (fun device => nameless_optionalPin fun pin =>
      nameless_complete (.monitor device pin)) xs fault name)
  | close => simp [read] at h

/-! ### Where a reader stops -/

namespace Takes
variable {s : Section} {st : Statement} {rest : List Symbol}

theorem begins (h : Takes (read s) xs ys) : Begins s ys := by
  obtain ⟨zs, st, heq⟩ := h.goesOn
  exact ⟨zs, st, read_eq_complete_iff.1 heq⟩

/-- If a statement went on like this, its reader would not stop here. -/
theorem not_begins (h : Takes (read s) xs ys) (hrest : (read s xs).rest = x :: rest) :
    ¬ Begins s (ys ++ [x]) := by
  rintro ⟨zs, st, hst⟩
  rw [List.append_assoc, List.singleton_append] at hst
  have hread := read_eq_complete_iff.2 hst
  rw [h.stops x rest hrest zs] at hread
  exact List.cons_ne_nil x zs (congrArg Reading.rest hread)

theorem isStatement_iff (h : Takes (read s) xs ys) :
    IsStatement s ys st ↔ (read s xs).outcome = .complete st :=
  read_eq_complete_iff.symm.trans (h.complete st).symm

theorem isLongestBeginning (h : Takes (read s) xs ys) : IsLongestBeginning s xs ys := by
  have hlongest := IsLongestBeginning.of_not_begins h.begins fun _ _ hrest => h.not_begins hrest
  rwa [← h.append] at hlongest

theorem isHalfDevice_iff (h : Takes (read s) xs ys) {name : Symbol} :
    IsHalfDevice s ys name ↔ ∃ fault, (read s xs).outcome = .broken fault (some name) := by
  constructor
  · rintro ⟨rfl, k, kind, rfl, hk, hname, ht⟩
    have hread : read .devices xs = parameter kind name (read .devices xs).rest := by
      have hxs := h.append
      generalize (read .devices xs).rest = rest at hxs
      rw [hxs]
      exact device_cons (Symbol.kind?_eq_some_iff.2 hk) (isName_iff.2 hname) rest
    obtain ⟨p, rest, hrest, heq⟩ | ⟨f, heq⟩ := parameter_broken ht name (read .devices xs).rest
    · -- a parameter would have been taken as well
      rw [← hread] at heq
      rw [heq] at hrest
      exact absurd hrest (List.cons_ne_self p rest).symm
    · exact ⟨f, by rw [hread, heq]⟩
  · rintro ⟨fault, hbroken⟩
    obtain ⟨rfl, k, kind, hxs, hk, hname, ht⟩ := exists_of_broken hbroken
    refine ⟨rfl, k, kind, List.append_cancel_right (h.append.symm.trans hxs), ?_, ?_, ht⟩
    · exact Symbol.kind?_eq_some_iff.1 hk
    · exact isName_iff.1 hname

theorem length_eq (h : Takes (read s) xs ys) : xs.length - (read s xs).rest.length = ys.length := by
  have hlength := congrArg List.length h.append
  rw [List.length_append] at hlength
  omega

/-- The symbols that are taken are passed first. -/
theorem notes_eq (h : Takes (read s) xs ys) (after : List Symbol) : notes s xs after =
    Note.passes ys ++ (match (read s xs).outcome with
      | .complete statement => .complete statement ::
        (if (read s xs).rest = [] then [] else [Note.blame .expectedSeparator (read s xs).rest])
      | .broken fault name =>
        Note.blame fault ((read s xs).rest ++ after) :: name.toList.map Note.abandon) ++
      Note.passes (read s xs).rest := by
  have htake : ys = xs.take (xs.length - (read s xs).rest.length) := by
    rw [h.length_eq]
    exact List.prefix_iff_eq_take.1 ⟨_, h.append.symm⟩
  rw [htake]
  rfl

end Takes

end Item

end GateSim
