import Mathlib.Algebra.Group.Nat.Defs
import Mathlib.Data.List.Induction
import GateSim.State
import GateSim.Proofs.Spelling

/-!
# Parameters of declarations

`Kind.Accepts` is the domain of the parameters of a kind and `Kind.start` the state that a parameter
stands for. Of what may be written as a parameter, exactly the domain is read, and as that state
(`State.ofParameter_of_accepts`, `State.ofParameter_of_not_accepts`). A number without a leading
zero has at most nine digits exactly if its value is below `10 ^ 9`.
-/

namespace GateSim

namespace Text
variable {b : Byte} {t : Text}

def IsNumber (t : Text) : Prop := t ≠ [] ∧ ∀ b ∈ t, b.isDigit = true

/-- A number of several digits does not start with a zero. -/
def IsPlain (t : Text) : Prop := 1 < t.length → t.head? ≠ some '0'.toUInt8

theorem toNat_zero : '0'.toUInt8.toNat = 48 := by decide

theorem isDigit_iff : b.isDigit = true ↔ 48 ≤ b.toNat ∧ b.toNat ≤ 57 := by
  simp only [Byte.isDigit, Bool.and_eq_true, decide_eq_true_eq, UInt8.le_iff_toNat_le]
  exact Iff.rfl

theorem toNat_of_isDigit (h : b.isDigit = true) : 48 ≤ b.toNat ∧ b.toNat ≤ 57 := isDigit_iff.1 h

theorem foldl_value (v : Nat) (t : Text) :
    t.foldl (fun v b => v * 10 + (b.toNat - '0'.toUInt8.toNat)) v = v * 10 ^ t.length + value t := by
  induction t generalizing v with
  | nil => simp [value]
  | cons b t ih =>
    have hvalue : value (b :: t) = (0 * 10 + (b.toNat - '0'.toUInt8.toNat)) * 10 ^ t.length +
        value t := ih _
    rw [List.foldl_cons, ih, hvalue, List.length_cons, Nat.pow_succ, Nat.zero_mul, Nat.zero_add,
      Nat.add_mul, Nat.mul_assoc, Nat.mul_comm 10, Nat.add_assoc]

theorem value_cons (b : Byte) (t : Text) :
    value (b :: t) = (b.toNat - 48) * 10 ^ t.length + value t := by
  rw [value, List.foldl_cons, foldl_value, Nat.zero_mul, Nat.zero_add, toNat_zero]

theorem value_lt (h : ∀ b ∈ t, b.isDigit = true) : t.value < 10 ^ t.length := by
  induction t with
  | nil => simp [value]
  | cons b t ih =>
    obtain ⟨hb, ht⟩ := List.forall_mem_cons.1 h
    have hdigit : b.toNat - 48 ≤ 9 := by have := toNat_of_isDigit hb; omega
    calc value (b :: t) = (b.toNat - 48) * 10 ^ t.length + value t := value_cons b t
      _ < 9 * 10 ^ t.length + 10 ^ t.length :=
        Nat.add_lt_add_of_le_of_lt (Nat.mul_le_mul_right _ hdigit) (ih ht)
      _ = 10 ^ (b :: t).length := by rw [List.length_cons, Nat.pow_succ]; omega

theorem le_value (h : b.isDigit = true) (h0 : b ≠ '0'.toUInt8) : 10 ^ t.length ≤ value (b :: t) := by
  have hb := toNat_of_isDigit h
  have hne : b.toNat ≠ 48 := fun heq => h0 (UInt8.toNat_inj.1 (heq.trans toNat_zero.symm))
  rw [value_cons]
  calc 10 ^ t.length ≤ (b.toNat - 48) * 10 ^ t.length := Nat.le_mul_of_pos_left _ (by omega)
    _ ≤ _ := Nat.le_add_right ..

theorem length_le_iff (h : t.IsNumber) (hp : t.IsPlain) (n : Nat) :
    t.length ≤ n + 1 ↔ t.value < 10 ^ (n + 1) := by
  refine ⟨fun hl => Nat.lt_of_lt_of_le (value_lt h.2) (Nat.pow_le_pow_right (by decide) hl),
    fun hv => ?_⟩
  match t, h, hp with
  | [], h, _ => exact absurd rfl h.1
  | [_], _, _ => simp
  | b :: c :: t, h, hp =>
    have h0 : b ≠ '0'.toUInt8 := fun heq => hp (by simp) (by simp [heq])
    have hle := le_value (t := c :: t) (h.2 b (List.mem_cons_self ..)) h0
    exact (Nat.pow_lt_pow_iff_right (by decide)).1 (Nat.lt_of_le_of_lt hle hv)

/-! ### Numerals -/

/-- A decimal numeral of a number, with any number of zeros before it. -/
def Denotes (t : Text) (n : Nat) : Prop :=
  ∃ zeros, t = List.replicate zeros '0'.toUInt8 ++ decimal n

theorem value_append (t u : Text) : value (t ++ u) = value t * 10 ^ u.length + value u := by
  rw [value, List.foldl_append, foldl_value]
  rfl

theorem value_singleton (b : Byte) : value [b] = b.toNat - 48 := by
  rw [value_cons, List.length_nil, Nat.pow_zero, Nat.mul_one]
  rfl

theorem toNat_digit {n : Nat} (h : n < 10) : n.digitChar.toUInt8.toNat = 48 + n := by
  revert n
  decide

theorem decimal_of_lt {n : Nat} (h : n < 10) : decimal n = [n.digitChar.toUInt8] := by
  rw [decimal, Nat.toDigits_of_lt_base h, List.map_singleton]

theorem decimal_digit (h : b.isDigit = true) :
    b.toNat - 48 < 10 ∧ decimal (b.toNat - 48) = [b] := by
  have hb := toNat_of_isDigit h
  have hlt : b.toNat - 48 < 10 := by omega
  have hdigit : (b.toNat - 48).digitChar.toUInt8 = b := by
    refine UInt8.toNat_inj.1 ?_
    rw [toNat_digit hlt]
    omega
  exact ⟨hlt, by rw [decimal_of_lt hlt, hdigit]⟩

theorem decimal_append {n m : Nat} (hn : 0 < n) (hm : m < 10) :
    decimal n ++ decimal m = decimal (n * 10 + m) := by
  rw [decimal, decimal, ← List.map_append, Nat.toDigits_append_toDigits (by decide) hn hm,
    Nat.mul_comm, decimal]

theorem isNumber_decimal (n : Nat) : (decimal n).IsNumber ∧ (decimal n).value = n := by
  induction n using Nat.strongRecOn with
  | ind n ih =>
    by_cases hn : n < 10
    · have hdigit := toNat_digit hn
      rw [decimal_of_lt hn, value_singleton, hdigit]
      refine ⟨⟨List.cons_ne_nil _ _, fun b hb => ?_⟩, by omega⟩
      rw [List.mem_singleton.1 hb, isDigit_iff]
      omega
    · obtain ⟨⟨-, hdigits⟩, hvalue⟩ := ih (n / 10) (by omega)
      obtain ⟨⟨hne, hdigits'⟩, hvalue'⟩ := ih (n % 10) (by omega)
      have hmod : n % 10 < 10 := Nat.mod_lt n (by decide)
      have hlength : (decimal (n % 10)).length = 1 := by rw [decimal_of_lt hmod]; rfl
      have hsplit : decimal n = decimal (n / 10) ++ decimal (n % 10) := by
        rw [decimal_append (by omega) hmod]
        congr 1
        omega
      rw [hsplit]
      refine ⟨⟨List.append_ne_nil_of_right_ne_nil _ hne, fun b hb => ?_⟩, ?_⟩
      · exact (List.mem_append.1 hb).elim (hdigits b) (hdigits' b)
      · rw [value_append, hvalue, hvalue', hlength]
        omega

theorem value_zeros (k : Nat) : value (List.replicate k '0'.toUInt8) = 0 := by
  induction k with
  | zero => rfl
  | succ k ih => simp [List.replicate_succ, value_cons, ih, toNat_zero]

theorem Denotes.append_digit {n : Nat} (h : t.Denotes n) (hb : b.isDigit = true) :
    Denotes (t ++ [b]) (n * 10 + (b.toNat - 48)) := by
  obtain ⟨hlt, hdigit⟩ := decimal_digit hb
  obtain ⟨zeros, rfl⟩ := h
  rw [← hdigit, List.append_assoc]
  by_cases hn : 0 < n
  · exact ⟨zeros, by rw [decimal_append hn hlt]⟩
  · -- the numeral so far is a zero, which becomes one of the zeros before the digit
    obtain rfl : n = 0 := by omega
    refine ⟨zeros + 1, ?_⟩
    rw [List.replicate_succ', List.append_assoc, Nat.zero_mul, Nat.zero_add]
    rfl

/-- The numerals are the texts of digits, and their values are what they denote. -/
theorem denotes_iff {n : Nat} : t.Denotes n ↔ t.IsNumber ∧ t.value = n := by
  constructor
  · rintro ⟨zeros, rfl⟩
    obtain ⟨⟨hne, hdigits⟩, hvalue⟩ := isNumber_decimal n
    refine ⟨⟨List.append_ne_nil_of_right_ne_nil _ hne, fun b hb => ?_⟩, ?_⟩
    · rcases List.mem_append.1 hb with hb | hb
      · rw [List.eq_of_mem_replicate hb]
        decide
      · exact hdigits b hb
    · rw [value_append, value_zeros, hvalue, Nat.zero_mul, Nat.zero_add]
  · rintro ⟨⟨hne, hdigits⟩, rfl⟩
    induction t using List.reverseRecOn with
    | nil => exact absurd rfl hne
    | append_singleton t b ih =>
      have hb : b.isDigit = true := hdigits b (by simp)
      rw [value_append, value_singleton]
      cases t with
      | nil =>
        have hzero : value [] * 10 ^ [b].length = 0 := Nat.zero_mul _
        exact ⟨0, by rw [hzero, Nat.zero_add, (decimal_digit hb).2]; rfl⟩
      | cons c t =>
        refine (ih (List.cons_ne_nil _ _) fun b' hb' => ?_).append_digit hb
        exact hdigits b' (List.mem_append_left _ hb')

end Text

/-! ### Numbers of a text -/

namespace Scanner

theorem isNumber_of_spells {w : Text} (h : Spells .number w) : w.IsNumber := by
  obtain ⟨b, t, rfl, hb, ht⟩ := h
  exact ⟨List.cons_ne_nil _ _, List.forall_mem_cons.2 ⟨isDigit_of_typeOf hb, ht⟩⟩

theorem isNumber_of_mem_symbols {s : Scanner} {x : Symbol} (hx : x ∈ (symbols s).1)
    (h : x.type = .number) : x.text.IsNumber := by
  obtain ⟨s', rfl⟩ := exists_next hx
  exact isNumber_of_spells (spells_next h (by decide)).1

end Scanner

namespace Kind

/-- What may be written as the parameter of a kind. -/
structure Takes (kind : Kind) (t : Text) : Prop where
  number : kind.takesParameter = true → t.IsNumber
  none : kind.takesParameter = false → t = []
  plain : kind.takesNumber = true → t.IsPlain

/-- The domain of the parameters of a kind: a bit, a period of up to nine digits, a number of inputs
or a row of bits. -/
def Accepts : Kind → Text → Prop
  | .switch, t => t = .ofString "0" ∨ t = .ofString "1"
  | .clock, t | .rc, t => 1 ≤ t.value ∧ t.value ≤ 999999999
  | .and, t | .or, t | .nand, t | .nor, t => 1 ≤ t.value ∧ t.value ≤ 16
  | .siggen, t => ∀ b ∈ t, b = '0'.toUInt8 ∨ b = '1'.toUInt8
  | .xor, _ | .dtype, _ => True

/-- The state in which a device starts, by its parameter. -/
def start : Kind → Text → State
  | .switch, t => .switch (t = .ofString "1") (t = .ofString "1")
  | .clock, t => .clock t.value 0
  | .and, t | .or, t | .nand, t | .nor, t => .gate t.value
  | .xor, _ => .xor
  | .dtype, _ => .dtype false false
  | .rc, t => .rc t.value t.value
  | .siggen, t => .siggen (t.map (· = '1'.toUInt8)) 0

end Kind

namespace Quantity
variable {t : Text}

theorem read_eq (q : Quantity) (h : t.IsNumber) (hp : t.IsPlain) :
    q.read t = if t.value ≤ 999999999 then .ok t.value else .error (.tooLarge q t) := by
  have hempty : t.isEmpty = false := by simpa using h.1
  have hdigits : t.all Byte.isDigit = true := by simpa using h.2
  have hlength := Text.length_le_iff h hp 8
  unfold read
  by_cases hv : t.value ≤ 999999999
  · have : t.length ≤ 9 := hlength.2 (by omega)
    simp [hempty, maxDigits, hdigits, hv, Nat.not_lt.2 this]
  · have : ¬ t.length ≤ 9 := fun hl => hv (Nat.le_of_lt_succ (hlength.1 hl))
    simp [hempty, maxDigits, hv, Nat.lt_of_not_le this]

theorem readPositive_of_accepts (q : Quantity) (h : t.IsNumber) (hp : t.IsPlain)
    (ha : 1 ≤ t.value ∧ t.value ≤ 999999999) : q.readPositive t = .ok t.value := by
  have hpos : t.value ≠ 0 := by omega
  simp [readPositive, read_eq q h hp, ha.2, hpos, bind, Except.bind]

theorem readPositive_of_not_accepts (q : Quantity) (h : t.IsNumber) (hp : t.IsPlain)
    (ha : ¬ (1 ≤ t.value ∧ t.value ≤ 999999999)) : ∃ f, q.readPositive t = .error f := by
  by_cases hv : t.value ≤ 999999999
  · have hzero : t.value = 0 := by omega
    exact ⟨.notPositive q, by simp [readPositive, read_eq q h hp, hzero, bind, Except.bind]⟩
  · exact ⟨.tooLarge q t, by simp [readPositive, read_eq q h hp, hv, bind, Except.bind]⟩

end Quantity

namespace State
variable {kind : Kind} {t : Text}

theorem ofParameter_eq_bind (hk : kind.isCountedGate = true) :
    ofParameter kind t = (Quantity.inputCount.read t).bind fun n =>
      if n < 1 ∨ PinWord.maxGateInputs < n then .error (.inputCount kind t) else .ok (.gate n) := by
  cases kind <;> first | rfl | cases hk

theorem ofParameter_gate (hk : kind.isCountedGate = true) (h : t.IsNumber) (hp : t.IsPlain) :
    ofParameter kind t =
      if 1 ≤ t.value ∧ t.value ≤ 16 then .ok (.gate t.value)
      else .error (if t.value ≤ 999999999 then .inputCount kind t else .tooLarge .inputCount t) := by
  rw [ofParameter_eq_bind hk, Quantity.read_eq _ h hp, PinWord.maxGateInputs]
  by_cases hv : t.value ≤ 999999999
  · rw [if_pos hv, if_pos hv]
    by_cases hr : 1 ≤ t.value ∧ t.value ≤ 16
    · rw [if_pos hr]
      exact if_neg (by omega)
    · rw [if_neg hr]
      exact if_pos (by omega)
  · rw [if_neg hv, if_neg hv, if_neg (by omega)]
    rfl

/-- A parameter in the domain of its kind is read as the state that it stands for. -/
theorem ofParameter_of_accepts (h : kind.Takes t) (ha : kind.Accepts t) :
    ofParameter kind t = .ok (kind.start t) := by
  cases kind with
  | switch =>
    rcases ha with rfl | rfl <;> rfl
  | clock =>
    simp [ofParameter, Kind.start, bind, Except.bind, pure, Except.pure,
      Quantity.readPositive_of_accepts _ (h.number rfl) (h.plain rfl) ha]
  | rc =>
    simp [ofParameter, Kind.start, bind, Except.bind, pure, Except.pure,
      Quantity.readPositive_of_accepts _ (h.number rfl) (h.plain rfl) ha]
  | and | or | nand | nor =>
    rw [ofParameter_gate rfl (h.number rfl) (h.plain rfl)]
    exact if_pos ha
  | xor => simp [ofParameter, h.none rfl, Kind.start]
  | dtype => simp [ofParameter, h.none rfl, Kind.start]
  | siggen =>
    have hne : t.isEmpty = false := by simpa using (h.number rfl).1
    have hall : (t.all fun b => b == '0'.toUInt8 || b == '1'.toUInt8) = true := by
      rw [List.all_eq_true]
      intro b hb
      rcases ha b hb with rfl | rfl <;> decide
    simp only [ofParameter, hne, hall, if_true, Bool.false_eq_true, if_false, Kind.start]
    rfl

theorem ofParameter_of_not_accepts (h : kind.Takes t) (ha : ¬ kind.Accepts t) :
    ∃ f, ofParameter kind t = .error f := by
  cases kind with
  | switch =>
    obtain ⟨h0, h1⟩ := not_or.1 ha
    exact ⟨.switchState t, by simp [ofParameter, bit0, bit1, h0, h1]⟩
  | clock =>
    obtain ⟨f, hf⟩ :=
      Quantity.halfPeriod.readPositive_of_not_accepts (h.number rfl) (h.plain rfl) ha
    exact ⟨f, by simp [ofParameter, hf, bind, Except.bind]⟩
  | rc =>
    obtain ⟨f, hf⟩ :=
      Quantity.rcPeriod.readPositive_of_not_accepts (h.number rfl) (h.plain rfl) ha
    exact ⟨f, by simp [ofParameter, hf, bind, Except.bind]⟩
  | and | or | nand | nor =>
    rw [ofParameter_gate rfl (h.number rfl) (h.plain rfl)]
    exact ⟨_, if_neg ha⟩
  | xor => exact absurd trivial ha
  | dtype => exact absurd trivial ha
  | siggen =>
    have hne : t.isEmpty = false := by simpa using (h.number rfl).1
    have hall : (t.all fun b => b == '0'.toUInt8 || b == '1'.toUInt8) = false := by
      refine Bool.eq_false_iff.2 fun hall => ha fun b hb => ?_
      simpa using List.all_eq_true.1 hall b hb
    exact ⟨.waveform t, by simp [ofParameter, hne, hall]⟩

end State

end GateSim
