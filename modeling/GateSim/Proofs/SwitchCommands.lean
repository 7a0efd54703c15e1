import GateSim.Proofs.Commands

/-!
# Switch commands

The value after the name of a switch is the integer that it starts with, if that fits
(`Console.scanValue_of_fits`). Then the reply depends on the circuit and the line alone, whatever was
answered before (`Console.reply_congr`). A value that cannot be read leaves a number that does not stand
for a missing one (`Console.scanValue_of_not_fits`), so the reply is the message of an earlier call
(`Console.reply_of_unreadable`).
-/

namespace GateSim

namespace Text
variable {t : Text} {v : Int}

/-- A text starts with a decimal numeral, after a sign or none, that is as long as its digits go. -/
def StartsWith (t : Text) (v : Int) : Prop :=
  ∃ sign digits rest n, t = sign ++ digits ++ rest ∧ digits.Denotes n ∧
    (∀ b, rest.head? = some b → b.isDigit = false) ∧
    ((sign = [] ∨ sign = ofString "+") ∧ v = n ∨ sign = ofString "-" ∧ v = -n)

/-- A text without its sign. -/
def unsigned (t : Text) : Text :=
  if t.head? == some '-'.toUInt8 || t.head? == some '+'.toUInt8 then t.tail else t

def leadingDigits (t : Text) : Text := t.unsigned.takeWhile Byte.isDigit

def leadingValue (t : Text) : Int :=
  if t.head? == some '-'.toUInt8 then -t.leadingDigits.value else t.leadingDigits.value

/-- A text begins with its sign, if it has one. -/
theorem exists_sign (t : Text) : ∃ sign, t = sign ++ t.unsigned ∧
    ((sign = [] ∨ sign = ofString "+") ∧ t.leadingValue = t.leadingDigits.value ∨
      sign = ofString "-" ∧ t.leadingValue = -t.leadingDigits.value) := by
  cases t with
  | nil => exact ⟨[], rfl, Or.inl ⟨Or.inl rfl, rfl⟩⟩
  | cons b t =>
    by_cases hminus : b = '-'.toUInt8
    · subst hminus
      exact ⟨ofString "-", rfl, Or.inr ⟨rfl, rfl⟩⟩
    have hvalue : leadingValue (b :: t) = (leadingDigits (b :: t)).value := by
      simp [leadingValue, hminus]
    by_cases hplus : b = '+'.toUInt8
    · subst hplus
      exact ⟨ofString "+", rfl, Or.inl ⟨Or.inr rfl, hvalue⟩⟩
    · exact ⟨[], by simp [unsigned, hminus, hplus], Or.inl ⟨Or.inl rfl, hvalue⟩⟩

theorem startsWith_iff : t.StartsWith v ↔ t.leadingDigits ≠ [] ∧ t.leadingValue = v := by
  constructor
  · rintro ⟨sign, digits, rest, n, rfl, hdenotes, hrest, hsign⟩
    obtain ⟨⟨hne, hdigits⟩, rfl⟩ := denotes_iff.1 hdenotes
    have htake := (Scanner.takeWhile_dropWhile_append hdigits hrest).1
    rcases hsign with ⟨rfl | rfl, rfl⟩ | ⟨rfl, rfl⟩
    · -- a digit is no sign
      obtain ⟨b, digits, rfl⟩ := List.exists_cons_of_ne_nil hne
      have hb := isDigit_iff.1 (hdigits b (List.mem_cons_self ..))
      have hminus : b ≠ '-'.toUInt8 := by rintro rfl; revert hb; decide
      have hplus : b ≠ '+'.toUInt8 := by rintro rfl; revert hb; decide
      have hunsigned : unsigned ([] ++ b :: digits ++ rest) = b :: digits ++ rest := by
        simp [unsigned, hminus, hplus]
      have hleading : leadingDigits ([] ++ b :: digits ++ rest) = b :: digits := by
        rw [leadingDigits, hunsigned, htake]
      rw [leadingValue, hleading]
      exact ⟨hne, by simp [hminus]⟩
    · have hleading : leadingDigits (ofString "+" ++ digits ++ rest) = digits := htake
      rw [leadingValue, hleading]
      exact ⟨hne, rfl⟩
    · have hleading : leadingDigits (ofString "-" ++ digits ++ rest) = digits := htake
      rw [leadingValue, hleading]
      exact ⟨hne, rfl⟩
  · rintro ⟨hne, rfl⟩
    have hdenotes : t.leadingDigits.Denotes t.leadingDigits.value :=
      denotes_iff.2 ⟨⟨hne, fun b hb => List.mem_takeWhile_imp hb⟩, rfl⟩
    have hsplit : t.leadingDigits ++ t.unsigned.dropWhile Byte.isDigit = t.unsigned :=
      List.takeWhile_append_dropWhile
    have hrest : ∀ b, (t.unsigned.dropWhile Byte.isDigit).head? = some b → b.isDigit = false := by
      intro b hb
      have hhead := List.head?_dropWhile_not Byte.isDigit t.unsigned
      rw [hb] at hhead
      simpa using hhead
    obtain ⟨sign, ht, hsign⟩ := t.exists_sign
    refine ⟨sign, t.leadingDigits, _, _, ?_, hdenotes, hrest, hsign⟩
    rw [List.append_assoc, hsplit]
    exact ht

end Text

namespace Engine
variable {e e' : Engine}

/-- What a switch is set to, and what is said against it, follows from names and circuit. -/
theorem setSwitch_congr (hn : e'.names = e.names) (hc : e'.circuit = e.circuit) (name : Text)
    (value : Int) : (e'.setSwitch name value).1 = (e.setSwitch name value).1 ∧
      (e'.setSwitch name value).2.circuit = (e.setSwitch name value).2.circuit ∧
      ((e.setSwitch name value).1 = false →
        (e'.setSwitch name value).2.message = (e.setSwitch name value).2.message) := by
  rw [setSwitch, setSwitch, hn, hc]
  cases hcircuit : e.circuit with
  | none => exact ⟨rfl, hc, fun _ => rfl⟩
  | some c =>
    by_cases hv : value ≠ 0 ∧ value ≠ 1
    · simp only [if_pos hv]
      exact ⟨trivial, hc, fun _ => rfl⟩
    · simp only [if_neg hv]
      rcases (e.names.find? name).map (c.setSwitch · (value == 1)) with _ | ⟨_ | _, c'⟩
      · exact ⟨rfl, hc, fun _ => rfl⟩
      · exact ⟨rfl, hc, fun _ => rfl⟩
      · exact ⟨rfl, rfl, fun h => by cases h⟩

end Engine

namespace Console
variable {e : Engine} {line : Text} {args : List Text} {earlier earlier' : List Text}

/-- A text starts with an integer of 32 bits. -/
def Fits (t : Text) (v : Int) : Prop := t.StartsWith v ∧ minValue ≤ v ∧ v ≤ maxValue

theorem scanValue_eq (t : Text) : scanValue t =
    if t.leadingDigits.isEmpty then ⟨0, false⟩
    else if maxValue < t.leadingValue then ⟨maxValue, false⟩
    else if t.leadingValue < minValue then ⟨minValue, false⟩
    else ⟨t.leadingValue, true⟩ := rfl

theorem scanValue_of_fits {t : Text} {v : Int} (h : Fits t v) : scanValue t = ⟨v, true⟩ := by
  obtain ⟨hstarts, hmin, hmax⟩ := h
  obtain ⟨hne, rfl⟩ := Text.startsWith_iff.1 hstarts
  rw [scanValue_eq, if_neg (by simpa using hne), if_neg (Int.not_lt.2 hmax),
    if_neg (Int.not_lt.2 hmin)]

/-- What is left in place of a value that cannot be read does not stand for a missing one. -/
theorem scanValue_of_not_fits {t : Text} (h : ¬ ∃ v, Fits t v) :
    ∃ v, scanValue t = ⟨v, false⟩ ∧ v ≠ noValue := by
  rw [scanValue_eq]
  split
  · exact ⟨_, rfl, by decide⟩
  · next hne =>
    split
    · exact ⟨_, rfl, by decide⟩
    · next hmax =>
      split
      · exact ⟨_, rfl, by decide⟩
      · next hmin =>
        refine absurd ⟨t.leadingValue, Text.startsWith_iff.2 ⟨by simpa using hne, rfl⟩, ?_, ?_⟩ h
        · exact Int.not_lt.1 hmin
        · exact Int.not_lt.1 hmax

/-- There is a value after the name, but it does not start with an integer that fits. -/
def Unreadable (args : List Text) : Prop :=
  ∃ name t rest, args = name :: t :: rest ∧ ¬ ∃ v, Fits t v

theorem reply_switch (hw : line.words = Text.ofString "s" :: args) :
    reply e line = some (withSignal e args[0]? fun name => switchCommand e name args[1]?) :=
  reply_of_words hw (by decide)

theorem reply_of_unreadable (hw : line.words = Text.ofString "s" :: args) (h : Unreadable args) :
    reply e line = some (e, errorLine e.message) := by
  obtain ⟨name, t, rest, rfl, hfits⟩ := h
  obtain ⟨v, hscan, hv⟩ := scanValue_of_not_fits hfits
  have hread : ((some t).map scanValue).getD ⟨noValue, false⟩ = ⟨v, false⟩ := hscan
  rw [reply_switch hw]
  show some (switchCommand e name (some t)) = _
  rw [switchCommand_of_not_read hread, complaint, if_neg hv]

theorem reply_congr {e' : Engine} (hn : e'.names = e.names) (hc : e'.circuit = e.circuit)
    (hw : line.words = Text.ofString "s" :: args) (h : ¬ Unreadable args) :
    ∃ output e₁ e₁', reply e line = some (e₁, output) ∧ reply e' line = some (e₁', output) ∧
      e₁'.circuit = e₁.circuit := by
  rw [reply_switch hw, reply_switch hw]
  cases args with
  | nil => exact ⟨_, e, e', rfl, rfl, hc⟩
  | cons name args =>
    show ∃ output e₁ e₁', some (switchCommand e name args[0]?) = some (e₁, output) ∧
      some (switchCommand e' name args[0]?) = some (e₁', output) ∧ e₁'.circuit = e₁.circuit
    cases args with
    | nil => exact ⟨_, e, e', rfl, rfl, hc⟩
    | cons t rest =>
      obtain ⟨v, hfits⟩ := not_not.1 fun hnot => h ⟨name, t, rest, rfl, hnot⟩
      have hscan : ((t :: rest)[0]?.map scanValue).getD ⟨noValue, false⟩ = ⟨v, true⟩ :=
        scanValue_of_fits hfits
      obtain ⟨hset, hcircuit, hmessage⟩ := Engine.setSwitch_congr hn hc name v
      rw [switchCommand_of_read hscan, switchCommand_of_read hscan, hset]
      refine ⟨_, _, _, rfl, ?_, hcircuit⟩
      cases hsuccess : (e.setSwitch name v).1 with
      | true => rfl
      | false =>
        simp only [Bool.false_eq_true, if_false, complaint]
        rw [hmessage hsuccess]

/-- The reply to a switch command is the same whatever was answered before, if the circuit is the same
and the value can be read or there is none. A value that cannot be read changes nothing, but is
answered with the last message of the engine. -/
theorem switch_reply (h : e.Reachable)
    (hc : (after e earlier').circuit = (after e earlier).circuit)
    (hw : line.words = Text.ofString "s" :: args) :
    (¬ Unreadable args → ∃ output e₁ e₁', reply (after e earlier) line = some (e₁, output) ∧
      reply (after e earlier') line = some (e₁', output) ∧ e₁'.circuit = e₁.circuit) ∧
    (Unreadable args → reply (after e earlier) line =
      some (after e earlier, errorLine (after e earlier).message)) := by
  have hnames : (after e earlier').names = (after e earlier).names :=
    (names_after h.proper earlier').trans (names_after h.proper earlier).symm
  exact ⟨reply_congr hnames hc hw, reply_of_unreadable hw⟩

/-- An engine with a single switch. -/
def oneSwitch : Engine :=
  Engine.call {} (.load { text := .ofString "DEVICES: SWITCH A 0; CONNECT: ; MONITOR: ; END;" })

theorem reachable_oneSwitch : oneSwitch.Reachable := ⟨[_], rfl⟩

/-- After a monitor was refused, a switch is set as it would have been before, but a value that cannot
be read is answered with what was said about the monitor. -/
theorem switch_reply_oneSwitch :
    let earlier := [Text.ofString "m X"]
    (∃ output e₁ e₁', reply (after oneSwitch earlier) (.ofString "s A 1") = some (e₁, output) ∧
      reply (after oneSwitch []) (.ofString "s A 1") = some (e₁', output) ∧
      e₁'.circuit = e₁.circuit) ∧
    ∃ e₁, reply (after oneSwitch earlier) (.ofString "s A x") =
      some (e₁, errorLine (.ofString "Unknown signal: X")) := by
  intro earlier
  have hc : (after oneSwitch []).circuit = (after oneSwitch earlier).circuit := by decide +kernel
  have hmessage : (after oneSwitch earlier).message = .ofString "Unknown signal: X" := by
    decide +kernel
  have hset : Text.words (.ofString "s A 1") =
      Text.ofString "s" :: [.ofString "A", .ofString "1"] := by decide
  have hnoValue : Text.words (.ofString "s A x") =
      Text.ofString "s" :: [.ofString "A", .ofString "x"] := by decide
  have hone : Fits (.ofString "1") 1 :=
    ⟨Text.startsWith_iff.2 (by decide), by decide, by decide⟩
  have hnone : ¬ ∃ v, Fits (.ofString "x") v := fun ⟨v, hstarts, _⟩ =>
    (Text.startsWith_iff.1 hstarts).1 (by decide)
  refine ⟨(switch_reply reachable_oneSwitch hc hset).1 ?_, after oneSwitch earlier, ?_⟩
  · rintro ⟨name, t, rest, heq, hnot⟩
    cases heq
    exact hnot ⟨1, hone⟩
  · rw [(switch_reply reachable_oneSwitch hc hnoValue).2 ⟨_, _, _, rfl, hnone⟩, hmessage]

/-- A refused monitor changes the reply to a switch command, although it changes nothing else. -/
theorem stale_reply : ¬ ∀ e : Engine, e.Reachable → ∀ (earlier earlier' : List Text) (line : Text)
    (args : List Text), line.words = Text.ofString "s" :: args →
      (after e earlier').circuit = (after e earlier).circuit →
      (reply (after e earlier') line).map Prod.snd =
        (reply (after e earlier) line).map Prod.snd := by
  intro h
  have hsame := h oneSwitch reachable_oneSwitch [.ofString "m X"] [] (.ofString "s A x")
    [.ofString "A", .ofString "x"] (by decide) (by decide +kernel)
  revert hsame
  decide +kernel

end Console

end GateSim
