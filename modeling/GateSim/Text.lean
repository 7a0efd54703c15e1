/-!
# Texts

All that is read and printed is a string of bytes in no particular encoding. Letters, digits and
blanks are the ASCII ones. Only columns look further: they count a multibyte UTF-8 character once,
by leaving out its continuation bytes.
-/

namespace GateSim

abbrev Byte := UInt8

abbrev Text := List Byte

namespace Byte

def newline : Byte := 10

def carriageReturn : Byte := 13

def tab : Byte := 9

def space : Byte := 32

/-- Space, and the five controls from tab to carriage return. -/
def isBlank (b : Byte) : Bool := b == space || (tab ≤ b && b ≤ carriageReturn)

def isDigit (b : Byte) : Bool := '0'.toUInt8 ≤ b && b ≤ '9'.toUInt8

def isLetter (b : Byte) : Bool :=
  ('a'.toUInt8 ≤ b && b ≤ 'z'.toUInt8) || ('A'.toUInt8 ≤ b && b ≤ 'Z'.toUInt8)

/-- What may follow the first letter of a name. -/
def isNameByte (b : Byte) : Bool := isLetter b || isDigit b || b == '_'.toUInt8

/-- A byte of the form `10xxxxxx`, which continues a UTF-8 character. -/
def isContinuation (b : Byte) : Bool := b &&& 0xC0 == 0x80

end Byte

namespace Text

/-- The bytes of an ASCII string. -/
def ofString (s : String) : Text := s.toList.map Char.toUInt8

/-- The decimal digits of a number, without leading zeros. -/
def decimal (n : Nat) : Text := (Nat.toDigits 10 n).map Char.toUInt8

/-- The decimal digits of a number after its sign, if it is negative. -/
def signedDecimal : Int → Text
  | .ofNat n => decimal n
  | .negSucc n => '-'.toUInt8 :: decimal (n + 1)

def value (t : Text) : Nat := t.foldl (fun v b => v * 10 + (b.toNat - '0'.toUInt8.toNat)) 0

def quoted (t : Text) : Text := ofString "'" ++ t ++ ofString "'"

/-- The pieces between the bytes of a class, one more than there are such bytes. -/
def splitWhere (p : Byte → Bool) : Text → List Text
  | [] => [[]]
  | b :: t =>
    match splitWhere p t with
    | [] => [[b]]
    | piece :: pieces => if p b then [] :: piece :: pieces else (b :: piece) :: pieces

/-- The pieces between newlines. A text that ends in a newline has an empty last piece. -/
def lines (t : Text) : List Text := t.splitWhere (· == Byte.newline)

/-- The lines that a reader of lines is given: what follows the last newline counts only if it is
not empty. -/
def inputLines (t : Text) : List Text :=
  let pieces := t.lines
  if pieces.getLast? = some [] then pieces.dropLast else pieces

/-- The longest pieces without blanks. -/
def words (t : Text) : List Text := (t.splitWhere Byte.isBlank).filter (!·.isEmpty)

def upToZero (t : Text) : Text := t.takeWhile (· != 0)

end Text

end GateSim
