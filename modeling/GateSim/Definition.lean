import GateSim.Outline
import GateSim.Symbol.Scan

/-!
# Circuit definitions

A definition is scanned and outlined. Invalid symbols take no part in the outline; each is found
when the next valid symbol is looked at, which is where its event stands among the notes.
-/

namespace GateSim

/-- The text of a circuit and the name of the file that it stands in. -/
structure Definition where
  text : Text
  file : Text := Text.ofString "<circuit>"

/-- A symbol and the invalid symbols right before it. -/
structure Lexeme where
  strays : List Symbol
  symbol : Symbol
  deriving DecidableEq

namespace Lexeme

/-- Gathers invalid symbols at the next symbol, which may be the last. -/
def gather (last : Symbol) (strays : List Symbol) : List Symbol → List Lexeme
  | [] => [⟨strays, last⟩]
  | x :: rest =>
    if x.type = .invalid then gather last (strays ++ [x]) rest
    else ⟨strays, x⟩ :: gather last [] rest

theorem map_symbol_gather (last : Symbol) (strays symbols : List Symbol) :
    (gather last strays symbols).map (·.symbol) =
      symbols.filter (·.type != .invalid) ++ [last] := by
  fun_induction gather last strays symbols <;> simp_all

/-- Gathering loses no invalid symbol. -/
theorem flatMap_strays_gather (last : Symbol) (strays symbols : List Symbol) :
    (gather last strays symbols).flatMap (·.strays) =
      strays ++ symbols.filter (·.type == .invalid) := by
  fun_induction gather last strays symbols <;> simp_all

end Lexeme

/-- What happens while a definition is read, invalid symbols included. -/
inductive Event
  | stray (symbol : Symbol)
  | note (note : Note)
  deriving DecidableEq

namespace Event

/-- A symbol is looked at: the invalid ones before it are found. -/
def look : List Lexeme → List Event
  | [] => []
  | x :: _ => x.strays.map .stray

/-- Notes on the symbols ahead, of which the first has been looked at. -/
def follow : List Lexeme → List Note → List Event
  | _, [] => []
  | ahead, .pass :: notes => look ahead.tail ++ follow ahead.tail notes
  | ahead, n :: notes => .note n :: follow ahead notes

end Event

namespace Definition

def last (d : Definition) : Symbol := d.text.symbols.2

def lexemes (d : Definition) : List Lexeme := Lexeme.gather d.last [] d.text.symbols.1

def valid (d : Definition) : List Symbol := d.text.symbols.1.filter (·.type != .invalid)

def notes (d : Definition) : List Note := outline d.valid

def events (d : Definition) : List Event := Event.look d.lexemes ++ Event.follow d.lexemes d.notes

/-- The names that are known once the definition is read: the symbols that were not looked at are
not seen. -/
def names (d : Definition) (names : NameTable) : NameTable :=
  names.insertKeywords.insertPins.insertSymbols (d.valid.take (Outline.reach d.notes))

def diagnose (d : Definition) (symbol : Symbol) (category : Category) (code : Code)
    (message : Text) (severity : Severity := .error) : Diagnostic where
  severity := severity
  category := category
  code := code
  message := message
  file := d.file
  position := symbol.position
  sourceLine := d.text.line symbol.position.line

def stray (d : Definition) (symbol : Symbol) : Diagnostic :=
  if symbol.text = Text.ofString "!" then
    d.diagnose symbol .lexical .unterminatedComment
      (.ofString "Comment opened with '!' is never closed")
  else
    d.diagnose symbol .lexical .invalidCharacter
      (.ofString "Invalid character " ++ symbol.text.quoted)

end Definition

end GateSim
