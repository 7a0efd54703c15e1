import GateSim.Keyword
import GateSim.Names

/-!
# Symbols

A symbol is a piece of a circuit definition, with its type and the place where it starts.
-/

namespace GateSim

/-- Lines and columns count from 1. -/
structure Position where
  line : Nat
  column : Nat
  deriving DecidableEq

namespace Position

def start : Position := ⟨1, 1⟩

/-- The place after a byte: a newline starts a line, a continuation byte takes no column. -/
def after (p : Position) (b : Byte) : Position :=
  if b = Byte.newline then ⟨p.line + 1, 1⟩
  else if b.isContinuation then p
  else ⟨p.line, p.column + 1⟩

def advance (p : Position) (t : Text) : Position := t.foldl after p

end Position

inductive SymbolType
  | keyword
  | name
  | number
  | comma
  | semicolon
  | colon
  | dot
  | arrow
  | endOfFile
  | invalid
  deriving DecidableEq

namespace SymbolType

def label : SymbolType → Text
  | .keyword => .ofString "keyword"
  | .name => .ofString "name"
  | .number => .ofString "number"
  | .comma => .ofString "','"
  | .semicolon => .ofString "';'"
  | .colon => .ofString "':'"
  | .dot => .ofString "'.'"
  | .arrow => .ofString "'>'"
  | .endOfFile => .ofString "end of file"
  | .invalid => .ofString "invalid character"

/-- The types whose texts are numbered by the name table. -/
def isNamed : SymbolType → Bool
  | .keyword | .name | .number => true
  | _ => false

end SymbolType

structure Symbol where
  type : SymbolType
  text : Text
  position : Position
  deriving DecidableEq

namespace Symbol

/-- How an error message calls the symbol. -/
def describe (s : Symbol) : Text :=
  if s.type.isNamed then s.type.label ++ .ofString " " ++ s.text.quoted else s.type.label

def section? (s : Symbol) : Option Section :=
  if s.type = .keyword then Section.ofText? s.text else none

def kind? (s : Symbol) : Option Kind :=
  if s.type = .keyword then Kind.ofText? s.text else none

/-- The id of the symbol's text; 0 for symbols that are not named. -/
def id (names : NameTable) (s : Symbol) : NameId :=
  if s.type.isNamed then names.idOf s.text else 0

end Symbol

namespace NameTable

def insertSymbols (names : NameTable) (symbols : List Symbol) : NameTable :=
  names.insertAll ((symbols.filter (·.type.isNamed)).map (·.text))

/-- Sees the keywords, as happens before any text is scanned. -/
def insertKeywords (names : NameTable) : NameTable := names.insertAll keywords

end NameTable

end GateSim
