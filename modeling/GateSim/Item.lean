import GateSim.Pin
import GateSim.Statement

/-!
# Items

The items of the sections are separated by commas. A reader takes the symbols of one item and
finds the statement that it starts with, or the first symbol at which no statement can go on.
-/

namespace GateSim

namespace Symbol

/-- Items end before a comma, a semicolon or a section word. -/
def isSeparator (s : Symbol) : Bool :=
  s.type == .comma || s.type == .semicolon || s.section?.isSome

def isName (s : Symbol) : Bool := s.type == .name

def isOutputPin (s : Symbol) : Bool := s.isName && PinWord.outputs.contains s.text

def isInputPin (s : Symbol) : Bool := s.isName && PinWord.inputs.contains s.text

/-- A number of several digits that starts with a zero. -/
def hasLeadingZero (s : Symbol) : Bool := s.text.length > 1 && s.text.head? == some '0'.toUInt8

end Symbol

inductive Outcome
  | complete (statement : Statement)
  /-- No statement goes on with the next symbol. A device declaration may have come as far as its
  name. -/
  | broken (fault : SyntaxFault) (name : Option Symbol)
  deriving DecidableEq

/-- What an item starts with, and the symbols that are left of it. -/
structure Reading where
  outcome : Outcome
  rest : List Symbol
  deriving DecidableEq

namespace Item

/-- One symbol, of which something is known if it is accepted. -/
def expect {α : Type} (accept : Symbol → Option α) (fault : SyntaxFault)
    (go : α → List Symbol → Reading) : List Symbol → Reading
  | [] => ⟨.broken fault none, []⟩
  | x :: rest =>
    match accept x with
    | some a => go a rest
    | none => ⟨.broken fault none, x :: rest⟩

def expectName (go : Symbol → List Symbol → Reading) : List Symbol → Reading :=
  expect (Option.guard Symbol.isName) .expectedName go

/-- A dot and the name of an output, or neither. -/
def optionalPin (go : Option Symbol → List Symbol → Reading) : List Symbol → Reading
  | [] => go none []
  | x :: rest =>
    if x.type = .dot then
      expect (Option.guard Symbol.isOutputPin) .expectedOutputPin (fun pin => go (some pin)) rest
    else go none (x :: rest)

/-- The parameter that ends the declaration of a device, if its kind has one. -/
def parameter (kind : Kind) (name : Symbol) (symbols : List Symbol) : Reading :=
  if kind.takesParameter then
    match symbols with
    | [] => ⟨.broken (.expectedParameter kind name.text) (some name), []⟩
    | x :: rest =>
      if x.type ≠ .number then
        ⟨.broken (.expectedParameter kind name.text) (some name), x :: rest⟩
      else if kind.takesNumber && x.hasLeadingZero then
        ⟨.broken .leadingZero (some name), x :: rest⟩
      else ⟨.complete (.device kind name (some x)), rest⟩
  else ⟨.complete (.device kind name none), symbols⟩

/-- `KIND name parameter`. -/
def device : List Symbol → Reading :=
  expect Symbol.kind? .expectedKind fun kind =>
  expectName fun name =>
  parameter kind name

/-- `source.PIN > target.PIN`, without the first pin for an output that has no name. -/
def connection : List Symbol → Reading :=
  expectName fun source =>
  optionalPin fun sourcePin =>
  expect (Option.guard (·.type == .arrow)) .expectedArrow fun _ =>
  expectName fun target =>
  expect (Option.guard (·.type == .dot)) (.expectedDot target.text) fun _ =>
  expect (Option.guard Symbol.isInputPin) .expectedInputPin fun targetPin rest =>
  ⟨.complete (.connection source sourcePin target targetPin), rest⟩

/-- `device.PIN`, without the pin for an output that has no name. -/
def monitor : List Symbol → Reading :=
  expectName fun device =>
  optionalPin fun pin rest =>
  ⟨.complete (.monitor device pin), rest⟩

def read : Section → List Symbol → Reading
  | .devices => device
  | .connect => connection
  | .monitor => monitor
  | .close => fun symbols => ⟨.broken .expectedClose none, symbols⟩

/-- What happens while the symbols of an item are read; `after` is what follows the item. -/
def notes (s : Section) (item after : List Symbol) : List Note :=
  let reading := read s item
  let rest := reading.rest
  Note.passes (item.take (item.length - rest.length)) ++
    (match reading.outcome with
    | .complete statement =>
      .complete statement :: (if rest = [] then [] else [Note.blame .expectedSeparator rest])
    | .broken fault name => Note.blame fault (rest ++ after) :: name.toList.map Note.abandon) ++
    Note.passes rest

end Item

end GateSim
