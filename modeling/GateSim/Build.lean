import GateSim.Draft

/-!
# Building circuits

A definition is built over the names that are known already, and as much of the circuit is made as
its statements allow.
-/

namespace GateSim

/-- What building a definition gives: as much of the circuit as could be built, and all that was
found wrong with the definition. -/
structure Built where
  names : NameTable
  circuit : Circuit
  diagnostics : Diagnostics

namespace Built

/-- No error was found; warnings are allowed. -/
def success (b : Built) : Bool := !b.diagnostics.hasErrors

end Built

/-- Builds a definition over the names that are known already. -/
def Definition.build (d : Definition) (names : NameTable) : Except Fault Built := do
  let names := d.names names
  let (draft, diagnostics) ← Draft.run d names { circuit := .empty names } d.events
  return { names, circuit := draft.circuit, diagnostics }

/-- A definition that is built at most once. -/
structure Builder where
  definition : Definition
  spent : Bool := false

/-- Builds the definition, unless that was asked for before. -/
def Builder.build (b : Builder) (names : NameTable) : Except Fault Built × Builder :=
  if b.spent then
    (.error (.internal
      (.ofString "Parser::build_network called twice; parse into a new Parser")), b)
  else (b.definition.build names, { b with spent := true })

end GateSim
