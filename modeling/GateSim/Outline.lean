import GateSim.Item

/-!
# Outlines

An outline is all that happens while the symbols of a circuit definition are read: three sections
of items and the final `END;`. After a symbol out of place reading goes on at the next separator,
or, where a section should start, at the next section word that can still come.
-/

namespace GateSim

namespace Outline

/-- The items of a section, up to the semicolon that ends it. Gives the notes and the symbols that
are left. -/
def items (s : Section) (symbols : List Symbol) : List Note × List Symbol :=
  let item := symbols.takeWhile (!·.isSeparator)
  match _h : symbols.dropWhile (!·.isSeparator) with
  | [] => (Item.notes s item [] ++ [.endsEarly], [])
  | x :: rest =>
    let notes := Item.notes s item (x :: rest)
    if x.type = .comma then
      let (more, left) := items s rest
      (notes ++ .pass :: more, left)
    else if x.type = .semicolon then (notes ++ [.pass], rest)
    else (notes ++ [.reject (some x) (.unclosedSection s)], x :: rest)
termination_by symbols.length
decreasing_by
  have := (List.dropWhile_sublist (fun x : Symbol => !x.isSeparator) (l := symbols)).length_le
  rw [_h, List.length_cons] at this
  omega

/-- The colon after the word of a section. -/
def colon (s : Section) : List Symbol → List Note × List Symbol
  | [] => ([.reject none (.expectedColon s)], [])
  | x :: rest =>
    if x.type = .colon then ([.pass], rest)
    else ([.reject (some x) (.expectedColon s)], x :: rest)

/-- What follows the colon of a section: a semicolon, if the section is empty, or its items. -/
def content (s : Section) : List Symbol → List Note × List Symbol
  | [] => items s []
  | x :: rest =>
    if x.type = .semicolon then
      ((if s = .devices then [.reject (some x) .noDevices] else []) ++ [.pass], rest)
    else items s (x :: rest)

/-- What follows the word of a section. -/
def afterWord (s : Section) (symbols : List Symbol) : List Note × List Symbol :=
  let (notes, symbols) := colon s symbols
  let (more, left) := content s symbols
  (notes ++ more, left)

/-- A section. If it does not start here, reading goes on at its word or at the word of a later
section, and in the latter case the section is missing. -/
def part (s : Section) (symbols : List Symbol) : List Note × List Symbol :=
  let starts (x : Symbol) : Bool := x.section? == some s
  let comes (x : Symbol) : Bool := s.onward.any fun t => x.section? == some t
  let skipped := symbols.takeWhile (!comes ·)
  let found := symbols.dropWhile (!comes ·)
  let notes :=
    if symbols.head?.any starts then []
    else Note.blame (.expectedSection s) symbols :: Note.passes skipped
  match found with
  | [] => (notes, [])
  | x :: rest =>
    if starts x then
      let (more, left) := afterWord s rest
      (notes ++ .pass :: more, left)
    else (notes, x :: rest)

/-- `END;`, after which nothing comes. -/
def close (symbols : List Symbol) : List Note :=
  match symbols with
  | [] => [.endsEarly]
  | x :: rest =>
    if x.section? = some .close then
      .pass ::
        match rest with
        | [] => [.endsEarly]
        | y :: rest =>
          if y.type = .semicolon then
            .pass :: (if rest = [] then [] else [Note.blame .afterClose rest])
          else [.reject (some y) .expectedFinalSemicolon]
    else [.reject (some x) .expectedClose]

end Outline

/-- The notes on a circuit definition, given by its symbols. -/
def outline (symbols : List Symbol) : List Note :=
  let (devices, symbols) := Outline.part .devices symbols
  let (connect, symbols) := Outline.part .connect symbols
  let (monitor, symbols) := Outline.part .monitor symbols
  devices ++ connect ++ monitor ++ Outline.close symbols

namespace Outline

/-- How many symbols are looked at: the first one, and one more after each that is passed. -/
def reach (notes : List Note) : Nat := notes.countP (· == .pass) + 1

end Outline

end GateSim
