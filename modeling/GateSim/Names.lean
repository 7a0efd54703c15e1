import GateSim.Fault

/-!
# Name tables

A name table numbers the texts that it has seen, from 0 in order of first sight. Equal ids mean
equal texts, so the rest of the simulator compares ids only.
-/

namespace GateSim

abbrev NameId := Nat

/-- Distinct texts; the id of a text is its place among them. -/
structure NameTable where
  texts : List Text := []
  nodup : texts.Nodup := by exact List.nodup_nil

namespace NameTable

def size (names : NameTable) : Nat := names.texts.length

/-- The id of a text, or the one that it would be given next. -/
def idOf (names : NameTable) (t : Text) : NameId := names.texts.idxOf t

def find? (names : NameTable) (t : Text) : Option NameId :=
  if t ∈ names.texts then some (names.idOf t) else none

def text? (names : NameTable) (id : NameId) : Option Text := names.texts[id]?

/-- The text of an id; an id that was never given out is a fault. -/
def text (names : NameTable) (id : NameId) : Except Fault Text :=
  match names.text? id with
  | some t => .ok t
  | none => .error (.unknownId id)

/-- The text of an id; an id that was never given out has none to show. -/
def nameOf (names : NameTable) (id : NameId) : Text := (names.text? id).getD []

/-- Sees a text: a new one is numbered next. -/
def insert (names : NameTable) (t : Text) : NameTable :=
  if h : t ∈ names.texts then names
  else
    { texts := names.texts ++ [t]
      nodup := by
        have := names.nodup
        grind [List.nodup_append] }

def intern (names : NameTable) (t : Text) : NameId × NameTable := (names.idOf t, names.insert t)

def insertAll (names : NameTable) (ts : List Text) : NameTable := ts.foldl insert names

def internAll (names : NameTable) : List Text → List NameId × NameTable
  | [] => ([], names)
  | t :: ts =>
    let (id, names) := names.intern t
    let (ids, names) := names.internAll ts
    (id :: ids, names)

theorem ext {a b : NameTable} (h : a.texts = b.texts) : a = b := by
  cases a; cases b; cases h; rfl

theorem texts_insert (names : NameTable) (t : Text) :
    (names.insert t).texts = if t ∈ names.texts then names.texts else names.texts ++ [t] := by
  unfold insert; split <;> rfl

theorem mem_insert {names : NameTable} {s t : Text} :
    s ∈ (names.insert t).texts ↔ s ∈ names.texts ∨ s = t := by
  rw [texts_insert]; split <;> grind

theorem idOf_lt {names : NameTable} {t : Text} : names.idOf t < names.size ↔ t ∈ names.texts :=
  List.idxOf_lt_length_iff

theorem text?_idOf {names : NameTable} {t : Text} (h : t ∈ names.texts) :
    names.text? (names.idOf t) = some t := by
  have hlt := idOf_lt.2 h
  rw [text?, List.getElem?_eq_getElem hlt]
  exact congrArg some (List.getElem_idxOf hlt)

end NameTable

end GateSim
