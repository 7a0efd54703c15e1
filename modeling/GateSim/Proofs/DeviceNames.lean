import GateSim.Proofs.Rearrange

/-!
# Names of devices among the symbols

A name among the symbols of a definition is that of a pin if it follows a dot, and that of a device
if not. If all names of devices are replaced by others (`Symbol.renameAll`), then a sentence stays
one, and its statements say the same of the devices with the other names
(`Grammar.IsSentence.renames`).
-/

namespace GateSim

/-- The symbol with another text. -/
def Symbol.rename (σ : Text → Text) (x : Symbol) : Symbol := { x with text := σ x.text }

/-- Symbols with other names for devices; `dot` tells whether a dot comes before them. -/
def Symbol.renameAll (σ : Text → Text) : (dot : Bool) → List Symbol → List Symbol
  | _, [] => []
  | dot, x :: xs =>
    (if x.isName && !dot then x.rename σ else x) :: renameAll σ (x.type == .dot) xs

/-- The names of devices among symbols; `dot` tells whether a dot comes before them. -/
def Symbol.deviceNames : (dot : Bool) → List Symbol → List Text
  | _, [] => []
  | dot, x :: xs =>
    (if x.isName && !dot then [x.text] else []) ++ deviceNames (x.type == .dot) xs

namespace Statement

def rename (σ : Text → Text) : Statement → Statement
  | .device kind name parameter => .device kind (name.rename σ) parameter
  | .connection source sourcePin target targetPin =>
    .connection (source.rename σ) sourcePin (target.rename σ) targetPin
  | .monitor name pin => .monitor (name.rename σ) pin

def deviceNames : Statement → List Text
  | .device _ name _ => [name.text]
  | .connection source _ target _ => [source.text, target.text]
  | .monitor name _ => [name.text]

end Statement

namespace Symbol

theorem renameAll_placeless (σ : Text → Text) (dot : Bool) (xs : List Symbol) :
    (renameAll σ dot xs).map placeless = renameAll σ dot (xs.map placeless) := by
  induction xs generalizing dot with
  | nil => rfl
  | cons x xs ih =>
    rw [renameAll, List.map_cons, List.map_cons, renameAll, ih]
    refine congrArg₂ List.cons ?_ rfl
    show placeless (if x.isName && !dot then _ else _) = if x.isName && !dot then _ else _
    split <;> rfl

/-- What becomes of symbols that stand before any others, and the names of devices among them. -/
structure Renames (σ : Text → Text) (xs ys : List Symbol) (names : List Text) : Prop where
  renameAll : ∀ zs, Symbol.renameAll σ false (xs ++ zs) = ys ++ Symbol.renameAll σ false zs
  deviceNames : ∀ zs, Symbol.deviceNames false (xs ++ zs) = names ++ Symbol.deviceNames false zs

namespace Renames
variable {σ : Text → Text} {xs xs' ys ys' : List Symbol} {names names' : List Text} {x : Symbol}

theorem nil : Renames σ [] [] [] := ⟨fun _ => rfl, fun _ => rfl⟩

theorem renameAll_eq (h : Renames σ xs ys names) : Symbol.renameAll σ false xs = ys := by
  simpa [Symbol.renameAll] using h.renameAll []

theorem deviceNames_eq (h : Renames σ xs ys names) : Symbol.deviceNames false xs = names := by
  simpa [Symbol.deviceNames] using h.deviceNames []

theorem append (h : Renames σ xs ys names) (h' : Renames σ xs' ys' names') :
    Renames σ (xs ++ xs') (ys ++ ys') (names ++ names') where
  renameAll zs := by rw [List.append_assoc, h.renameAll, h'.renameAll, List.append_assoc]
  deviceNames zs := by rw [List.append_assoc, h.deviceNames, h'.deviceNames, List.append_assoc]

/-- A mark or a word stays. -/
theorem mark (hname : x.type ≠ .name) (hdot : x.type ≠ .dot) : Renames σ [x] [x] [] := by
  have hisName : x.isName = false := by simpa [isName] using hname
  have hisDot : (x.type == SymbolType.dot) = false := by simpa using hdot
  refine ⟨fun zs => ?_, fun zs => ?_⟩
  · simp [Symbol.renameAll, hisName, hisDot]
  · simp [Symbol.deviceNames, hisName, hisDot]

theorem name (h : x.type = .name) : Renames σ [x] [x.rename σ] [x.text] := by
  have hisName : x.isName = true := by simpa [isName] using h
  have hisDot : (x.type == SymbolType.dot) = false := by simp [h]
  refine ⟨fun zs => ?_, fun zs => ?_⟩
  · simp [Symbol.renameAll, hisName, hisDot]
  · simp [Symbol.deviceNames, hisName, hisDot]

/-- The name of a pin stays, since a dot comes before it. -/
theorem pin {dot : Symbol} (hdot : dot.type = .dot) (h : x.type = .name) :
    Renames σ [dot, x] [dot, x] [] := by
  have hisName : dot.isName = false := by simp [isName, hdot]
  have hisDot : (x.type == SymbolType.dot) = false := by simp [h]
  refine ⟨fun zs => ?_, fun zs => ?_⟩
  · simp [Symbol.renameAll, hisName, hisDot, hdot]
  · simp [Symbol.deviceNames, hisName, hisDot, hdot]

end Renames

end Symbol

open GateSim.Symbol (Renames)

namespace Grammar
variable {s : Section} {xs : List Symbol} {st : Statement} {sts : List Statement}
  (σ : Text → Text)

theorem IsParameter.renames {kind : Kind} {p : Option Symbol} (h : IsParameter kind xs p) :
    Renames σ xs xs [] := by
  cases h with
  | number _ hx _ => exact .mark (by simp [hx]) (by simp [hx])
  | none => exact .nil

theorem IsOutput.renames {name : Symbol} {pin : Option Symbol} (h : IsOutput xs name pin) :
    ∃ ys, Renames σ xs ys [name.text] ∧ IsOutput ys (name.rename σ) pin := by
  cases h with
  | unnamed hn => exact ⟨_, .name hn, .unnamed hn⟩
  | named hn hd hp => exact ⟨_, (Renames.name hn).append (.pin hd hp.1), .named hn hd hp⟩

theorem IsStatement.renames (h : IsStatement s xs st) :
    ∃ ys, Renames σ xs ys st.deviceNames ∧ IsStatement s ys (st.rename σ) := by
  cases h with
  | @device kind k name xs parameter hk hn hp =>
    have hkind : Renames σ [k] [k] [] := .mark (by simp [hk.1]) (by simp [hk.1])
    exact ⟨_, hkind.append ((Renames.name hn).append (hp.renames σ)), .device hk hn hp⟩
  | @connection xs source arrow target dot pin sourcePin ho ha ht hd hp =>
    obtain ⟨ys, hys, ho'⟩ := ho.renames σ
    have harrow : Renames σ [arrow] [arrow] [] := .mark (by simp [ha]) (by simp [ha])
    have htarget : Renames σ [target] [target.rename σ] [target.text] := .name ht
    exact ⟨_, hys.append (harrow.append (htarget.append (.pin hd hp.1))),
      .connection ho' ha ht hd hp⟩
  | monitor ho =>
    obtain ⟨ys, hys, ho'⟩ := ho.renames σ
    exact ⟨ys, hys, .monitor ho'⟩

theorem IsItems.renames (h : IsItems s xs sts) :
    ∃ ys, Renames σ xs ys (sts.flatMap Statement.deviceNames) ∧
      IsItems s ys (sts.map (Statement.rename σ)) := by
  induction h with
  | single hst =>
    obtain ⟨ys, hys, hst'⟩ := hst.renames σ
    exact ⟨ys, by simpa using hys, .single hst'⟩
  | @cons xs ys comma st sts hst hc _ ih =>
    obtain ⟨xs', hxs, hst'⟩ := hst.renames σ
    obtain ⟨ys', hys, hsts'⟩ := ih
    have hcomma : Renames σ [comma] [comma] [] := .mark (by simp [hc]) (by simp [hc])
    exact ⟨_, hxs.append (hcomma.append hys), .cons hst' hc hsts'⟩

theorem IsPart.renames (h : IsPart s xs sts) :
    ∃ ys, Renames σ xs ys (sts.flatMap Statement.deviceNames) ∧
      IsPart s ys (sts.map (Statement.rename σ)) := by
  have hmark : ∀ {x : Symbol}, x.type ∈ [SymbolType.keyword, .colon, .semicolon] →
      Renames σ [x] [x] [] := fun {x} hx =>
    .mark (fun h => by simp [h] at hx) (fun h => by simp [h] at hx)
  cases h with
  | @items word colon semicolon xs sts hw hc hi hsemi =>
    obtain ⟨ys, hys, hi'⟩ := hi.renames σ
    have hword := hmark (x := word) (by simp [hw.1])
    have hcolon := hmark (x := colon) (by simp [hc])
    have hsemicolon := hmark (x := semicolon) (by simp [hsemi])
    refine ⟨_, ?_, .items hw hc hi' hsemi⟩
    simpa using hword.append (hcolon.append (hys.append hsemicolon))
  | @empty word colon semicolon hs hw hc hsemi =>
    have hword := hmark (x := word) (by simp [hw.1])
    have hcolon := hmark (x := colon) (by simp [hc])
    have hsemicolon := hmark (x := semicolon) (by simp [hsemi])
    exact ⟨_, hword.append (hcolon.append hsemicolon), .empty hs hw hc hsemi⟩

/-- With other names for devices a sentence stays one, and its statements have the other names. -/
theorem IsSentence.renames (h : IsSentence xs sts) :
    IsSentence (Symbol.renameAll σ false xs) (sts.map (Statement.rename σ)) ∧
      Symbol.deviceNames false xs = sts.flatMap Statement.deviceNames := by
  obtain @⟨devices, connect, monitor, ds, cs, ms, word, semicolon, hds, hcs, hms, hw, hsemi⟩ := h
  obtain ⟨devices', hdevices, hds'⟩ := hds.renames σ
  obtain ⟨connect', hconnect, hcs'⟩ := hcs.renames σ
  obtain ⟨monitor', hmonitor, hms'⟩ := hms.renames σ
  have hword : Renames σ [word] [word] [] := .mark (by simp [hw.1]) (by simp [hw.1])
  have hsemicolon : Renames σ [semicolon] [semicolon] [] :=
    .mark (by simp [hsemi]) (by simp [hsemi])
  have hclose : Renames σ [word, semicolon] [word, semicolon] [] := hword.append hsemicolon
  have hall := ((hdevices.append hconnect).append hmonitor).append hclose
  rw [hall.renameAll_eq, hall.deviceNames_eq, List.append_nil]
  refine ⟨?_, by simp only [List.flatMap_append]⟩
  rw [List.map_append, List.map_append]
  exact .mk hds' hcs' hms' hw hsemi

end Grammar

end GateSim
