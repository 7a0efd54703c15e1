import GateSim.Names

/-!
# Interning

A name table numbers the texts that it looks up in the order of first sight
(`NameTable.texts_insertAll`). So the ids given out so far and the texts looked up so far determine
each other, whatever is asked and in whatever order (`NameTable.interns_run`).
-/

namespace GateSim

namespace NameTable
variable {names : NameTable} {s t : Text} {ts : List Text} {id : NameId}

/-! ### Ids and their texts -/

theorem idOf_inj (hs : s ∈ names.texts) (ht : t ∈ names.texts) :
    names.idOf s = names.idOf t ↔ s = t := by
  refine ⟨fun h => ?_, fun h => h ▸ rfl⟩
  have := text?_idOf hs
  rw [h, text?_idOf ht] at this
  exact (Option.some.inj this).symm

/-- A text that was not seen does not have the id of one that was. -/
theorem idOf_eq_iff (hs : s ∈ names.texts) : names.idOf t = names.idOf s ↔ t = s := by
  refine ⟨fun h => ?_, congrArg _⟩
  have ht : t ∈ names.texts := idOf_lt.1 (h ▸ idOf_lt.2 hs)
  exact (idOf_inj ht hs).1 h

theorem nodup_map_idOf (h : ∀ t ∈ ts, t ∈ names.texts) : (ts.map names.idOf).Nodup ↔ ts.Nodup := by
  induction ts with
  | nil => simp
  | cons t ts ih =>
    have hts : ∀ s ∈ ts, s ∈ names.texts := fun s hs => h s (List.mem_cons_of_mem _ hs)
    rw [List.map_cons, List.nodup_cons, List.nodup_cons, ih hts, List.mem_map]
    refine and_congr_left' (not_congr ⟨?_, fun ht => ⟨t, ht, rfl⟩⟩)
    rintro ⟨s, hs, heq⟩
    exact (idOf_inj (hts s hs) (h t (List.mem_cons_self ..))).1 heq ▸ hs

theorem text?_eq_some_iff : names.text? id = some t ↔ t ∈ names.texts ∧ names.idOf t = id := by
  constructor
  · intro h
    obtain ⟨hlt, rfl⟩ := List.getElem?_eq_some_iff.1 h
    exact ⟨List.getElem_mem hlt, names.nodup.idxOf_getElem id hlt⟩
  · rintro ⟨ht, rfl⟩
    exact text?_idOf ht

theorem text?_inj {b : NameId} (ha : names.text? id = some t) (hb : names.text? b = some t) :
    id = b :=
  (text?_eq_some_iff.1 ha).2.symm.trans (text?_eq_some_iff.1 hb).2

theorem nameOf_idOf (h : t ∈ names.texts) : names.nameOf (names.idOf t) = t := by
  rw [nameOf, text?_idOf h, Option.getD_some]

theorem find?_of_mem (h : t ∈ names.texts) : names.find? t = some (names.idOf t) := if_pos h

theorem find?_of_not_mem (h : t ∉ names.texts) : names.find? t = none := if_neg h

theorem mem_of_find? (h : names.find? t = some id) : t ∈ names.texts ∧ names.idOf t = id := by
  by_cases ht : t ∈ names.texts
  · rw [find?_of_mem ht] at h
    exact ⟨ht, Option.some.inj h⟩
  · rw [find?_of_not_mem ht] at h
    cases h

theorem nameOf_of_find? (h : names.find? t = some id) : names.nameOf id = t := by
  obtain ⟨ht, rfl⟩ := mem_of_find? h
  exact nameOf_idOf ht

/-- To find the id of a text and to give the text of an id are inverse to each other. -/
theorem find?_eq_some_iff : names.find? t = some id ↔ names.text? id = some t :=
  ⟨fun h => text?_eq_some_iff.2 (mem_of_find? h), fun h => by
    obtain ⟨ht, rfl⟩ := text?_eq_some_iff.1 h
    exact find?_of_mem ht⟩

theorem isSome_find?_iff : (names.find? t).isSome = true ↔ t ∈ names.texts := by
  by_cases ht : t ∈ names.texts
  · simp [find?_of_mem ht, ht]
  · simp [find?_of_not_mem ht, ht]

theorem exists_idOf_eq (h : id < names.size) : ∃ t ∈ names.texts, names.idOf t = id :=
  ⟨_, List.getElem_mem h, names.nodup.idxOf_getElem id h⟩

/-- The ids of all texts of a table are the numbers below its size. -/
theorem mem_map_idOf_iff (h : ∀ t, t ∈ ts ↔ t ∈ names.texts) :
    id ∈ ts.map names.idOf ↔ id < names.size := by
  rw [List.mem_map]
  constructor
  · rintro ⟨t, ht, rfl⟩
    exact idOf_lt.2 ((h t).1 ht)
  · intro hid
    obtain ⟨t, ht, rfl⟩ := exists_idOf_eq hid
    exact ⟨t, (h t).2 ht, rfl⟩

theorem text_eq_ok_iff : names.text id = .ok t ↔ names.text? id = some t := by
  unfold text
  cases names.text? id <;> simp

theorem text_idOf (h : t ∈ names.texts) : names.text (names.idOf t) = .ok t :=
  text_eq_ok_iff.2 (text?_idOf h)

theorem text_eq_error_iff : names.text id = .error (.unknownId id) ↔ names.size ≤ id := by
  rw [size, ← List.getElem?_eq_none_iff, ← text?, text]
  cases names.text? id <;> simp

/-! ### Texts that are looked up -/

theorem insert_eq_self (h : t ∈ names.texts) : names.insert t = names :=
  ext (by rw [texts_insert, if_pos h])

theorem idOf_insert_self (names : NameTable) (t : Text) : (names.insert t).idOf t = names.idOf t := by
  by_cases ht : t ∈ names.texts
  · rw [insert_eq_self ht]
  · rw [idOf, idOf, texts_insert, if_neg ht, List.idxOf_append, if_neg ht, List.idxOf_eq_length ht]
    simp

theorem intern_of_mem (h : t ∈ names.texts) : names.intern t = (names.idOf t, names) := by
  rw [intern, insert_eq_self h]

theorem insertAll_cons (names : NameTable) (t : Text) (ts : List Text) :
    names.insertAll (t :: ts) = (names.insert t).insertAll ts := rfl

theorem insertAll_append (names : NameTable) (ts us : List Text) :
    names.insertAll (ts ++ us) = (names.insertAll ts).insertAll us := List.foldl_append

/-- New texts come last, in the order in which they are first seen. -/
theorem texts_insertAll (names : NameTable) (ts : List Text) :
    (names.insertAll ts).texts = names.texts ++ (ts.filter (· ∉ names.texts)).eraseDups := by
  induction ts generalizing names with
  | nil => exact (List.append_nil _).symm
  | cons t ts ih =>
    rw [insertAll_cons, ih, texts_insert]
    by_cases ht : t ∈ names.texts
    · rw [if_pos ht, List.filter_cons_of_neg (by simpa using ht)]
    · have hlater : ts.filter (· ∉ names.texts ++ [t]) =
          (ts.filter (· ∉ names.texts)).filter (!· == t) := by
        rw [List.filter_filter]
        refine List.filter_congr fun s _ => ?_
        by_cases hs : s = t <;> simp [hs]
      rw [if_neg ht, List.filter_cons_of_pos (by simpa using ht), List.eraseDups_cons, hlater,
        List.append_assoc, List.singleton_append]

theorem texts_insertAll_empty (ts : List Text) :
    (insertAll {} ts).texts = ts.eraseDups := by
  rw [texts_insertAll, List.filter_eq_self.2 fun t _ => by simp, List.nil_append]

theorem mem_insertAll : s ∈ (names.insertAll ts).texts ↔ s ∈ names.texts ∨ s ∈ ts := by
  rw [texts_insertAll, List.mem_append, List.mem_eraseDups, List.mem_filter]
  by_cases hs : s ∈ names.texts <;> simp [hs]

theorem insertAll_eq_self (h : ∀ t ∈ ts, t ∈ names.texts) : names.insertAll ts = names := by
  have hnew : ts.filter (· ∉ names.texts) = [] := List.filter_eq_nil_iff.2 (by simpa using h)
  refine ext ?_
  rw [texts_insertAll, hnew, List.eraseDups_nil, List.append_nil]

/-- Ids are kept when more texts are seen. -/
theorem idOf_insertAll (ts : List Text) (h : s ∈ names.texts) :
    (names.insertAll ts).idOf s = names.idOf s := by
  rw [idOf, idOf, texts_insertAll, List.idxOf_append, if_pos h]

/-- So are the texts of ids. -/
theorem text_insertAll (ts : List Text) (h : id < names.size) :
    (names.insertAll ts).text id = names.text id := by
  rw [text, text, text?, text?, texts_insertAll, List.getElem?_append_left h]

theorem intern_insertAll (ts : List Text) (h : s ∈ names.texts) :
    (names.insertAll ts).intern s = ((names.intern s).1, names.insertAll ts) := by
  rw [intern_of_mem (mem_insertAll.2 (.inl h)), idOf_insertAll ts h, intern]

theorem size_insertAll (names : NameTable) (ts : List Text) :
    (names.insertAll ts).size = names.size + (ts.filter (· ∉ names.texts)).eraseDups.length := by
  rw [size, size, texts_insertAll, List.length_append]

/-- The ids of a list are those that its texts have at its end. -/
theorem internAll_eq (names : NameTable) (ts : List Text) :
    names.internAll ts = (ts.map (names.insertAll ts).idOf, names.insertAll ts) := by
  induction ts generalizing names with
  | nil => rfl
  | cons t ts ih =>
    have ht : (names.insertAll (t :: ts)).idOf t = names.idOf t := by
      rw [insertAll_cons, idOf_insertAll ts (mem_insert.2 (.inr rfl)), idOf_insert_self]
    rw [internAll, List.map_cons, ht]
    simp only [intern, ih, insertAll_cons]

/-! ### Requests -/

/-- What a name table can be asked. -/
inductive Request
  | intern (t : Text)
  | internAll (ts : List Text)
  | find (t : Text)
  | text (id : NameId)

inductive Answer
  | interned (id : NameId)
  | internedAll (ids : List NameId)
  | found (id : Option NameId)
  | text (t : Except Fault Text)

/-- The texts that a request looks up. -/
def Request.texts : Request → List Text
  | .intern t => [t]
  | .internAll ts => ts
  | .find _ | .text _ => []

/-- The ids that are given out for texts that are looked up. -/
def Answer.ids : Answer → List NameId
  | .interned id => [id]
  | .internedAll ids => ids
  | .found _ | .text _ => []

def perform (names : NameTable) : Request → Answer × NameTable
  | .intern t =>
    let (id, names) := names.intern t
    (.interned id, names)
  | .internAll ts =>
    let (ids, names) := names.internAll ts
    (.internedAll ids, names)
  | .find t => (.found (names.find? t), names)
  | .text id => (.text (names.text id), names)

/-- Performs requests one after the other. Gives all answers. -/
def run (names : NameTable) : List Request → List Answer × NameTable
  | [] => ([], names)
  | r :: rs =>
    let (answer, names) := names.perform r
    let (answers, names) := names.run rs
    (answer :: answers, names)

theorem perform_snd (names : NameTable) (r : Request) :
    (names.perform r).2 = names.insertAll r.texts := by
  cases r with
  | internAll ts => rw [perform, internAll_eq, Request.texts]
  | intern | find | text => rfl

theorem ids_perform (names : NameTable) (r : Request) :
    (names.perform r).1.ids = r.texts.map (names.insertAll r.texts).idOf := by
  cases r with
  | intern t => exact congrArg (fun id => [id]) (idOf_insert_self names t).symm
  | internAll ts => rw [perform, internAll_eq, Request.texts, Answer.ids]
  | find | text => rfl

theorem run_snd (names : NameTable) (rs : List Request) :
    (names.run rs).2 = names.insertAll (rs.flatMap Request.texts) := by
  induction rs generalizing names with
  | nil => rfl
  | cons r rs ih => rw [run, List.flatMap_cons, insertAll_append, ← perform_snd, ← ih]

/-- Any id that was given out for a text is the one that the text has in the end. -/
theorem ids_run (names : NameTable) (rs : List Request) :
    (names.run rs).1.flatMap Answer.ids = (rs.flatMap Request.texts).map (names.run rs).2.idOf := by
  induction rs generalizing names with
  | nil => rfl
  | cons r rs ih =>
    have hfirst : (names.perform r).1.ids = r.texts.map ((names.perform r).2.run rs).2.idOf := by
      rw [ids_perform]
      refine List.map_congr_left fun t ht => ?_
      rw [run_snd, perform_snd, idOf_insertAll _ (mem_insertAll.2 (.inr ht))]
    show (names.perform r).1.ids ++ ((names.perform r).2.run rs).1.flatMap Answer.ids = _
    rw [hfirst, ih, List.flatMap_cons, List.map_append]
    rfl

theorem internAll_eq_run (names : NameTable) (ts : List Text) :
    names.internAll ts = ((names.run (ts.map .intern)).1.flatMap Answer.ids,
      (names.run (ts.map .intern)).2) := by
  have hts : (ts.map Request.intern).flatMap Request.texts = ts := by
    rw [List.flatMap_map]
    exact List.flatMap_singleton' ts
  rw [ids_run, run_snd, hts, internAll_eq]

/-- A table that has looked up these texts, and gave out these ids for them. -/
structure Interns (names : NameTable) (seen : List Text) (given : List NameId) : Prop where
  /-- The id that was given out for a text is given out for it again. -/
  again : given = seen.map fun t => (names.intern t).1
  ids : ∀ id, id ∈ given ↔ id < names.size
  size : names.size = seen.eraseDups.length
  text_intern : ∀ t ∈ seen, ∃ id, names.intern t = (id, names) ∧ names.text id = .ok t
  intern_text : ∀ id < names.size, ∃ t ∈ seen,
    names.text id = .ok t ∧ names.intern t = (id, names)
  unknown : ∀ id, names.text id = .error (.unknownId id) ↔ names.size ≤ id
  finds : ∀ t, (names.find? t).isSome = true ↔ t ∈ seen
  found : ∀ t id, names.find? t = some id ↔ names.text id = .ok t
  /-- A request that looks up nothing leaves the table as it is. -/
  idle : ∀ r : Request, r.texts = [] → (names.perform r).2 = names
  /-- No requests change what was given out. -/
  later : ∀ rs, let names' := (names.run rs).2
    (∀ id < names.size, names'.text id = names.text id) ∧
      ∀ t ∈ seen, names'.intern t = ((names.intern t).1, names')
  /-- To look up a list is to look up its texts one by one. -/
  oneByOne : ∀ ts, let (answers, names') := names.run (ts.map .intern)
    names.internAll ts = (answers.flatMap Answer.ids, names') ∧
      names'.size = names.size + (ts.filter (· ∉ seen)).eraseDups.length

theorem interns_of_texts_eq {seen : List Text} (h : names.texts = seen.eraseDups) :
    names.Interns seen (seen.map names.idOf) := by
  have hmem : ∀ t, t ∈ seen ↔ t ∈ names.texts := fun t => by rw [h, List.mem_eraseDups]
  exact {
    again := rfl
    ids := fun id => mem_map_idOf_iff hmem
    size := congrArg List.length h
    text_intern := fun t ht =>
      have ht := (hmem t).1 ht
      ⟨names.idOf t, intern_of_mem ht, text_idOf ht⟩
    intern_text := fun id hid => by
      obtain ⟨t, ht, rfl⟩ := exists_idOf_eq hid
      exact ⟨t, (hmem t).2 ht, text_idOf ht, intern_of_mem ht⟩
    unknown := fun id => text_eq_error_iff
    finds := fun t => isSome_find?_iff.trans (hmem t).symm
    found := fun t id => find?_eq_some_iff.trans text_eq_ok_iff.symm
    idle := fun r hr => by
      rw [perform_snd, hr]
      rfl
    later := fun rs => by
      rw [run_snd]
      exact ⟨fun id hid => text_insertAll _ hid, fun t ht => intern_insertAll _ ((hmem t).1 ht)⟩
    oneByOne := fun ts => by
      have hrun := internAll_eq_run names ts
      refine ⟨hrun, ?_⟩
      calc (names.run (ts.map .intern)).2.size
          = (names.internAll ts).2.size := by rw [hrun]
        _ = (names.insertAll ts).size := by rw [internAll_eq]
        _ = names.size + (ts.filter (· ∉ seen)).eraseDups.length := by
          simp only [size_insertAll, hmem] }

/-- After any requests, the texts that were looked up and the ids that were given out for them are
in bijection, and they stay so whatever is asked next. -/
theorem interns_run (requests : List Request) :
    let (answers, names) := run {} requests
    names.Interns (requests.flatMap Request.texts) (answers.flatMap Answer.ids) := by
  show (run {} requests).2.Interns _ ((run {} requests).1.flatMap Answer.ids)
  rw [ids_run]
  exact interns_of_texts_eq (by rw [run_snd, texts_insertAll_empty])

example :
    let (answers, names) := run {} [.intern (.ofString "Q"), .find (.ofString "A"),
      .internAll [.ofString "A", .ofString "Q", [], .ofString "A"], .text 1]
    answers.flatMap Answer.ids = [0, 1, 0, 2, 1] ∧ names.size = 3 := by
  decide

end NameTable

end GateSim
