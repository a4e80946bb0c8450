import Mathlib
import RowStream.Proofs.Table.Rewritten

/-!
# What a document says

A document is a tree of columns, each with the members it is written with (`written`). A schema that is
read from it is the same tree: the columns in their order, with their names and sub-columns (`Mirrors`).
A type or a mode that has no such name is the fault of its column, and the document has the fault of the
first column that has one, a column before its sub-columns and these before the next column
(`depthFirst`).

The induction is on the entries that the document is read as, a column together with the ones below it
and the ones after it (`outcome_columns`). It carries both results at once, since the columns are made
one after the other up to the first fault.

* `typeOfName?_eq_some`, `modeOfName?_eq_some`: the names of types and modes.
* `parse_equivalent`: documents that say one schema, and what the schema has of its document.
-/

namespace RowStream.Table.Document

/-! ## Columns of a document -/

/-- The members that a column is written with: those of an object, or the items of an array at their
places. -/
def written : Json → List (String × Json)
  | .object ms => ms
  | .array items => memberNames.zip items
  | _ => []

/-- What a column is written with under a key, whichever form it has. -/
def attribute? (key : String) (v : Json) : Option Json := (written v).lookup key

/-- The sub-columns of a column. -/
def subcolumns (v : Json) : List Json :=
  match attribute? "fields" v with
  | some list => list.items
  | none => []

/-- The columns of a document. -/
def columnsOf : Json → List Json
  | .array items => items
  | v => subcolumns v

theorem sizeOf_attribute {key : String} {v w : Json} (h : attribute? key v = some w) :
    sizeOf w < sizeOf v := by
  obtain ⟨l, l', hl⟩ := List.lookup_eq_some_iff.mp h
  have hmem : (key, w) ∈ written v := by simp [hl]
  cases v with
  | object ms =>
    have hlt := List.sizeOf_lt_of_mem hmem
    simp only [written, Prod.mk.sizeOf_spec, Json.object.sizeOf_spec] at hlt ⊢
    omega
  | array items =>
    have hlt := List.sizeOf_lt_of_mem (List.of_mem_zip hmem).2
    simp only [Json.array.sizeOf_spec]
    omega
  | _ => exact absurd hmem (by simp [written])

theorem sizeOf_subcolumns (v : Json) : sizeOf (subcolumns v) ≤ sizeOf v := by
  unfold subcolumns
  split
  · rename_i w hw
    have hlt := sizeOf_attribute hw
    cases w <;> simp only [Json.items, List.nil.sizeOf_spec, Json.array.sizeOf_spec] at hlt ⊢ <;> omega
  · cases v <;> simp

/-- The columns with those below them, in the order of the text. -/
def depthFirst : List Json → List Json
  | [] => []
  | v :: vs => v :: (depthFirst (subcolumns v) ++ depthFirst vs)
termination_by vs => sizeOf vs
decreasing_by
  · have hle := sizeOf_subcolumns v
    simp only [List.cons.sizeOf_spec]
    omega
  · simp only [List.cons.sizeOf_spec]
    omega

/-- The text of a member of a column. -/
def textOf (key : String) (v : Json) : String := ((attribute? key v).bind Json.text?).getD ""

/-! ## Names of types and modes -/

/-- The names of the types in capital letters, with those of older schemas. -/
def typeNames : List (String × ColumnType) :=
  [("STRING", .string), ("BYTES", .bytes), ("INTEGER", .int64), ("INT64", .int64), ("FLOAT", .double),
    ("FLOAT64", .double), ("DOUBLE", .double), ("NUMERIC", .numeric), ("DECIMAL", .numeric),
    ("BIGNUMERIC", .bignumeric), ("BIGDECIMAL", .bignumeric), ("BOOLEAN", .bool), ("BOOL", .bool),
    ("TIMESTAMP", .timestamp), ("DATE", .date), ("TIME", .time), ("DATETIME", .datetime),
    ("GEOGRAPHY", .geography), ("RECORD", .struct), ("STRUCT", .struct), ("JSON", .json),
    ("INTERVAL", .interval), ("RANGE", .range)]

/-- The names of the modes in capital letters. -/
def modeNames : List (String × Mode) :=
  [("NULLABLE", .nullable), ("REQUIRED", .required), ("REPEATED", .repeated)]

/-- **The names of types** are those of the table, in any letter case. -/
theorem typeOfName?_eq_some {s : String} {t : ColumnType} :
    typeOfName? s = some t ↔ (Text.upper s, t) ∈ typeNames := by
  constructor
  · intro h
    unfold typeOfName? at h
    split at h <;> cases h
    all_goals
      rename_i hname
      rw [hname]
      decide
  · intro h
    have hnames : ∀ p ∈ typeNames, typeOfName? p.1 = some p.2 := by decide
    rw [← typeOfName?_upper]
    exact hnames (Text.upper s, t) h

/-- **The names of modes** are those of the table, in any letter case. -/
theorem modeOfName?_eq_some {s : String} {m : Mode} :
    modeOfName? s = some m ↔ (Text.upper s, m) ∈ modeNames := by
  constructor
  · intro h
    unfold modeOfName? at h
    split at h <;> cases h
    all_goals
      rename_i hname
      rw [hname]
      decide
  · intro h
    have hnames : ∀ p ∈ modeNames, modeOfName? p.1 = some p.2 := by decide
    rw [← modeOfName?_upper]
    exact hnames (Text.upper s, m) h

/-- The fault of a column by itself: a type, or else a mode, that has no such name. -/
def unknown? (v : Json) : Option Unsupported :=
  if typeOfName? (textOf "type" v) = none then some (.type (textOf "name" v) (textOf "type" v))
  else
    match (attribute? "mode" v).bind Json.text? with
    | some mode => if modeOfName? mode = none then some (.mode (textOf "name" v) mode) else none
    | none => none

/-- A column without a fault has a type of the table, and a mode of the table or none. -/
theorem unknown?_eq_none {v : Json} : unknown? v = none ↔
    (∃ t, (Text.upper (textOf "type" v), t) ∈ typeNames) ∧
      ∀ mode, (attribute? "mode" v).bind Json.text? = some mode →
        ∃ m, (Text.upper mode, m) ∈ modeNames := by
  simp only [← typeOfName?_eq_some, ← modeOfName?_eq_some, ← Option.ne_none_iff_exists']
  unfold unknown?
  split_ifs with htype
  · simp [htype]
  · cases hmode : (attribute? "mode" v).bind Json.text? with
    | none => simp [htype]
    | some mode => by_cases hnone : modeOfName? mode = none <;> simp [htype, hnone]

/-- The column has the name that it is written with, and the sub-columns in their order. -/
inductive Mirrors : Json → Column → Prop
  | intro {v : Json} {c : Column} (name : attribute? "name" v = some (.string c.name))
      (columns : List.Forall₂ Mirrors (subcolumns v) c.columns) : Mirrors v c

/-! ## Entries -/

/-- A search that is not refused finds what stands under the key. -/
theorem only?_members {key : String} {ms : List (String × Json)} {o : Option Member}
    (h : only? key (members ms) = some o) :
    ms.lookup key = none ∧ o = none ∨
      ∃ v, ms.lookup key = some v ∧ o = some ⟨key, v, list? v⟩ := by
  induction ms with
  | nil =>
    rw [members] at h
    exact .inl ⟨rfl, (Option.some.inj h).symm⟩
  | cons m ms ih =>
    rw [members] at h
    by_cases heq : m.1 = key
    · subst heq
      rw [only?_cons_self (m := ⟨m.1, m.2, list? m.2⟩) rfl] at h
      rw [List.lookup_cons, beq_self_eq_true]
      rcases hrest : only? m.1 (members ms) with _ | _ | _
      · rw [hrest] at h
        exact absurd h (by simp)
      · rw [hrest] at h
        exact .inr ⟨m.2, rfl, (Option.some.inj h).symm⟩
      · rw [hrest] at h
        exact absurd h (by simp)
    · rw [only?_cons_of_ne heq] at h
      rw [List.lookup_cons, beq_false_of_ne (Ne.symm heq)]
      exact ih h

/-- What an entry says of the value that it was read from. -/
structure ReadFrom (v : Json) (e : Entry) : Prop where
  name : attribute? "name" v = some (.string e.name)
  type : attribute? "type" v = some (.string e.type)
  mode : (attribute? "mode" v).bind Json.text? = e.mode
  entries : entryList? (subcolumns v) = some e.entries

theorem text_of_required? {key : String} {ms : List (String × Json)} {s : String}
    (h : required? key Json.text? (members ms) = some s) : ms.lookup key = some (.string s) := by
  unfold required? at h
  obtain ⟨o, ho, hread⟩ := Option.bind_eq_some_iff.mp h
  rcases only?_members ho with ⟨-, rfl⟩ | ⟨v, hv, rfl⟩
  · exact absurd hread (by simp)
  · rw [hv]
    cases v <;> simp_all [Json.text?]

theorem text_of_optional? {key : String} {ms : List (String × Json)} {s : Option String}
    (h : optional? key textOrNull? (members ms) = some s) : (ms.lookup key).bind Json.text? = s := by
  unfold optional? at h
  obtain ⟨o, ho, hread⟩ := Option.bind_eq_some_iff.mp h
  rcases only?_members ho with ⟨hnone, rfl⟩ | ⟨v, hv, rfl⟩
  · rw [hnone]
    exact Option.some.inj hread
  · rw [hv]
    cases v <;> simp_all [Json.text?, textOrNull?]

theorem list_of_entries? {ms : List (String × Json)} {es : List Entry}
    (h : entries? (members ms) = some es) : entryList? (subcolumns (.object ms)) = some es := by
  unfold entries? at h
  obtain ⟨o, ho, hread⟩ := Option.bind_eq_some_iff.mp h
  rw [subcolumns, attribute?, written]
  rcases only?_members ho with ⟨hnone, rfl⟩ | ⟨v, hv, rfl⟩
  · rw [hnone]
    exact hread
  · rw [hv]
    cases v <;> simp_all [list?, Json.items]

theorem readFrom_of_read {v : Json} {e : Entry} (h : entry? v = some e) : ReadFrom v e := by
  have hmembers : entryOf? (members (written v)) = some e := by
    unfold entry? at h
    split at h
    · exact h
    · split at h
      · rw [items?_eq] at h
        exact h
      · exact nomatch h
    · exact nomatch h
  simp only [entryOf?, Option.pure_def, Option.bind_eq_bind, Option.bind_eq_some_iff,
    Option.some.injEq] at hmembers
  obtain ⟨name, hname, type, htype, mode, hmode, entries, hentries, -, -, -, -, -, -, -, -, -, -,
    -, -, rfl⟩ := hmembers
  exact ⟨text_of_required? hname, text_of_required? htype, text_of_optional? hmode,
    list_of_entries? hentries⟩

/-! ## Columns of entries -/

/-- Entries come one after the other, each after those below it. -/
theorem Entry.list_induct {P : List Entry → Prop} (nil : P [])
    (cons : ∀ e es, P e.entries → P es → P (e :: es)) (es : List Entry) : P es :=
  @Entry.rec_1 (fun e => P e.entries) P (fun _ _ _ _ _ _ _ _ _ _ h => h) nil
    (fun e es he hes => cons e es he hes) es

theorem column_eq (e : Entry) : column e = (do
    let t ← typeOf e
    let m ← modeOf e
    let cs ← columns e.entries
    return {
      name := e.name
      type := t.number
      mode := m.number
      columns := cs
      description := e.description.getD ""
      maxLength := e.maxLength.getD 0
      precision := e.precision.getD 0
      scale := e.scale.getD 0
      defaultValueExpression := e.defaultValueExpression.getD ""
      timestampPrecision := e.timestampPrecision }) := by
  cases e
  rw [column]

/-- The fault of a column by itself is that of its type, or else of its mode. -/
theorem unknown?_eq {v : Json} {e : Entry} (h : ReadFrom v e) : unknown? v =
    match typeOf e, modeOf e with
    | .error u, _ => some u
    | .ok _, .error u => some u
    | .ok _, .ok _ => none := by
  obtain ⟨hname, htype, hmode, -⟩ := h
  simp only [unknown?, textOf, hname, htype, hmode, Option.bind_some, Json.text?, Option.getD_some,
    typeOf, modeOf]
  cases typeOfName? e.type with
  | none => simp
  | some t =>
    cases e.mode with
    | none => simp
    | some mode => cases hm : modeOfName? mode <;> simp [hm]

/-- The outcome is a tree like that of the columns that are written, or the fault of the first of these
that has one. -/
def Outcome (items : List Json) : Except Unsupported (List Column) → Prop
  | .ok cs => List.Forall₂ Mirrors items cs ∧ (depthFirst items).findSome? unknown? = none
  | .error u => (depthFirst items).findSome? unknown? = some u

/-- Entries are read from items one for one. -/
theorem items_of_entryList? {es : List Entry} {items : List Json}
    (h : entryList? items = some es) : List.Forall₂ (fun v e => entry? v = some e) items es := by
  induction items generalizing es with
  | nil =>
    rw [entryList?] at h
    cases h
    exact .nil
  | cons v vs ih =>
    simp only [entryList?, Option.pure_def, Option.bind_eq_bind, Option.bind_eq_some_iff,
      Option.some.injEq] at h
    obtain ⟨e, he, es, hes, rfl⟩ := h
    exact .cons he (ih hes)

/-- The first fault is that of the first column, or of one below it, or of one after it. -/
theorem findSome?_depthFirst (v : Json) (vs : List Json) :
    (depthFirst (v :: vs)).findSome? unknown? = (unknown? v).or
      (((depthFirst (subcolumns v)).findSome? unknown?).or ((depthFirst vs).findSome? unknown?)) := by
  rw [depthFirst, List.findSome?_cons, List.findSome?_append]
  cases unknown? v <;> rfl

/-- **The columns of entries, or their first fault.** -/
theorem outcome_columns (es : List Entry) : ∀ items : List Json,
    List.Forall₂ (fun v e => entry? v = some e) items es → Outcome items (columns es) := by
  induction es using Entry.list_induct with
  | nil =>
    intro items h
    cases h
    exact ⟨.nil, by rw [depthFirst, List.findSome?_nil]⟩
  | cons e es hbelow hafter =>
    intro items h
    cases h with
    | @cons v _ vs _ he hes =>
      have hread := readFrom_of_read he
      have hown := unknown?_eq hread
      replace hbelow := hbelow _ (items_of_entryList? hread.entries)
      replace hafter := hafter _ hes
      have hfirst := findSome?_depthFirst v vs
      -- the column itself comes first, then those below it, then those after it
      rw [columns, column_eq]
      cases ht : typeOf e with
      | error u =>
        rw [ht] at hown
        exact hfirst.trans (by rw [hown]; rfl)
      | ok t =>
        cases hm : modeOf e with
        | error u =>
          rw [ht, hm] at hown
          exact hfirst.trans (by rw [hown]; rfl)
        | ok m =>
          rw [ht, hm] at hown
          cases hcs : columns e.entries with
          | error u =>
            rw [hcs] at hbelow
            exact hfirst.trans (by rw [hown, show _ = some u from hbelow]; rfl)
          | ok cs =>
            rw [hcs] at hbelow
            cases hrest : columns es with
            | error u =>
              rw [hrest] at hafter
              exact hfirst.trans (by rw [hown, hbelow.2, show _ = some u from hafter]; rfl)
            | ok rest =>
              rw [hrest] at hafter
              exact ⟨.cons (.intro hread.name hbelow.1) hafter.1,
                hfirst.trans (by rw [hown, hbelow.2, hafter.2]; rfl)⟩

/-! ## Documents -/

theorem entries_of_document? {v : Json} {es : List Entry} (h : document? v = some es) :
    entryList? (columnsOf v) = some es := by
  unfold document? at h
  split at h
  · rename_i ms
    split at h
    · rename_i m hm
      have hentries : entries? (members ms) = some es := by
        rw [entries?, hm]
        exact h
      exact list_of_entries? hentries
    · exact nomatch h
  · unfold list? at h
    split at h
    · exact h
    · exact nomatch h

/-- **Documents and their schemas.**

* Two texts that write one schema, in any of the ways, are read as one schema, or refused for one
  reason up to the case of the letters that it quotes.
* A schema that is read is a tree like that of the document: the same columns, with their names, in the
  same order, one below the other.
* A text that has the shape of a document and writes a type or a mode that has no such name is refused
  for the first of those, and for nothing else. -/
theorem parse_equivalent {s : String} {v : Json} (h : Json.parse s = .ok v) :
    (∀ s' v', Json.parse s' = .ok v' → SameDocument v v' →
      (parse s).mapError Error.folded = (parse s').mapError Error.folded) ∧
    (∀ t, parse s = .ok t → List.Forall₂ Mirrors (columnsOf v) t.columns) ∧
    (parse s ≠ .error .wrongShape → ∀ u, parse s = .error (.unsupported u) ↔
      (depthFirst (columnsOf v)).findSome? unknown? = some u) := by
  have hparse := parse_eq_ofJson h
  refine ⟨fun s' v' h' hsame => ?_, ?_⟩
  · rw [hparse, parse_eq_ofJson h']
    exact hsame.ofJson
  · rw [hparse, ofJson]
    cases hdocument : document? v with
    | none => simp
    | some es =>
      have houtcome := outcome_columns es _ (items_of_entryList? (entries_of_document? hdocument))
      simp only [schema]
      cases hcs : columns es with
      | ok cs =>
        rw [hcs] at houtcome
        obtain ⟨hmirrors, hnone⟩ := houtcome
        simpa [hnone] using hmirrors
      | error u =>
        rw [hcs] at houtcome
        simp [show _ = some u from houtcome]

/-- A column below another one, written in two ways; and one column below another, both at fault. -/
theorem parse_equivalent_nested :
    let s := "[\x7b\"fields\":[\x7b\"maxLength\":5,\"type\":\"INT64\",\"name\":\"b\"\x7d]," ++
      "\"type\":\"STRUCT\",\"name\":\"a\"\x7d]"
    let s' := "\x7b\"fields\":[\x7b\"type\":\"Struct\",\"fields\":[\x7b\"x\":[1],\"scale\":null," ++
      "\"type\":\"int64\",\"maxLength\":\"5\",\"name\":\"b\"\x7d],\"name\":\"a\"\x7d]\x7d"
    let faulty := "[\x7b\"name\":\"a\",\"type\":\"RECORD\",\"mode\":\"none\",\"fields\":" ++
      "[\x7b\"name\":\"b\",\"type\":\"VARIANT\"\x7d]\x7d]"
    (∃ v t, Json.parse s = .ok v ∧ parse s = .ok t ∧ (parse s').mapError Error.folded = .ok t ∧
      List.Forall₂ Mirrors (columnsOf v) t.columns) ∧
    ∃ v, Json.parse faulty = .ok v ∧ parse faulty = .error (.unsupported (.mode "a" "none")) ∧
      (depthFirst (columnsOf v)).findSome? unknown? = some (.mode "a" "none") := by
  let b : Json := .object [("maxLength", .number (.int 5)), ("type", .string "INT64"),
    ("name", .string "b")]
  let b' : Json := .object [("x", .array [.number (.int 1)]), ("scale", .null),
    ("type", .string "int64"), ("maxLength", .string "5"), ("name", .string "b")]
  let a : Json := .object [("fields", .array [b]), ("type", .string "STRUCT"), ("name", .string "a")]
  let a' : Json := .object [("type", .string "Struct"), ("fields", .array [b']),
    ("name", .string "a")]
  have hb : Alike b b' := by
    have hwhole : Alike b (.object [("maxLength", .string "5"), ("type", .string "INT64"),
        ("name", .string "b")]) := .whole (n := 5) (by decide) (by cbv)
    refine ((hwhole.trans (.reorder (.swap ..))).trans (.letters (.inl rfl) ?_)).trans
      (.trans (.absent ?_ ?_) (.unknown ?_ _))
    · decide
    · decide
    · decide
    · decide
  have ha : Alike a a' := by
    have hnested : Alike (.object (("fields", .array ([] ++ b :: [])) :: [("type", .string "STRUCT"),
        ("name", .string "a")])) (.object (("fields", .array ([] ++ b' :: [])) ::
          [("type", .string "STRUCT"), ("name", .string "a")])) := .nested hb
    refine (hnested.trans (.reorder (.swap ..))).trans (.letters (.inl rfl) ?_)
    decide
  have hsame : SameDocument (.array [a]) (.object [("fields", .array [a'])]) := by
    have hcolumn : SameDocument (.array ([] ++ a :: [])) (.array ([] ++ a' :: [])) := .column ha
    exact hcolumn.trans (.bare _)
  intro s s' faulty
  have hs : Json.parse s = .ok (.array [a]) := by
    simp only [s, a, b]
    cbv
  have hs' : Json.parse s' = .ok (.object [("fields", .array [a'])]) := by
    simp only [s', a', b']
    cbv
  let below : Column := { name := "b", type := 2, mode := 1, maxLength := 5 }
  have hok : parse s = .ok ⟨[{ name := "a", type := 4, mode := 1, columns := [below] }]⟩ := by
    simp only [s, below]
    cbv
  have hfaulty : Json.parse faulty = .ok (.array [.object [("name", .string "a"),
      ("type", .string "RECORD"), ("mode", .string "none"), ("fields", .array [.object
        [("name", .string "b"), ("type", .string "VARIANT")]])]]) := by
    simp only [faulty]
    cbv
  have herror : parse faulty = .error (.unsupported (.mode "a" "none")) := by
    simp only [faulty]
    cbv
  refine ⟨⟨_, _, hs, hok, ?_, (parse_equivalent hs).2.1 _ hok⟩, _, hfaulty, herror, ?_⟩
  · rw [← (parse_equivalent hs).1 s' _ hs' hsame, hok]
    rfl
  · exact ((parse_equivalent hfaulty).2.2 (by simp [herror]) _).mp herror

end RowStream.Table.Document
