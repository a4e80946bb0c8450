import Mathlib
import RowStream.Proofs.Command.Lines
import RowStream.Proofs.Fallible
import RowStream.Proofs.Text.Base64

/-!
# Encoding a file of rows

The lines of a file that are not blank are its rows (`rowsOfLines_eq_ok`). All of them are read and
encoded before the first one is written (`encode_onto`), so a file is written as a whole or not at all,
one line for each row. The number that a fault of a line carries counts all lines, those of the output
only the rows.

* `encodedRows_eq_ok`: when a file is encoded, and as what.
* `encode_all_or_nothing`: both outcomes, and the fault of a line that is no row.
-/

namespace RowStream.Command

/-! ## Work on an output -/

namespace Work

variable {α : Type} {o : Output}

theorem onto_bind (x : Except Error α) (f : α → Work Unit) (o : Output) :
    Work.onto (liftM x >>= f) o =
      match x with
      | .ok a => (f a).onto o
      | .error e => (.error e, o) := by
  cases x <;> rfl

/-- Steps that put nothing out are one step. -/
theorem lift_bind {β : Type} (x : Except Error α) (g : α → Except Error β) (f : β → Work Unit) :
    (liftM (x >>= g) >>= f : Work Unit) = liftM x >>= fun a => liftM (g a) >>= f := by
  cases x <;> rfl

theorem onto_forM_put {β : Type} (f : β → List UInt8) (xs : List β) (o : Output) :
    Work.onto (xs.forM fun x => put (f x)) o =
      (.ok (), { o with out := o.out ++ xs.flatMap f }) := by
  induction xs generalizing o with
  | nil => simp [List.forM_nil]; rfl
  | cons x xs ih =>
    have hstep : Work.onto ((x :: xs).forM fun x => put (f x)) o =
        Work.onto (xs.forM fun x => put (f x)) { o with out := o.out ++ f x } := rfl
    rw [hstep, ih]
    simp [List.append_assoc]

end Work

/-- The bytes of the rows of a file, or why there are none. -/
def encodedRows (files : Files) (a : EncodeArguments) : Except Error (List (List UInt8)) := do
  let schema ← readSchema files a.schema
  let shape ← (Shape.ofTable schema "root" .proto2).mapError Error.shape
  let bytes ← (files a.rows).mapError (Error.file a.rows)
  let rows ← rowsOfLines a.rows 1 (lines bytes)
  let encoder : Encoder := { shape := shape, convertDates := a.convertDates }
  (encoder.encode rows).mapError Error.rows

/-- **All rows are read and encoded before the first one is written.** -/
theorem encode_eq (files : Files) (a : EncodeArguments) : encode files a =
    liftM (encodedRows files a) >>= fun rows => rows.forM fun row => put (outputLine row) := by
  simp only [encode, encodedRows, Work.lift_bind]

theorem encode_onto (files : Files) (a : EncodeArguments) (o : Output) :
    (encode files a).onto o =
      match encodedRows files a with
      | .ok rows => (.ok (), { o with out := o.out ++ rows.flatMap outputLine })
      | .error e => (.error e, o) := by
  rw [encode_eq, Work.onto_bind]
  cases encodedRows files a with
  | error e => rfl
  | ok rows => exact Work.onto_forM_put _ _ _

/-! ## Lines and rows -/

/-- The line is a text of blanks. -/
def isBlank (line : List UInt8) : Bool :=
  match Utf8.decode line with
  | some text => Text.trim text == ""
  | none => false

/-- The line is read as the row. -/
def ReadAs (line : List UInt8) (row : Row) : Prop :=
  ∃ text v, Utf8.decode line = some text ∧ Json.parse text = .ok v ∧ Row.ofJson? v = some row

/-- The line is a text that is neither blank nor a JSON object. -/
def Malformed (line : List UInt8) : Prop :=
  ∃ text, Utf8.decode line = some text ∧ Text.trim text ≠ "" ∧
    ∀ members, Json.parse text ≠ .ok (.object members)

/-- The line of a fault. -/
def Error.line? : Error → Option Nat
  | .malformedRow n _ | .notAnObject n => some n
  | _ => none

variable {path : String} {n : Nat} {line : List UInt8} {ls : List (List UInt8)} {row : Row}
  {rows : List Row}

theorem ofJson?_eq_none {v : Json} (h : ∀ members, v ≠ .object members) :
    Row.ofJson? v = none := by
  cases v with
  | object members => exact absurd rfl (h members)
  | number x =>
    cases x with
    | int n => cases hn : Integer.Range.int64.has n <;> simp [Row.ofJson?, Row.Value.ofJson, hn]
    | real x => simp only [Row.ofJson?, Row.Value.ofJson]
  | _ => simp only [Row.ofJson?, Row.Value.ofJson]

theorem ReadAs.unique {row' : Row} (h : ReadAs line row) (h' : ReadAs line row') : row = row' := by
  obtain ⟨text, v, hd, hp, hr⟩ := h
  obtain ⟨text', v', hd', hp', hr'⟩ := h'
  obtain rfl := Option.some.inj (hd.symm.trans hd')
  obtain rfl := Except.ok.inj (hp.symm.trans hp')
  exact Option.some.inj (hr.symm.trans hr')

/-- A line is no text, or blank, or malformed, or a row. -/
theorem rowOfLine_cases (path : String) (n : Nat) (line : List UInt8) :
    Utf8.decode line = none ∧ (∃ e, rowOfLine path n line = .error e) ∨
      isBlank line = true ∧ rowOfLine path n line = .ok none ∨
      Malformed line ∧ (∃ e, rowOfLine path n line = .error e ∧ e.line? = some n) ∨
      isBlank line = false ∧ ∃ row, ReadAs line row ∧ rowOfLine path n line = .ok (some row) := by
  unfold rowOfLine isBlank
  cases hd : Utf8.decode line with
  | none => exact .inl ⟨rfl, _, rfl⟩
  | some text =>
    by_cases hblank : Text.trim text = ""
    · exact .inr (.inl ⟨by simp [hblank], if_pos hblank⟩)
    · simp only [if_neg hblank, beq_eq_false_iff_ne.mpr hblank]
      right; right
      cases hp : Json.parse text with
      | error e => exact .inl ⟨⟨text, hd, hblank, by simp [hp]⟩, _, rfl, rfl⟩
      | ok v =>
        cases hr : Row.ofJson? v with
        | some row => exact .inr ⟨trivial, row, ⟨text, v, hd, hp, hr⟩, by simp only [hr]⟩
        | none =>
          refine .inl ⟨⟨text, hd, hblank, ?_⟩, .notAnObject n, by simp only [hr], rfl⟩
          rintro members heq
          obtain rfl : v = .object members := Except.ok.inj (hp.symm.trans heq)
          rw [Row.ofJson?, Row.Value.ofJson] at hr
          exact absurd hr (by simp)

theorem ReadAs.not_malformed (h : ReadAs line row) : ¬ Malformed line := by
  rintro ⟨text, hd, -, hobject⟩
  obtain ⟨text', v, hd', hp, hr⟩ := h
  obtain rfl := Option.some.inj (hd.symm.trans hd')
  rw [ofJson?_eq_none fun members heq => hobject members (heq ▸ hp)] at hr
  exact absurd hr (by simp)

theorem Malformed.not_blank (h : Malformed line) : isBlank line = false := by
  obtain ⟨text, hd, htrim, -⟩ := h
  simp [isBlank, hd, htrim]

theorem rowsOfLines_of_ok {r : Option Row} (h : rowOfLine path n line = .ok r) :
    rowsOfLines path n (line :: ls) = (rowsOfLines path (n + 1) ls).map (r.toList ++ ·) := by
  rw [rowsOfLines, h]
  cases rowsOfLines path (n + 1) ls <;> rfl

theorem rowsOfLines_of_error {e : Error} (h : rowOfLine path n line = .error e) :
    rowsOfLines path n (line :: ls) = .error e := by
  rw [rowsOfLines, h]
  rfl

/-- **The rows of lines are those that are not blank**, one after the other. -/
theorem rowsOfLines_eq_ok : rowsOfLines path n ls = .ok rows ↔
    List.Forall₂ ReadAs (ls.filter fun line => !isBlank line) rows := by
  induction ls generalizing n rows with
  | nil => simp [rowsOfLines, eq_comm]
  | cons line ls ih =>
    have hbad {e : Error} (he : rowOfLine path n line = .error e) (hb : isBlank line = false)
        (hr : ∀ row, ¬ ReadAs line row) : rowsOfLines path n (line :: ls) = .ok rows ↔
          List.Forall₂ ReadAs ((line :: ls).filter fun line => !isBlank line) rows := by
      rw [List.filter_cons_of_pos (by simp [hb]), rowsOfLines_of_error he]
      refine ⟨fun h => absurd h (by simp), fun h => ?_⟩
      cases h with
      | cons h _ => exact absurd h (hr _)
    rcases rowOfLine_cases path n line with
      ⟨hd, e, he⟩ | ⟨hb, he⟩ | ⟨hm, e, he, -⟩ | ⟨hb, row, hr, he⟩
    · refine hbad he (by simp [isBlank, hd]) ?_
      rintro row ⟨text, v, hd', -⟩
      exact absurd (hd.symm.trans hd') (by simp)
    · rw [List.filter_cons_of_neg (by simp [hb]), rowsOfLines_of_ok he, ← ih (n := n + 1), map_eq_ok]
      simp
    · exact hbad he hm.not_blank fun row hr => hr.not_malformed hm
    · rw [List.filter_cons_of_pos (by simp [hb]), rowsOfLines_of_ok he, map_eq_ok]
      constructor
      · rintro ⟨rest, hrest, rfl⟩
        exact .cons hr (ih.mp hrest)
      · intro h
        cases h with
        | cons hr' hrest =>
          obtain rfl := hr.unique hr'
          exact ⟨_, ih.mpr hrest, rfl⟩

/-- **A line that is no row is told by its number**, counted from the first line on. -/
theorem rowsOfLines_malformed {before after : List (List UInt8)} (hline : Malformed line)
    (hbefore : ∀ l ∈ before, (Utf8.decode l).isSome ∧ ¬ Malformed l) :
    ∃ e, rowsOfLines path n (before ++ line :: after) = .error e ∧
      e.line? = some (n + before.length) := by
  induction before generalizing n with
  | nil =>
    rcases rowOfLine_cases path n line with ⟨hd, -⟩ | ⟨hb, -⟩ | ⟨-, e, he, hn⟩ | ⟨-, row, hr, -⟩
    · obtain ⟨text, hd', -⟩ := hline
      exact absurd (hd.symm.trans hd') (by simp)
    · exact absurd (hb.symm.trans hline.not_blank) (by simp)
    · exact ⟨e, rowsOfLines_of_error he, hn⟩
    · exact absurd hline hr.not_malformed
  | cons l before ih =>
    obtain ⟨⟨htext, hwell⟩, hrest⟩ := List.forall_mem_cons.mp hbefore
    obtain ⟨e, he, hn⟩ := ih (n := n + 1) hrest
    have hstep {r : Option Row} (hr : rowOfLine path n l = .ok r) :
        ∃ e, rowsOfLines path n (l :: before ++ line :: after) = .error e ∧
          e.line? = some (n + (l :: before).length) := by
      rw [List.cons_append, rowsOfLines_of_ok hr, he]
      refine ⟨e, rfl, hn.trans (congrArg some ?_)⟩
      rw [List.length_cons]
      omega
    rcases rowOfLine_cases path n l with ⟨hd, -⟩ | ⟨-, hr⟩ | ⟨hm, -⟩ | ⟨-, row, -, hr⟩
    · simp [hd] at htext
    · exact hstep hr
    · exact absurd hm hwell
    · exact hstep hr

/-! ## Rows and bytes -/

/-- The line is the base 64 text of the bytes. -/
def Says (line bytes : List UInt8) : Prop :=
  ∃ text, Utf8.decode line = some text ∧ Base64.decode text = some bytes

theorem encode_singleton {e : Encoder} {bytes : List UInt8} :
    e.encode [row] = .ok [bytes] ↔ e.encodeRow row = .ok bytes := by
  simp only [Encoder.encode, Encoder.encodeFrom]
  cases e.encodeRow row <;> simp [Except.map]

theorem encodeFrom_eq_ok {e : Encoder} {encoded : List (List UInt8)} :
    e.encodeFrom n rows = .ok encoded ↔
      List.Forall₂ (fun row bytes => e.encodeRow row = .ok bytes) rows encoded := by
  induction rows generalizing n encoded with
  | nil => simp [Encoder.encodeFrom, eq_comm]
  | cons row rows ih =>
    rw [Encoder.encodeFrom, List.forall₂_cons_left_iff]
    cases he : e.encodeRow row with
    | error fault => simp
    | ok bytes =>
      simp only [map_eq_ok, ih]
      constructor
      · rintro ⟨rest, hrest, rfl⟩
        exact ⟨bytes, rest, rfl, hrest, rfl⟩
      · rintro ⟨_, rest, heq, hrest, rfl⟩
        obtain rfl := Except.ok.inj heq
        exact ⟨rest, hrest, rfl⟩

theorem outputLine_eq (row : List UInt8) :
    outputLine row = Utf8.encode (Base64.encode row) ++ [10] := by
  rw [outputLine, Utf8.encode, String.toList_append, List.flatMap_append]
  rfl

/-- The lines of the output are the texts of the rows. -/
theorem lines_outputLines (encoded : List (List UInt8)) :
    lines (encoded.flatMap outputLine) = encoded.map fun row => Utf8.encode (Base64.encode row) := by
  have hlines : encoded.flatMap outputLine =
      (encoded.map fun row => Utf8.encode (Base64.encode row)).flatMap fun line => line ++ [10] := by
    rw [List.flatMap_map]
    exact List.flatMap_congr fun row _ => outputLine_eq row
  rw [hlines, lines_flatMap]
  intro line hline b hb
  obtain ⟨row, -, rfl⟩ := List.mem_map.mp hline
  rw [Utf8.encode, Base64.encode, String.toList_ofList] at hb
  obtain ⟨c, hc, hbc⟩ := List.mem_flatMap.mp hb
  obtain ⟨hvisible, hascii⟩ := Base64.encodeChars_range row c hc
  rw [Utf8.utf8EncodeChar_of_ascii hascii, List.mem_singleton] at hbc
  subst hbc
  simp only [ne_eq, ← UInt8.toNat_inj, UInt8.toNat_ofNat', UInt8.reduceToNat]
  omega

theorem says_encode (bytes : List UInt8) : Says (Utf8.encode (Base64.encode bytes)) bytes :=
  ⟨_, Utf8.decode_encode _, Base64.decode_encode bytes⟩

/-! ## A file of rows -/

theorem forall₂_comp {α β γ : Type} {r : α → β → Prop} {s : β → γ → Prop} {xs : List α}
    {zs : List γ} : (∃ ys, List.Forall₂ r xs ys ∧ List.Forall₂ s ys zs) ↔
      List.Forall₂ (fun x z => ∃ y, r x y ∧ s y z) xs zs := by
  constructor
  · rintro ⟨ys, hr, hs⟩
    induction hr generalizing zs with
    | nil => cases hs; exact .nil
    | cons hxy _ ih =>
      cases hs with
      | cons hyz hs => exact .cons ⟨_, hxy, hyz⟩ (ih hs)
  · intro h
    induction h with
    | nil => exact ⟨[], .nil, .nil⟩
    | cons h _ ih =>
      obtain ⟨y, hxy, hyz⟩ := h
      obtain ⟨ys, hr, hs⟩ := ih
      exact ⟨y :: ys, .cons hxy hr, .cons hyz hs⟩

/-- A row of the output for each row of the file: that of the encoder for the line. -/
def Encodes (e : Encoder) (line encoded : List UInt8) : Prop :=
  ∃ row, ReadAs line row ∧ e.encode [row] = .ok [encoded]

theorem encodes_eq (e : Encoder) :
    Encodes e = fun line encoded => ∃ row, ReadAs line row ∧ e.encodeRow row = .ok encoded := by
  funext line encoded
  simp only [Encodes, encode_singleton]

variable {files : Files} {a : EncodeArguments} {encoded : List (List UInt8)}

/-- **When a file is encoded**: the schema can be used, and every line that is not blank is a row that
can be encoded. -/
theorem encodedRows_eq_ok : encodedRows files a = .ok encoded ↔ ∃ schema shape bytes,
    readSchema files a.schema = .ok schema ∧ Shape.ofTable schema "root" .proto2 = .ok shape ∧
      files a.rows = .ok bytes ∧
      List.Forall₂ (Encodes { shape := shape, convertDates := a.convertDates })
        ((lines bytes).filter fun line => !isBlank line) encoded := by
  simp only [encodes_eq, encodedRows, bind_eq_ok, mapError_eq_ok, rowsOfLines_eq_ok, Encoder.encode,
    encodeFrom_eq_ok]
  constructor
  · rintro ⟨schema, hschema, shape, hshape, bytes, hbytes, rows, hrows, hencoded⟩
    exact ⟨schema, shape, bytes, hschema, hshape, hbytes, forall₂_comp.mp ⟨rows, hrows, hencoded⟩⟩
  · rintro ⟨schema, shape, bytes, hschema, hshape, hbytes, hall⟩
    obtain ⟨rows, hrows, hencoded⟩ := forall₂_comp.mpr hall
    exact ⟨schema, hschema, shape, hshape, bytes, hbytes, rows, hrows, hencoded⟩

/-- **All or nothing, line by line.** A command that encodes a file of rows

* fails and puts nothing out, or puts out lines and does not fail;
* in this case puts out one line for each line of the file that is not blank, in their order: the base
  64 text of what the encoder for the schema makes of the row that the line is;
* fails with the number of the first line, all lines counted from one, that is neither blank nor a JSON
  object, if there is one and the file is a text whose schema can be used. -/
theorem encode_all_or_nothing (files : Files) (a : EncodeArguments) (o : Output) :
    let r := (encode files a).onto o
    ((∃ e, r = (.error e, o)) ∨ ∃ added, r = (.ok (), { o with out := o.out ++ added })) ∧
    (∀ added, r = (.ok (), { o with out := o.out ++ added }) → ∃ schema shape bytes,
      readSchema files a.schema = .ok schema ∧ Shape.ofTable schema "root" .proto2 = .ok shape ∧
      files a.rows = .ok bytes ∧
      List.Forall₂ (fun line out => ∃ encoded, Says out encoded ∧
          Encodes { shape := shape, convertDates := a.convertDates } line encoded)
        ((lines bytes).filter fun line => !isBlank line) (lines added)) ∧
    ∀ schema shape bytes before line after, readSchema files a.schema = .ok schema →
      Shape.ofTable schema "root" .proto2 = .ok shape → files a.rows = .ok bytes →
      (Utf8.decode bytes).isSome → lines bytes = before ++ line :: after → Malformed line →
      (∀ l ∈ before, ¬ Malformed l) →
      ∃ e, r = (.error e, o) ∧ e.line? = some (before.length + 1) := by
  intro r
  have hr : r = (encode files a).onto o := rfl
  rw [encode_onto] at hr
  refine ⟨?_, fun added hadded => ?_, ?_⟩
  · cases hrows : encodedRows files a with
    | error e => exact .inl ⟨e, by rw [hr, hrows]⟩
    | ok encoded => exact .inr ⟨encoded.flatMap outputLine, by rw [hr, hrows]⟩
  · cases hrows : encodedRows files a with
    | error e =>
      rw [hrows] at hr
      exact absurd (hr.symm.trans hadded) (by simp)
    | ok encoded =>
      rw [hrows] at hr
      obtain rfl : encoded.flatMap outputLine = added := by
        simpa using hr.symm.trans hadded
      obtain ⟨schema, shape, bytes, hschema, hshape, hbytes, hall⟩ := encodedRows_eq_ok.mp hrows
      refine ⟨schema, shape, bytes, hschema, hshape, hbytes, ?_⟩
      rw [lines_outputLines, List.forall₂_map_right_iff]
      exact hall.imp fun line encoded h => ⟨encoded, says_encode encoded, h⟩
  · intro schema shape bytes before line after hschema hshape hbytes htext hlines hline hbefore
    have htexts : ∀ l ∈ before, (Utf8.decode l).isSome ∧ ¬ Malformed l := fun l hl =>
      ⟨isSome_of_mem_lines htext (by rw [hlines]; exact List.mem_append_left _ hl), hbefore l hl⟩
    obtain ⟨e, he, hnumber⟩ : ∃ e, rowsOfLines a.rows 1 (before ++ line :: after) = .error e ∧
        e.line? = some (1 + before.length) := rowsOfLines_malformed hline htexts
    have hrows : encodedRows files a = .error e := by
      simp only [encodedRows, hschema, hshape, hbytes, hlines, he, Except.mapError, bind, Except.bind]
    rw [hrows] at hr
    exact ⟨e, hr, hnumber.trans (by rw [Nat.add_comm])⟩

/-- A file with one row and a blank line, and one with a list in its third line. -/
theorem encode_two_files :
    let files : Files := fun path =>
      if path = "schema" then .ok (Utf8.encode "[\x7b\"name\": \"a\", \"type\": \"INT64\"\x7d]")
      else if path = "good" then .ok (Utf8.encode "\x7b\"a\":1\x7d\n \n")
      else .ok (Utf8.encode "\x7b\"a\":1\x7d\n \n[2]")
    let good := (encode files { schema := "schema", rows := "good" }).onto {}
    let bad := (encode files { schema := "schema", rows := "bad" }).onto {}
    good = (.ok (), { out := Utf8.encode "CAE=\n" }) ∧
      (∃ shape encoded, Says (Utf8.encode "CAE=") encoded ∧
        Encodes { shape := shape } (Utf8.encode "\x7b\"a\":1\x7d") encoded) ∧
      ∃ e, bad = (.error e, {}) ∧ e.line? = some 3 := by
  intro files good bad
  let schema : Table.Schema := { columns := [{ name := "a", type := 2, mode := 1 }] }
  have hschema : readSchema files "schema" = .ok schema := by
    have hparse : Table.Document.parse "[\x7b\"name\": \"a\", \"type\": \"INT64\"\x7d]" =
        .ok schema := by cbv
    simp [readSchema, readText, files, Utf8.decode_encode, bind, Except.bind, hparse, pure,
      Except.pure]
  have hlines : lines (Utf8.encode "\x7b\"a\":1\x7d\n \n") =
      [Utf8.encode "\x7b\"a\":1\x7d", Utf8.encode " "] := by cbv
  have hbad : lines (Utf8.encode "\x7b\"a\":1\x7d\n \n[2]") =
      [Utf8.encode "\x7b\"a\":1\x7d", Utf8.encode " "] ++ Utf8.encode "[2]" :: [] := by cbv
  have hrow : rowOfLine "good" 1 (Utf8.encode "\x7b\"a\":1\x7d") = .ok (some [("a", .int 1)]) := by
    rw [rowOfLine, Utf8.decode_encode]
    cbv
  have hblank (n : Nat) : rowOfLine "good" n (Utf8.encode " ") = .ok none := by
    rw [rowOfLine, Utf8.decode_encode]
    cbv
  have hrows : rowsOfLines "good" 1 (lines (Utf8.encode "\x7b\"a\":1\x7d\n \n")) =
      .ok [[("a", .int 1)]] := by
    rw [hlines, rowsOfLines_of_ok hrow, rowsOfLines_of_ok (hblank 2)]
    rfl
  have hencoded : encodedRows files { schema := "schema", rows := "good" } = .ok [[8, 1]] := by
    have hall : (do
        let shape ← (Shape.ofTable schema "root" .proto2).mapError Error.shape
        (Encoder.encode { shape := shape, convertDates := false }
          [[("a", .int 1)]]).mapError Error.rows) = .ok [[8, 1]] := by cbv
    simp only [encodedRows, hschema]
    have hfile : files "good" = .ok (Utf8.encode "\x7b\"a\":1\x7d\n \n") := by simp [files]
    simp only [hfile, Except.mapError, bind, Except.bind, hrows] at hall ⊢
    exact hall
  have hgood : good = (.ok (), { out := Utf8.encode "CAE=\n" }) := by
    have hout : ([[8, 1]] : List (List UInt8)).flatMap outputLine = Utf8.encode "CAE=\n" := by cbv
    show (encode files _).onto {} = _
    rw [encode_onto, hencoded]
    simp [hout]
  have hread : ReadAs (Utf8.encode "\x7b\"a\":1\x7d") [("a", .int 1)] :=
    ⟨_, _, Utf8.decode_encode _, by cbv, by cbv⟩
  have hspace : isBlank (Utf8.encode " ") = true := by
    rw [isBlank, Utf8.decode_encode]
    cbv
  have hkept : [Utf8.encode "\x7b\"a\":1\x7d", Utf8.encode " "].filter
      (fun line => !isBlank line) = [Utf8.encode "\x7b\"a\":1\x7d"] := by
    have hfull : isBlank (Utf8.encode "\x7b\"a\":1\x7d") = false := by
      rw [isBlank, Utf8.decode_encode]
      cbv
    simp [hspace, hfull]
  have hlist : Malformed (Utf8.encode "[2]") := by
    have hparse : Json.parse "[2]" = .ok (.array [.number (.int 2)]) := by cbv
    refine ⟨_, Utf8.decode_encode _, ?_, fun members => ?_⟩
    · cbv
    · rw [hparse]
      simp
  have htext : (Utf8.decode (Utf8.encode "\x7b\"a\":1\x7d\n \n[2]")).isSome := by
    rw [Utf8.decode_encode]
    rfl
  obtain ⟨-, hok, -⟩ := encode_all_or_nothing files { schema := "schema", rows := "good" } {}
  obtain ⟨-, -, hfail⟩ := encode_all_or_nothing files { schema := "schema", rows := "bad" } {}
  obtain ⟨schema', shape, bytes, hschema', hshape, hbytes, hall⟩ := hok (Utf8.encode "CAE=\n") hgood
  obtain rfl : schema = schema' := Except.ok.inj (hschema.symm.trans hschema')
  obtain rfl : Utf8.encode "\x7b\"a\":1\x7d\n \n" = bytes := by simpa [files] using hbytes
  have hout : lines (Utf8.encode "CAE=\n") = [Utf8.encode "CAE="] := by cbv
  rw [hlines, hkept, hout] at hall
  refine ⟨hgood, ?_, ?_⟩
  · cases hall with
    | cons h _ =>
      obtain ⟨encoded, hsays, hencodes⟩ := h
      exact ⟨shape, encoded, hsays, hencodes⟩
  · refine hfail schema shape _ _ _ [] hschema hshape rfl htext hbad hlist fun l hl => ?_
    rcases List.mem_cons.mp hl with rfl | hl
    · exact hread.not_malformed
    · rw [List.mem_singleton.mp hl]
      exact fun h => absurd (hspace.symm.trans h.not_blank) (by simp)

end RowStream.Command
