import RowStream.Proofs.Fallible
import RowStream.Proofs.Json.Whole
import RowStream.Table.Document

/-!
# Documents that say one schema

A schema can be written in many ways (`Alike`, `SameDocument`): a bare array of columns or an object of
it, the members of a column in any order and among others, whole numbers as such or as text, letters of
the names of types and modes in either case. All of them are read as one schema, or refused for one
reason (`SameDocument.ofJson`).

What carries the argument is `reading`, what a column takes from one of its members. A rewriting leaves
the readings of all members as they are, and a column is put together from its readings alone.
-/

namespace RowStream.Text

theorem upperChar_upperChar (c : Char) : upperChar (upperChar c) = upperChar c := by
  have hletter : ∀ n < 26, upperChar (Char.ofNat (n + 65)) = Char.ofNat (n + 65) := by decide
  by_cases h : 'a' ≤ c ∧ c ≤ 'z'
  · have hle : 97 ≤ c.toNat := h.1
    have hge : c.toNat ≤ 122 := h.2
    have hupper : upperChar c = Char.ofNat (c.toNat - 97 + 65) := by
      rw [upperChar, if_pos h, show c.toNat - 32 = c.toNat - 97 + 65 by omega]
    rw [hupper, hletter _ (by omega)]
  · have hupper : upperChar c = c := if_neg h
    rw [hupper, hupper]

/-- Upper case is final. -/
theorem upper_upper (s : String) : upper (upper s) = upper s := by
  rw [upper, upper, String.toList_ofList, List.map_map]
  exact congrArg String.ofList (List.map_congr_left fun c _ => upperChar_upperChar c)

end RowStream.Text

namespace RowStream.Table

/-- The fault with the name that it quotes in upper case. -/
def Unsupported.folded : Unsupported → Unsupported
  | .type column given => .type column (Text.upper given)
  | .mode column given => .mode column (Text.upper given)

namespace Document

/-! ## Rewritings -/

/-- The members that are whole numbers. -/
def wholeNames : List String := ["maxLength", "precision", "scale", "timestampPrecision"]

/-- **Columns written in two ways.** They differ in the order of members, in members that are unknown, in
whole numbers that are null or left out, or are written as such or as text, in the case of the letters of
type and mode, and in the same for their sub-columns. The array form of a column is the object of the
members at its places. -/
inductive Alike : Json → Json → Prop
  | refl (v : Json) : Alike v v
  | symm {v w : Json} (h : Alike v w) : Alike w v
  | trans {u v w : Json} (h : Alike u v) (h' : Alike v w) : Alike u w
  | reorder {ms ms' : List (String × Json)} (h : ms.Perm ms') : Alike (.object ms) (.object ms')
  | unknown {ms : List (String × Json)} {key : String} (hkey : key ∉ memberNames) (v : Json) :
      Alike (.object ms) (.object ((key, v) :: ms))
  | absent {ms : List (String × Json)} {key : String} (hkey : key ∈ wholeNames)
      (h : key ∉ ms.map Prod.fst) : Alike (.object ms) (.object ((key, .null) :: ms))
  | whole {ms : List (String × Json)} {key : String} (hkey : key ∈ wholeNames) {n : Int} {v : Json}
      (h : Json.parse (Integer.text n) = .ok v) :
      Alike (.object ((key, v) :: ms)) (.object ((key, .string (Integer.text n)) :: ms))
  | letters {ms : List (String × Json)} {key : String} (hkey : key = "type" ∨ key = "mode")
      {s s' : String} (h : Text.upper s = Text.upper s') :
      Alike (.object ((key, .string s) :: ms)) (.object ((key, .string s') :: ms))
  | nested {ms : List (String × Json)} {before after : List Json} {v w : Json} (h : Alike v w) :
      Alike (.object (("fields", .array (before ++ v :: after)) :: ms))
        (.object (("fields", .array (before ++ w :: after)) :: ms))
  | positional {items : List Json} (h : items.length ≤ memberNames.length) :
      Alike (.array items) (.object (memberNames.zip items))

/-- **Documents written in two ways**: a bare array of columns or an object of it, and each column. -/
inductive SameDocument : Json → Json → Prop
  | refl (v : Json) : SameDocument v v
  | symm {v w : Json} (h : SameDocument v w) : SameDocument w v
  | trans {u v w : Json} (h : SameDocument u v) (h' : SameDocument v w) : SameDocument u w
  | bare (items : List Json) : SameDocument (.array items) (.object [("fields", .array items)])
  | column {before after : List Json} {v w : Json} (h : Alike v w) :
      SameDocument (.array (before ++ v :: after)) (.array (before ++ w :: after))
  | nested {ms ms' : List (String × Json)} {before after : List Json} {v w : Json} (h : Alike v w) :
      SameDocument (.object (ms ++ ("fields", .array (before ++ v :: after)) :: ms'))
        (.object (ms ++ ("fields", .array (before ++ w :: after)) :: ms'))

/-! ## Letter case -/

mutual

/-- The entry with the names of its types and modes in upper case. -/
def Entry.folded : Entry → Entry
  | ⟨name, type, mode, entries, description, maxLength, precision, scale, expression, digits⟩ =>
    ⟨name, Text.upper type, mode.map Text.upper, foldedAll entries, description, maxLength, precision,
      scale, expression, digits⟩

/-- The entries of a list with these names in upper case. -/
def foldedAll : List Entry → List Entry
  | [] => []
  | e :: es => e.folded :: foldedAll es

end

/-- The fault with the text that it quotes in upper case. -/
def Error.folded : Error → Error
  | .unsupported u => .unsupported u.folded
  | e => e

theorem typeOfName?_upper (s : String) : typeOfName? (Text.upper s) = typeOfName? s := by
  rw [typeOfName?, Text.upper_upper, typeOfName?]

theorem modeOfName?_upper (s : String) : modeOfName? (Text.upper s) = modeOfName? s := by
  rw [modeOfName?, Text.upper_upper, modeOfName?]

theorem typeOf_folded (e : Entry) : typeOf e.folded = (typeOf e).mapError Unsupported.folded := by
  obtain ⟨name, type, mode, entries, description, maxLength, precision, scale, expression, digits⟩ := e
  simp only [typeOf, Entry.folded, typeOfName?_upper]
  cases typeOfName? type <;> rfl

theorem modeOf_folded (e : Entry) : modeOf e.folded = (modeOf e).mapError Unsupported.folded := by
  obtain ⟨name, type, mode, entries, description, maxLength, precision, scale, expression, digits⟩ := e
  cases mode with
  | none => rfl
  | some s =>
    simp only [modeOf, Entry.folded, Option.map_some, modeOfName?_upper]
    cases modeOfName? s <;> rfl

mutual

/-- Letter case is only seen in what a fault quotes. -/
theorem column_folded : ∀ e : Entry, column e.folded = (column e).mapError Unsupported.folded
  | ⟨name, type, mode, entries, description, maxLength, precision, scale, expression, digits⟩ => by
    have htype := typeOf_folded
      ⟨name, type, mode, entries, description, maxLength, precision, scale, expression, digits⟩
    have hmode := modeOf_folded
      ⟨name, type, mode, entries, description, maxLength, precision, scale, expression, digits⟩
    rw [Entry.folded] at htype hmode
    rw [Entry.folded, column, column, htype, hmode, columns_folded entries]
    cases typeOf _ <;> [rfl; (cases modeOf _ <;> [rfl; (cases columns entries <;> rfl)])]

theorem columns_folded :
    ∀ es : List Entry, columns (foldedAll es) = (columns es).mapError Unsupported.folded
  | [] => rfl
  | e :: es => by
    rw [foldedAll, columns, columns, column_folded e, columns_folded es]
    cases column e <;> [rfl; (cases columns es <;> rfl)]

end

/-! ## Members -/

theorem members_eq (ms : List (String × Json)) :
    members ms = ms.map fun m => ⟨m.1, m.2, list? m.2⟩ := by
  induction ms with
  | nil => rw [members, List.map_nil]
  | cons m ms ih => rw [members, ih, List.map_cons]

/-- The array form has the members at its places. -/
theorem items?_eq (keys : List String) (vs : List Json) :
    items? keys vs = members (keys.zip vs) := by
  induction keys generalizing vs with
  | nil => rw [items?, List.zip_nil_left, members]; simp
  | cons key keys ih =>
    cases vs with
    | nil => rw [items?, List.zip_nil_right, members]; simp
    | cons v vs => rw [items?, ih, List.zip_cons_cons, members]

variable {key : String} {ms ms' : List Member}

theorem only?_perm (h : ms.Perm ms') : only? key ms = only? key ms' := by
  have hf : (ms.filter fun m => m.key == key).Perm (ms'.filter fun m => m.key == key) :=
    h.filter _
  unfold only?
  generalize ms.filter (fun m => m.key == key) = l at hf ⊢
  generalize ms'.filter (fun m => m.key == key) = l' at hf ⊢
  have hlength := hf.length_eq
  match l, l' with
  | [], [] => rfl
  | [m], [m'] => rw [List.singleton_perm_singleton.mp hf]
  | _ :: _ :: _, _ :: _ :: _ => rfl

theorem only?_cons_of_ne {m : Member} (h : m.key ≠ key) : only? key (m :: ms) = only? key ms := by
  unfold only?
  rw [List.filter_cons_of_neg (by simp [h])]

theorem only?_cons_self {m : Member} (h : m.key = key) : only? key (m :: ms) =
    match only? key ms with
    | some none => some (some m)
    | _ => none := by
  unfold only?
  rw [List.filter_cons_of_pos (by simp [h])]
  generalize ms.filter (fun m => m.key == key) = l
  match l with
  | [] => rfl
  | [_] => rfl
  | _ :: _ :: _ => rfl

theorem only?_of_not_mem (h : ∀ m ∈ ms, m.key ≠ key) : only? key ms = some none := by
  unfold only?
  rw [List.filter_eq_nil_iff.mpr (by simpa using h)]

/-! ## What a column takes from a member -/

/-- A text, a whole number, or the sub-columns. -/
inductive Reading where
  | text (s : Option String)
  | whole (n : Option Int64)
  | entries (es : List Entry)

/-- The text of a member, in upper case where letters of either case may stand. -/
def cased (key s : String) : String :=
  if key = "type" ∨ key = "mode" then Text.upper s else s

theorem cased_of_name (key : String) (h : key = "type" ∨ key = "mode") :
    cased key = Text.upper := by
  funext s
  rw [cased, if_pos h]

theorem cased_of_text (key : String) (h : ¬ (key = "type" ∨ key = "mode")) : cased key = id := by
  funext s
  rw [cased, if_neg h, id_eq]

/-- What a column takes from the member with a key, or from there being none. -/
def reading (key : String) (m : Option Member) : Option Reading :=
  if key ∈ wholeNames then (m.elim (some none) fun m => wholeOrNull? m.value).map .whole
  else if key = "fields" then (m.elim (some []) Member.entries).map fun es => .entries (foldedAll es)
  else if key = "name" ∨ key = "type" then
    (m.bind fun m => Json.text? m.value).map fun s => .text (some (cased key s))
  else (m.elim (some none) fun m => textOrNull? m.value).map fun s => .text (s.map (cased key))

/-- Each member that is known is read alike. -/
def SameReadings (ms ms' : List Member) : Prop :=
  ∀ key ∈ memberNames, (only? key ms).bind (reading key) = (only? key ms').bind (reading key)

theorem required?_map {α : Type} (read : Json → Option α) (f : α → Reading) :
    (required? key read ms).map f =
      (only? key ms).bind fun m => (m.bind fun m => read m.value).map f := by
  unfold required?
  rcases only? key ms with _ | _ | m <;> rfl

theorem optional?_map {α : Type} (read : Json → Option (Option α)) (f : Option α → Reading) :
    (optional? key read ms).map f =
      (only? key ms).bind fun m => (m.elim (some none) fun m => read m.value).map f := by
  unfold optional?
  rcases only? key ms with _ | _ | m <;> rfl

theorem entries?_map (f : List Entry → Reading) : (entries? ms).map f =
    (only? "fields" ms).bind fun m => (m.elim (some []) Member.entries).map f := by
  unfold entries?
  rcases only? "fields" ms with _ | _ | m <;> rfl

/-- Two searches whose finds are alike go on alike. -/
theorem bind_of_map_eq {α β γ : Type} {x y : Option α} {f : α → β} {g g' : α → Option γ}
    (h : x.map f = y.map f) (hg : ∀ a b, f a = f b → g a = g' b) : x.bind g = y.bind g' := by
  cases x with
  | none =>
    obtain rfl : y = none := Option.map_eq_none_iff.mp h.symm
    rfl
  | some a =>
    obtain ⟨b, rfl, hab⟩ := Option.map_eq_some_iff.mp h.symm
    exact hg a b hab.symm

namespace SameReadings

variable (h : SameReadings ms ms')
include h

theorem required (hkey : key = "name" ∨ key = "type") :
    (required? key Json.text? ms).map (fun s => Reading.text (some (cased key s))) =
      (required? key Json.text? ms').map fun s => .text (some (cased key s)) := by
  have hread := h key (by rcases hkey with rfl | rfl <;> simp [memberNames])
  have hkind : reading key = fun m =>
      (m.bind fun m => Json.text? m.value).map fun s => .text (some (cased key s)) := by
    rcases hkey with rfl | rfl <;> (funext m; simp [reading, wholeNames])
  rwa [required?_map, required?_map, ← hkind]

theorem optional (hkey : key ∈ ["mode", "description", "defaultValueExpression"]) :
    (optional? key textOrNull? ms).map (fun s => Reading.text (s.map (cased key))) =
      (optional? key textOrNull? ms').map fun s => .text (s.map (cased key)) := by
  simp only [List.mem_cons, List.not_mem_nil, or_false] at hkey
  have hread := h key (by rcases hkey with rfl | rfl | rfl <;> simp [memberNames])
  have hkind : reading key = fun m =>
      (m.elim (some none) fun m => textOrNull? m.value).map fun s => .text (s.map (cased key)) := by
    rcases hkey with rfl | rfl | rfl <;> (funext m; simp [reading, wholeNames])
  rwa [optional?_map, optional?_map, ← hkind]

theorem whole (hkey : key ∈ wholeNames) :
    (optional? key wholeOrNull? ms).map Reading.whole =
      (optional? key wholeOrNull? ms').map .whole := by
  have hread := h key (by
    simp only [wholeNames, List.mem_cons, List.not_mem_nil, or_false] at hkey
    rcases hkey with rfl | rfl | rfl | rfl <;> simp [memberNames])
  have hkind : reading key = fun m =>
      (m.elim (some none) fun m => wholeOrNull? m.value).map .whole := by
    funext m
    rw [reading, if_pos hkey]
  rwa [optional?_map, optional?_map, ← hkind]

theorem entries : (entries? ms).map (fun es => Reading.entries (foldedAll es)) =
    (entries? ms').map fun es => .entries (foldedAll es) := by
  have hread := h "fields" (by simp [memberNames])
  have hkind : reading "fields" = fun m =>
      (m.elim (some []) Member.entries).map fun es => .entries (foldedAll es) := by
    funext m
    simp [reading, wholeNames]
  rwa [entries?_map, entries?_map, ← hkind]

end SameReadings

/-- **A column is put together from the readings of its members.** -/
theorem entryOf?_folded (h : SameReadings ms ms') :
    (entryOf? ms).map Entry.folded = (entryOf? ms').map Entry.folded := by
  simp only [entryOf?, Option.pure_def, Option.bind_eq_bind, Option.map_bind, Function.comp_def]
  -- one step for each member, in the order in which a column reads them
  refine bind_of_map_eq (h.required (.inl rfl)) fun name name' hname => ?_
  refine bind_of_map_eq (h.required (.inr rfl)) fun type type' htype => ?_
  refine bind_of_map_eq (h.optional (by simp)) fun mode mode' hmode => ?_
  refine bind_of_map_eq h.entries fun entries entries' hentries => ?_
  refine bind_of_map_eq (h.optional (by simp)) fun description description' hdescription => ?_
  refine bind_of_map_eq (h.whole (by simp [wholeNames])) fun maxLength maxLength' hmaxLength => ?_
  refine bind_of_map_eq (h.whole (by simp [wholeNames])) fun precision precision' hprecision => ?_
  refine bind_of_map_eq (h.whole (by simp [wholeNames])) fun scale scale' hscale => ?_
  refine bind_of_map_eq (h.optional (by simp)) fun expression expression' hexpression => ?_
  refine bind_of_map_eq (h.whole (by simp [wholeNames])) fun digits digits' hdigits => ?_
  rw [cased_of_name "mode" (.inr rfl)] at hmode
  rw [cased_of_text "description" (by decide), Option.map_id_fun, id_eq, id_eq] at hdescription
  rw [cased_of_text "defaultValueExpression" (by decide), Option.map_id_fun, id_eq,
    id_eq] at hexpression
  simp_all [Entry.folded, cased]

/-! ## Columns -/

theorem SameReadings.of_only (h : ∀ key ∈ memberNames, only? key ms = only? key ms') :
    SameReadings ms ms' := fun key hkey => by rw [h key hkey]

/-- A member in the place of another one that is read alike. -/
theorem SameReadings.head {m m' : Member} (hkey : m.key = m'.key)
    (hread : reading m.key (some m) = reading m.key (some m')) :
    SameReadings (m :: ms) (m' :: ms) := by
  intro key hmem
  by_cases heq : m.key = key
  · rw [only?_cons_self heq, only?_cons_self (hkey ▸ heq)]
    subst heq
    rcases only? m.key ms with _ | _ | _ <;> [rfl; exact hread; rfl]
  · rw [only?_cons_of_ne heq, only?_cons_of_ne (hkey ▸ heq)]

/-- The column that a value is read as, but for letter case. -/
def foldedColumn? (v : Json) : Option Entry := Option.map Entry.folded <| entry? v

theorem foldedColumn?_object (ms : List (String × Json)) :
    foldedColumn? (.object ms) = (entryOf? (members ms)).map Entry.folded := by
  rw [foldedColumn?]
  unfold entry?
  rfl

theorem foldedColumn?_array {items : List Json} (h : items.length ≤ memberNames.length) :
    foldedColumn? (.array items) = foldedColumn? (.object (memberNames.zip items)) := by
  rw [foldedColumn?_object, ← items?_eq, foldedColumn?]
  unfold entry?
  rw [if_pos h]

/-- A list with another item that is read alike. -/
theorem list?_folded {v w : Json} (h : foldedColumn? v = foldedColumn? w)
    (before after : List Json) : (list? (.array (before ++ v :: after))).map foldedAll =
      (list? (.array (before ++ w :: after))).map foldedAll := by
  rw [list?, list?]
  induction before with
  | nil =>
    rw [List.nil_append, List.nil_append, entryList?, entryList?]
    simp only [Option.pure_def, Option.bind_eq_bind, Option.map_bind, Function.comp_def]
    refine bind_of_map_eq h fun e e' he => ?_
    cases entryList? after <;> simp [foldedAll, he]
  | cons u before ih =>
    rw [List.cons_append, List.cons_append, entryList?, entryList?]
    simp only [Option.pure_def, Option.bind_eq_bind, Option.map_bind, Function.comp_def]
    refine congrArg (Option.bind <| entry? u) (funext fun e => ?_)
    refine bind_of_map_eq ih fun es es' hes => ?_
    simp [foldedAll, hes]

/-- A whole number is the same as such and as text. -/
theorem wholeOrNull?_text {n : Int} {v : Json} (h : Json.parse (Integer.text n) = .ok v) :
    wholeOrNull? v = wholeOrNull? (.string (Integer.text n)) := by
  rw [wholeOrNull?]
  cases hn : Integer.Range.int64.has n with
  | true =>
    obtain rfl := Except.ok.inj (h.symm.trans (Json.parse_text hn))
    have hread : Integer.readInt64 (Integer.text n) = some (Int64.ofInt n) :=
      Integer.readInt64_eq_some.mpr ((Integer.toInt_ofInt64 hn).symm ▸ Integer.denotes_text n)
    rw [hread, wholeOrNull?, if_pos hn, Option.map_some]
  | false =>
    obtain ⟨x, rfl, hx⟩ := Json.of_parse_text hn h
    rw [Integer.readInt64_of_wide (Integer.denotes_text n) hn, Option.map_none]
    cases x with
    | int m => simp [wholeOrNull?, hx m rfl]
    | real y => rfl

/-- **A rewriting of a column changes nothing** but the letters that a fault quotes. -/
theorem Alike.folded {v w : Json} (h : Alike v w) : foldedColumn? v = foldedColumn? w := by
  induction h with
  | refl => rfl
  | symm _ ih => exact ih.symm
  | trans _ _ ih ih' => exact ih.trans ih'
  | reorder h =>
    rw [foldedColumn?_object, foldedColumn?_object]
    refine entryOf?_folded (.of_only fun key _ => ?_)
    rw [members_eq, members_eq]
    exact only?_perm (h.map _)
  | unknown hkey v =>
    rw [foldedColumn?_object, foldedColumn?_object, members]
    refine entryOf?_folded (.of_only fun key hmem => ?_)
    exact (only?_cons_of_ne (by rintro rfl; exact hkey hmem)).symm
  | @absent ms key hkey h =>
    have hnone : only? key (members ms) = some none := by
      refine only?_of_not_mem fun m hm => ?_
      rw [members_eq] at hm
      obtain ⟨p, hp, rfl⟩ := List.mem_map.mp hm
      exact fun hkey => h (List.mem_map.mpr ⟨p, hp, hkey⟩)
    rw [foldedColumn?_object, foldedColumn?_object, members]
    refine entryOf?_folded fun other _ => ?_
    by_cases heq : key = other
    · subst heq
      rw [only?_cons_self (m := ⟨key, .null, list? .null⟩) rfl, hnone]
      simp [reading, hkey, wholeOrNull?]
    · rw [only?_cons_of_ne heq]
  | whole hkey h =>
    rw [foldedColumn?_object, foldedColumn?_object, members, members]
    refine entryOf?_folded (.head rfl ?_)
    simp [reading, hkey, wholeOrNull?_text h]
  | letters hkey h =>
    rw [foldedColumn?_object, foldedColumn?_object, members, members]
    refine entryOf?_folded (.head rfl ?_)
    rcases hkey with rfl | rfl
    · simp [reading, wholeNames, Json.text?, cased, h]
    · simp [reading, wholeNames, textOrNull?, cased, h]
  | @nested ms before after v w _ ih =>
    rw [foldedColumn?_object, foldedColumn?_object, members, members]
    refine entryOf?_folded (.head rfl ?_)
    have hentries := congrArg (Option.map Reading.entries) (list?_folded ih before after)
    rw [Option.map_map, Option.map_map] at hentries
    simpa [reading, wholeNames, Function.comp_def] using hentries
  | positional h => exact foldedColumn?_array h

/-! ## Documents -/

/-- A rewriting of a document changes nothing but letters, either. -/
theorem SameDocument.document? {v w : Json} (h : SameDocument v w) :
    (document? v).map foldedAll = (document? w).map foldedAll := by
  induction h with
  | refl => rfl
  | symm _ ih => exact ih.symm
  | trans _ _ ih ih' => exact ih.trans ih'
  | bare items => simp [Document.document?, members, only?]
  | @column before after v w h => exact list?_folded h.folded before after
  | @nested ms ms' before after v w h =>
    have hfirst (list : Json) : only? "fields" (members (ms ++ ("fields", list) :: ms')) =
        match only? "fields" (members (ms ++ ms')) with
        | some none => some (some ⟨"fields", list, list? list⟩)
        | _ => none := by
      rw [← only?_cons_self (m := ⟨"fields", list, list? list⟩) rfl, members_eq, members_eq]
      exact only?_perm (List.perm_middle.map _)
    simp only [Document.document?, hfirst]
    rcases only? "fields" (members (ms ++ ms')) with _ | _ | _ <;>
      [rfl; exact list?_folded h.folded before after; rfl]

theorem ofJson_folded (v : Json) : (ofJson v).mapError Error.folded =
    match (document? v).map foldedAll with
    | none => .error .wrongShape
    | some es => schema es := by
  rw [ofJson]
  cases document? v with
  | none => rfl
  | some es =>
    simp only [Option.map_some, schema, columns_folded]
    cases columns es <;> rfl

/-- **Documents that say one schema are read as one**, or refused for one reason. -/
theorem SameDocument.ofJson {v w : Json} (h : SameDocument v w) :
    (ofJson v).mapError Error.folded = (ofJson w).mapError Error.folded := by
  rw [ofJson_folded, ofJson_folded, h.document?]

theorem parse_eq_ofJson {s : String} {v : Json} (h : Json.parse s = .ok v) : parse s = ofJson v := by
  obtain ⟨rest, hstart, hend⟩ := Json.parse_eq_ok.mp h
  rw [parse, hstart]
  simp only [hend, Document.ofJson]

end Document

end RowStream.Table
