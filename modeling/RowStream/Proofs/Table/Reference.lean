import RowStream.Proofs.Table.Compiled
import RowStream.Proofs.Text.Search

/-!
# Where fields refer to

A path of STRUCT columns leads through the messages of a schema: from the message of the table to
the one that the field of the first column refers to, and so on (`reference?`).

The places that have messages of their own are those whose columns are compiled (`opens_iff`), by an
induction on the length of a scope's name: a scope that takes the name of another lies in one with a
shorter name. At such a place the path leads to the message that describes the columns there. A STRUCT
column that is passed over refers to the message of the earlier one that has its name.

* `reference_concat`: one step of a path.
* `Registered.opens_iff`: the places that have messages.
* `faithful_of_opens`: the messages that the fields of a schema refer to.
* `first_of_two_names`: a column that refers to the message of another.
-/

namespace RowStream.Table

open Descriptor (Dialect)

/-! ## Following references -/

/-- The message with a name in a set of files. -/
def message? (fs : List Descriptor.File) (name : String) : Option Descriptor.Message :=
  (fs.flatMap (·.messages)).find? fun m => m.name == some name

/-- The message that the field of a message at a position refers to. -/
def referred? (fs : List Descriptor.File) (m : Descriptor.Message) (i : Nat) :
    Option Descriptor.Message :=
  (m.fields[i]?).bind fun f => f.typeName.bind fun n => message? fs (Text.dropDot n)

/-- The message at the end of a path of fields that starts at the message with a name. -/
def reference? (fs : List Descriptor.File) (name : String) (p : List Nat) :
    Option Descriptor.Message :=
  p.foldl (fun m i => m.bind fun m => referred? fs m i) (message? fs name)

/-- What is below a place of a path depends on the message there only. -/
theorem reference?_append (fs : List Descriptor.File) (name : String) (p r : List Nat) :
    reference? fs name (p ++ r) =
      r.foldl (fun m i => m.bind fun m => referred? fs m i) (reference? fs name p) :=
  List.foldl_append

theorem reference?_concat (fs : List Descriptor.File) (name : String) (p : List Nat) (i : Nat) :
    reference? fs name (p ++ [i]) = (reference? fs name p).bind fun m => referred? fs m i :=
  reference?_append fs name p [i]

/-! ## References of registered scopes -/

namespace Compile

variable {dialect : Dialect} {root : Scope} {es : List Entry} {e : Entry}

/-- A registered scope has the message of its name. -/
theorem Registered.message? (h : Registered dialect root es) (he : e ∈ es) :
    message? (es.map (Entry.file dialect)) e.scope.name = some e.message := by
  have hmessages : (es.map (Entry.file dialect)).flatMap (·.messages) = es.map Entry.message := by
    rw [List.flatMap_map, List.map_eq_flatMap]
    rfl
  have hfound : (es.find? fun o => o.message.name == some e.scope.name) = some e := by
    have hsome : (es.find? fun o => o.message.name == some e.scope.name).isSome := by
      rw [List.find?_isSome]
      exact ⟨e, he, beq_self_eq_true _⟩
    obtain ⟨o, ho⟩ := Option.isSome_iff_exists.mp hsome
    have hname : o.scope.name = e.scope.name := by
      simpa [Entry.message, Draft.message] using List.find?_some ho
    rw [ho, h.eq_of_name (List.mem_of_find?_eq_some ho) he hname]
  rw [Table.message?, hmessages, List.find?_map]
  exact congrArg (Option.map Entry.message) hfound

/-- The field of a STRUCT column refers to the message of its name. -/
theorem Registered.referred? (h : Registered dialect root es) (he : e ∈ es) {i : Nat} {t : Scope}
    (ht : e.scope.sub? i = some t) (fs : List Descriptor.File) :
    referred? fs e.message i = Table.message? fs t.name := by
  obtain ⟨c, hc, hstruct, rfl⟩ := Scope.sub?_eq_some.mp ht
  have hdesc := h.describes he
  have hlt : i < e.message.fields.length := by
    rw [hdesc.length]
    exact (List.getElem?_eq_some_iff.mp hc).1
  have hf : e.message.fields[i]? = some e.message.fields[i] := List.getElem?_eq_getElem hlt
  rw [Table.referred?, hf, Option.bind_some, (hdesc.column i c _ hc hf).reference hstruct,
    Option.bind_some, Text.dropDot_dot]

/-- **One step of a path.** From the message of a registered scope, the field of a STRUCT column
leads to that of a scope with the name of the column, at its place or before it. -/
theorem Registered.reference_concat (h : Registered dialect root es) {name : String} {p : List Nat}
    (he : e ∈ es) (hpath : e.path = p)
    (href : reference? (es.map (Entry.file dialect)) name p = some e.message) {i : Nat} {t : Scope}
    (ht : root.at? (p ++ [i]) = some t) : ∃ o ∈ es, o.scope.name = t.name ∧ o.path ≤ p ++ [i] ∧
      reference? (es.map (Entry.file dialect)) name (p ++ [i]) = some o.message := by
  have hsub : e.scope.sub? i = some t := by
    rwa [Scope.at?_concat, ← hpath, h.located_of_mem he, Option.bind_some] at ht
  obtain ⟨o, ho, hname, hle⟩ := h.refers_of_mem he hsub
  rw [hpath] at hle
  refine ⟨o, ho, hname, hle, ?_⟩
  rw [reference?_concat, href, Option.bind_some, h.referred? he hsub, ← hname, h.message? ho]

/-! ## The places that have messages -/

section

variable {p q : List Nat} {i : Nat} {t : Scope}

/-- The scope around a registered one is registered. -/
theorem around_mem (hroot : ∃ e ∈ es, e.path = []) (haround : Around es []) (he : e ∈ es)
    (hpath : e.path = q ++ [i]) : ∃ o ∈ es, o.path = q := by
  rcases haround e he q i hpath with hq | ho
  · exact List.prefix_nil.mp hq ▸ hroot
  · exact ho

/-- A registered scope is the one at its place. -/
theorem Registered.scope_eq (h : Registered dialect root es) (he : e ∈ es) (hpath : e.path = p)
    (ht : root.at? p = some t) : e.scope = t :=
  Option.some.inj ((h.located_of_mem he).symm.trans (hpath ▸ ht))

/-- **The places that have messages of their own are those whose columns are compiled.** -/
theorem Registered.opens_iff (h : Registered dialect root es) (hroot : ∃ e ∈ es, e.path = [])
    (haround : Around es []) (ht : root.at? p = some t) :
    root.Opens p ↔ ∃ e ∈ es, e.path = p := by
  induction hn : t.name.length using Nat.strong_induction_on generalizing p t with
  | _ n ih =>
  subst hn
  rcases List.eq_nil_or_concat p with rfl | ⟨p, i, rfl⟩
  · exact ⟨fun _ => hroot, fun _ => Scope.opens_nil root⟩
  rw [List.concat_eq_append] at ht ⊢
  obtain ⟨s, hs, hsub⟩ := Option.bind_eq_some_iff.mp (Scope.at?_concat root p i ▸ ht)
  have haroundp := ih _ (Scope.length_lt_of_sub? hsub) hs rfl
  -- also the scope around another place with the name has a shorter one
  have hother {q : List Nat} {j : Nat} {u : Scope} (hu : root.at? (q ++ [j]) = some u)
      (hname : u.name = t.name) : root.Opens q ↔ ∃ e ∈ es, e.path = q := by
    obtain ⟨w, hw, hwsub⟩ := Option.bind_eq_some_iff.mp (Scope.at?_concat root q j ▸ hu)
    exact ih _ (hname ▸ Scope.length_lt_of_sub? hwsub) hw rfl
  rw [Scope.opens_concat_iff ht]
  constructor
  · rintro ⟨hp, hfirst⟩
    obtain ⟨e, he, hpath⟩ := haroundp.mp hp
    obtain ⟨o, ho, hname, hle⟩ := h.refers_of_mem he (h.scope_eq he hpath hs ▸ hsub)
    rw [hpath] at hle
    refine ⟨o, ho, eq_of_le_of_not_lt hle fun hlt => ?_⟩
    have hat := h.located_of_mem ho
    rcases List.eq_nil_or_concat o.path with hnil | ⟨q, j, hq⟩
    · rw [hnil] at hat
      have hshort := Nat.lt_of_le_of_lt (Scope.length_le_of_at? hs) (Scope.length_lt_of_sub? hsub)
      rw [Option.some.inj hat, hname] at hshort
      exact Nat.lt_irrefl _ hshort
    · rw [List.concat_eq_append] at hq
      rw [hq] at hat hlt
      exact hfirst q j _ hlt ((hother hat hname).mpr (around_mem hroot haround ho hq)) hat hname
  · rintro ⟨e, he, hpath⟩
    have hscope := h.scope_eq he hpath ht
    refine ⟨haroundp.mpr (around_mem hroot haround he hpath), fun q j u hlt hq hu hname => ?_⟩
    obtain ⟨o, ho, hopath⟩ := (hother hu hname).mp hq
    obtain ⟨w, hw, hwsub⟩ := Option.bind_eq_some_iff.mp (Scope.at?_concat root q j ▸ hu)
    obtain ⟨x, hx, hxname, hxle⟩ := h.refers_of_mem ho (h.scope_eq ho hopath hw ▸ hwsub)
    obtain rfl : x = e := h.eq_of_name hx he (by rw [hxname, hname, hscope])
    rw [hopath, hpath] at hxle
    exact absurd hlt (not_lt_of_ge hxle)

/-- The path to a registered scope leads to its message. -/
theorem Registered.reference_of_mem (h : Registered dialect root es) (hroot : ∃ e ∈ es, e.path = [])
    (haround : Around es []) (he : e ∈ es) :
    reference? (es.map (Entry.file dialect)) root.name e.path = some e.message := by
  induction hpath : e.path using List.reverseRecOn generalizing e with
  | nil =>
    have hscope : e.scope = root := h.scope_eq he hpath rfl
    exact hscope ▸ h.message? he
  | append_singleton q i ih =>
    obtain ⟨o, ho, hopath⟩ := around_mem hroot haround he hpath
    have hat := hpath ▸ h.located_of_mem he
    obtain ⟨x, hx, hname, -, href⟩ := h.reference_concat ho hopath (ih ho hopath) hat
    rw [href, h.eq_of_name hx he hname]

end

end Compile

/-! ## References of a schema -/

/-- **A schema is compiled faithfully, up to names that are taken.** In the files of a schema

* a path of STRUCT columns to a place whose columns are compiled leads to a message that describes
  exactly the columns there;
* two such paths lead to different messages;
* a STRUCT column that is passed over has the name of an earlier one that is compiled, and the paths
  through it lead where those through the earlier one do. -/
theorem faithful_of_opens {s : Schema} {name : String} {dialect : Dialect}
    {fs : List Descriptor.File} (h : Compile.files s name dialect = .ok fs) :
    let root : Scope := ⟨name, s.columns⟩
    (∀ p t, root.at? p = some t → root.Opens p →
      ∃ m, reference? fs name p = some m ∧ Describes dialect t m) ∧
    (∀ p q, root.Opens p → root.Opens q → p ≠ q → reference? fs name p ≠ reference? fs name q) ∧
    ∀ p i t, root.Opens p → root.at? (p ++ [i]) = some t → ¬ root.Opens (p ++ [i]) →
      ∃ q u, q < p ++ [i] ∧ root.Opens q ∧ root.at? q = some u ∧ u.name = t.name ∧
        ∀ r, reference? fs name (p ++ [i] ++ r) = reference? fs name (q ++ r) := by
  intro root
  obtain ⟨es, rfl, hr, hroot, haround⟩ := Compile.registered_of_files h
  have hentry {p : List Nat} {t : Scope} (ht : root.at? p = some t) (hp : root.Opens p) :
      ∃ e ∈ es, e.path = p ∧ e.scope = t ∧
        reference? (es.map (Compile.Entry.file dialect)) name p = some e.message := by
    obtain ⟨e, he, rfl⟩ := (hr.opens_iff hroot haround ht).mp hp
    exact ⟨e, he, rfl, hr.scope_eq he rfl ht, hr.reference_of_mem hroot haround he⟩
  refine ⟨fun p t ht hp => ?_, fun p q hp hq hne heq => ?_, fun p i t hp ht hnot => ?_⟩
  · obtain ⟨e, he, -, rfl, href⟩ := hentry ht hp
    exact ⟨e.message, href, hr.describes he⟩
  · obtain ⟨t, ht⟩ := hp.at?
    obtain ⟨u, hu⟩ := hq.at?
    obtain ⟨e, he, hpath, -, href⟩ := hentry ht hp
    obtain ⟨o, ho, hopath, -, href'⟩ := hentry hu hq
    have hsame : e.message = o.message := Option.some.inj (href.symm.trans (heq.trans href'))
    have hname : some e.scope.name = some o.scope.name := by
      rw [← (hr.describes he).name, ← (hr.describes ho).name, hsame]
    exact hne (hpath ▸ hopath ▸ congrArg (·.path) (hr.eq_of_name he ho (Option.some.inj hname)))
  · obtain ⟨s', hs', -⟩ := Option.bind_eq_some_iff.mp (Scope.at?_concat root p i ▸ ht)
    obtain ⟨e, he, hpath, -, href⟩ := hentry hs' hp
    obtain ⟨o, ho, hname, hle, href'⟩ := hr.reference_concat he hpath href ht
    have hat := hr.located_of_mem ho
    have hne : o.path ≠ p ++ [i] := fun heq =>
      hnot ((hr.opens_iff hroot haround ht).mpr ⟨o, ho, heq⟩)
    refine ⟨o.path, o.scope, lt_of_le_of_ne hle hne,
      (hr.opens_iff hroot haround hat).mpr ⟨o, ho, rfl⟩, hat, hname, fun r => ?_⟩
    rw [reference?_append, href', reference?_append, hr.reference_of_mem hroot haround ho]

/-- A column in a STRUCT column in a STRUCT column, all of them compiled. -/
theorem faithful_nested :
    let x : Column := { name := "x", type := 2, mode := 2 }
    let b : Column := { name := "b", type := 4, mode := 3, columns := [x] }
    let a : Column := { name := "a", type := 4, columns := [b] }
    ∃ fs m, Compile.files ⟨[a]⟩ "root" .proto3 = .ok fs ∧ reference? fs "root" [0, 0] = some m ∧
      Describes .proto3 ⟨"root_a_b", [x]⟩ m := by
  intro x b a
  have hok : (Compile.files ⟨[a]⟩ "root" .proto3).toOption.isSome = true := by decide
  cases hfs : Compile.files ⟨[a]⟩ "root" .proto3 with
  | error e => simp [hfs, Except.toOption] at hok
  | ok fs =>
    have hopens : (Scope.mk "root" [a]).Opens [0, 0] := by
      -- only the column around it is before it
      refine (Scope.opens_concat_iff (p := [0]) (t := ⟨"root_a_b", [x]⟩) rfl).mpr
        ⟨?_, fun q j u hlt _ hu => ?_⟩
      · refine (Scope.opens_concat_iff (p := []) (t := ⟨"root_a", [b]⟩) rfl).mpr
          ⟨Scope.opens_nil _, fun q j u hlt => ?_⟩
        cases q <;> simp [List.cons_lt_cons_iff] at hlt
      · rcases q with _ | ⟨k, q⟩
        · obtain rfl : j = 0 := by simpa [List.cons_lt_cons_iff] using hlt
          obtain rfl : Scope.mk "root_a" [b] = u := Option.some.inj hu
          decide
        · cases q <;> simp [List.cons_lt_cons_iff] at hlt
    obtain ⟨hall, -⟩ := faithful_of_opens hfs
    obtain ⟨m, href, hdesc⟩ := hall [0, 0] ⟨"root_a_b", [x]⟩ rfl hopens
    exact ⟨fs, m, rfl, href, hdesc⟩

/-- Two STRUCT columns of one name: both refer to the message of the first, which does not describe
the columns of the second. -/
theorem first_of_two_names :
    let x : Column := { name := "x", type := 2 }
    let y : Column := { name := "y", type := 1 }
    let b : Column := { name := "b", type := 4, columns := [x] }
    let s : Schema := ⟨[{ name := "a", type := 4, columns := [b] },
      { name := "a_b", type := 4, columns := [y] }]⟩
    ∃ fs m, Compile.files s "root" .proto2 = .ok fs ∧
      (Scope.mk "root" s.columns).at? [0, 0] = some ⟨"root_a_b", [x]⟩ ∧
      (Scope.mk "root" s.columns).at? [1] = some ⟨"root_a_b", [y]⟩ ∧
      reference? fs "root" [0, 0] = some m ∧ reference? fs "root" [1] = some m ∧
      ¬ Describes .proto2 ⟨"root_a_b", [y]⟩ m := by
  intro x y b s
  let f : Descriptor.Field :=
    { name := some "x", number := some 1, label := some 1, type := some 3 }
  refine ⟨_, { name := some "root_a_b", fields := [f] }, rfl, rfl, rfl, by decide, by decide, fun h => ?_⟩
  have hname := (h.column 0 y f rfl rfl).name
  exact absurd hname (by decide)

end RowStream.Table
