import Mathlib.Data.List.Lex
import RowStream.Proofs.Table.Draft

/-!
# The messages of a schema

Every scope of a schema has a place: the path of STRUCT columns that leads to it. Paths are in the
order of the schema, a scope before those below it. Names are not places, because two scopes can have
one name.

A name gets the message of the first scope that asks for it. The files are therefore those of some
scopes of the schema, each with a name of its own, and a scope stands after those that its fields
refer to (`Registered`) and before the one around it (`Around`). What a field refers to is the scope of
its column, or an earlier one of the same name. No scope below asks for the name of one around it, since
names get longer on the way down.

* `grown_nested`: what one scope adds to the files.
* `registered_of_files`: the files of a schema.
-/

namespace RowStream.Table

open Descriptor (Dialect)

/-- Columns come one after the other, each after the columns that it has itself. -/
theorem Column.list_induct {P : List Column → Prop} (nil : P [])
    (cons : ∀ c cs, P c.columns → P cs → P (c :: cs)) (cs : List Column) : P cs :=
  @Column.rec_1 (fun c => P c.columns) P (fun _ _ _ _ _ _ _ _ _ _ h => h) nil
    (fun c cs hc hcs => cons c cs hc hcs) cs

namespace Compile

/-- A scope whose message was finished: its place, and its draft. -/
structure Entry where
  path : List Nat
  scope : Scope
  draft : Draft

/-- The message of a scope. -/
def Entry.message (e : Entry) : Descriptor.Message := e.draft.message e.scope.name

/-- The file of a scope. -/
def Entry.file (dialect : Dialect) (e : Entry) : Descriptor.File where
  name := some (fileName e.scope.name)
  dependencies := e.draft.dependencies
  messages := [e.message]
  dialect := some dialect.name

/-- The scopes of a schema whose messages were finished, oldest first. Each is at its place, its
draft is that of its columns, its name is its own, and for each STRUCT column there is an older one
with the name that is at the place of the column or before it. -/
inductive Registered (dialect : Dialect) (root : Scope) : List Entry → Prop
  | nil : Registered dialect root []
  | snoc {es : List Entry} {e : Entry} (rest : Registered dialect root es)
      (located : root.at? e.path = some e.scope)
      (drafted : Drafted dialect e.scope.name 1 e.scope.columns {} e.draft)
      (fresh : ∀ o ∈ es, o.scope.name ≠ e.scope.name)
      (refers : ∀ i t, e.scope.sub? i = some t →
        ∃ o ∈ es, o.scope.name = t.name ∧ o.path ≤ e.path ++ [i]) :
      Registered dialect root (es ++ [e])

variable {dialect : Dialect} {root : Scope} {es es' : List Entry} {e : Entry}

namespace Registered

theorem located_of_mem (h : Registered dialect root es) (he : e ∈ es) :
    root.at? e.path = some e.scope := by
  induction h with
  | nil => exact absurd he List.not_mem_nil
  | snoc _ hlocated _ _ _ ih =>
    rcases List.mem_append.mp he with he | he
    · exact ih he
    · rw [List.mem_singleton.mp he]
      exact hlocated

theorem drafted_of_mem (h : Registered dialect root es) (he : e ∈ es) :
    Drafted dialect e.scope.name 1 e.scope.columns {} e.draft := by
  induction h with
  | nil => exact absurd he List.not_mem_nil
  | snoc _ _ hdrafted _ _ ih =>
    rcases List.mem_append.mp he with he | he
    · exact ih he
    · rw [List.mem_singleton.mp he]
      exact hdrafted

/-- **The message of a registered scope describes it.** -/
theorem describes (h : Registered dialect root es) (he : e ∈ es) :
    Describes dialect e.scope e.message := by
  induction h with
  | nil => exact absurd he List.not_mem_nil
  | snoc _ _ hdrafted _ _ ih =>
    rcases List.mem_append.mp he with he | he
    · exact ih he
    · rw [List.mem_singleton.mp he]
      exact describes_of_drafted hdrafted

theorem refers_of_mem (h : Registered dialect root es) (he : e ∈ es) {i : Nat} {t : Scope}
    (ht : e.scope.sub? i = some t) :
    ∃ o ∈ es, o.scope.name = t.name ∧ o.path ≤ e.path ++ [i] := by
  induction h with
  | nil => exact absurd he List.not_mem_nil
  | @snoc es _ _ _ _ _ hrefers ih =>
    have holder : ∃ o ∈ es, o.scope.name = t.name ∧ o.path ≤ e.path ++ [i] := by
      rcases List.mem_append.mp he with he | he
      · exact ih he
      · obtain rfl := List.mem_singleton.mp he
        exact hrefers i t ht
    obtain ⟨o, ho, hname, hpath⟩ := holder
    exact ⟨o, List.mem_append_left _ ho, hname, hpath⟩

/-- No two scopes that are registered have one name. -/
theorem eq_of_name (h : Registered dialect root es) (he : e ∈ es) {o : Entry} (ho : o ∈ es)
    (hname : e.scope.name = o.scope.name) : e = o := by
  induction h with
  | nil => exact absurd he List.not_mem_nil
  | snoc _ _ _ hfresh _ ih =>
    rcases List.mem_append.mp he with he | he <;> rcases List.mem_append.mp ho with ho | ho
    · exact ih he ho
    · rw [List.mem_singleton.mp ho] at hname
      exact absurd hname (hfresh e he)
    · rw [List.mem_singleton.mp he] at hname
      exact absurd hname.symm (hfresh o ho)
    · rw [List.mem_singleton.mp he, List.mem_singleton.mp ho]

theorem nodup (h : Registered dialect root es) : es.Nodup := by
  induction h with
  | nil => exact List.nodup_nil
  | snoc _ _ _ hfresh _ ih =>
    refine List.nodup_append.mpr ⟨ih, List.pairwise_singleton _ _, fun x hx y hy heq => ?_⟩
    rw [List.mem_singleton.mp hy] at heq
    exact hfresh x hx (congrArg (·.scope.name) heq)

/-- The STRUCT columns of a scope have entries that are older than its own. -/
theorem older {before after : List Entry}
    (h : Registered dialect root (before ++ e :: after)) {i : Nat} {t : Scope}
    (ht : e.scope.sub? i = some t) : ∃ o ∈ before, o.scope.name = t.name := by
  generalize heq : before ++ e :: after = es at h
  induction h generalizing after with
  | nil => exact absurd heq (by simp)
  | @snoc es x _ _ _ _ hrefers ih =>
    rcases List.eq_nil_or_concat after with rfl | ⟨rest, y, rfl⟩
    · obtain ⟨rfl, hx⟩ := List.append_inj' heq rfl
      obtain rfl : e = x := by simpa using hx
      obtain ⟨o, ho, hname, -⟩ := hrefers i t ht
      exact ⟨o, ho, hname⟩
    · have hassoc : (before ++ e :: rest) ++ [y] = es ++ [x] := by simpa using heq
      exact ih (List.append_inj' hassoc rfl).1

end Registered

/-! ## Names of files -/

theorem fileName_inj {a b : String} : fileName a = fileName b ↔ a = b :=
  String.append_left_inj ".proto"

theorem isTaken_map {name : String} : isTaken (es.map (Entry.file dialect)) (fileName name) = true ↔
    ∃ e ∈ es, e.scope.name = name := by
  simp [isTaken, Entry.file, fileName_inj]

/-- The file of a name that is not taken goes to the end. -/
theorem addFile_map (h : ∀ o ∈ es, o.scope.name ≠ e.scope.name) :
    addFile dialect e.scope.name e.draft (es.map (Entry.file dialect)) =
      (es ++ [e]).map (Entry.file dialect) := by
  have hfree : ¬ isTaken (es.map (Entry.file dialect)) (fileName e.scope.name) = true := by
    rw [isTaken_map]
    rintro ⟨o, ho, hname⟩
    exact h o ho hname
  rw [addFile, if_neg hfree, List.map_append]
  rfl

/-! ## The order of places -/

theorem lt_concat (p : List Nat) (i : Nat) : p < p ++ [i] := by
  have h : p ++ [] < p ++ [i] := List.append_left_lt (List.nil_lt_cons i [])
  rwa [List.append_nil] at h

theorem lt_concat_of_lt {p q : List Nat} (h : p < q) (i : Nat) : p < q ++ [i] :=
  List.lt_trans h (lt_concat q i)

/-- What is below a place is before the next one. -/
theorem lt_next {p q : List Nat} {k n : Nat} (h : q < p ++ [k] ++ [n]) : q < p ++ [k + 1] := by
  refine List.lt_trans h ?_
  rw [List.append_assoc]
  exact List.append_left_lt (List.cons_lt_cons_iff.mpr (.inl (Nat.lt_succ_self k)))

/-! ## What is added -/

/-- The scope around a registered one is registered too, or its columns are not yet done: then the place
`p` is there or below. -/
def Around (es : List Entry) (p : List Nat) : Prop :=
  ∀ e ∈ es, ∀ q i, e.path = q ++ [i] → q <+: p ∨ ∃ o ∈ es, o.path = q

theorem Around.mono {p q : List Nat} (h : Around es p) (hq : p <+: q) : Around es q :=
  fun e he x i hx => (h e he x i hx).imp_left fun hxp => hxp.trans hq

/-- When the columns of a scope are done, and those of the scope around it are not, it is registered. -/
theorem Around.done {p q : List Nat} (h : Around es p) (hp : ∀ x, x <+: p → x <+: q ∨ x = p)
    {self : Entry} (hself : self.path = p) : Around (es ++ [self]) q := by
  intro e he x i hx
  have hnew {x : List Nat} (hxp : x <+: p) : x <+: q ∨ ∃ o ∈ es ++ [self], o.path = x :=
    (hp x hxp).imp_right fun heq => ⟨self, by simp, hself.trans heq.symm⟩
  rcases List.mem_append.mp he with he | he
  · rcases h e he x i hx with hxp | ⟨o, ho, hox⟩
    · exact hnew hxp
    · exact .inr ⟨o, List.mem_append_left _ ho, hox⟩
  · rw [List.mem_singleton.mp he, hself] at hx
    exact hnew (hx ▸ List.prefix_append x [i])

/-- While the columns at the place `p` are compiled, the registered scopes `es` became `es'`: the new ones
have names that are not short, and all are before a place. -/
structure Grown (dialect : Dialect) (root : Scope) (p bound : List Nat) (least : Nat)
    (es es' : List Entry) : Prop where
  registered : Registered dialect root es'
  added : ∃ new, es' = es ++ new ∧ ∀ e ∈ new, least ≤ e.scope.name.length
  before : ∀ e ∈ es', e.path < bound
  around : Around es' p

section

variable {p bound : List Nat} {least : Nat}

theorem Grown.subset (h : Grown dialect root p bound least es es') : es ⊆ es' := by
  obtain ⟨new, heq, -⟩ := h.added
  rw [heq]
  exact List.subset_append_left es new

theorem Grown.trans {bound' : List Nat} {least' : Nat} {es'' : List Entry}
    (h : Grown dialect root p bound least es es') (h' : Grown dialect root p bound' least' es' es'')
    (hl : least' ≤ least) : Grown dialect root p bound' least' es es'' := by
  obtain ⟨new, rfl, hnew⟩ := h.added
  obtain ⟨new', rfl, hnew'⟩ := h'.added
  refine ⟨h'.registered, ⟨new ++ new', List.append_assoc .., fun e he => ?_⟩, h'.before, h'.around⟩
  rcases List.mem_append.mp he with he | he
  · exact Nat.le_trans hl (hnew e he)
  · exact hnew' e he

end

/-- The STRUCT columns of a scope from a position on have their messages, each that of the column
or of a scope before it. -/
def Refers (es : List Entry) (p : List Nat) (s : Scope) (k : Nat) : Prop :=
  ∀ i t, k ≤ i → s.sub? i = some t → ∃ e ∈ es, e.scope.name = t.name ∧ e.path ≤ p ++ [i]

/-- What columns of the scope at a place add, those after `done`. -/
def Grows (dialect : Dialect) (root : Scope) (cs : List Column) : Prop :=
  ∀ (done : List Column) {p : List Nat} {s : Scope} {es : List Entry} {d d' : Draft}
    {fs' : List Descriptor.File}, root.at? p = some s → s.columns = done ++ cs →
    Registered dialect root es → (∀ e ∈ es, e.path < p ++ [done.length]) → Around es p →
    fields dialect s.name (done.length + 1) cs d (es.map (Entry.file dialect)) = .ok (d', fs') →
    ∃ es', fs' = es'.map (Entry.file dialect) ∧
      Grown dialect root p (p ++ [s.columns.length]) (s.name.length + 1) es es' ∧
      Refers es' p s done.length

/-- **A scope adds its message after those below it**, if its name is not taken. Then the name is
that of the scope, or of one before it. The place `q` is the one around. -/
theorem grown_nested {s : Scope} (hcols : Grows dialect root s.columns) {p q : List Nat}
    (hat : root.at? p = some s) (hr : Registered dialect root es) (hb : ∀ e ∈ es, e.path < p)
    (ha : Around es q) (hqp : q <+: p) (hbetween : ∀ x, x <+: p → x <+: q ∨ x = p)
    {fs' : List Descriptor.File}
    (h : nested dialect s (es.map (Entry.file dialect)) = .ok fs') :
    ∃ es', fs' = es'.map (Entry.file dialect) ∧
      Grown dialect root q (p ++ [s.columns.length]) s.name.length es es' ∧
      ∃ e ∈ es', e.scope.name = s.name ∧ e.path ≤ p := by
  simp only [nested] at h
  split at h
  · rename_i htaken
    obtain ⟨e, he, hname⟩ := isTaken_map.mp htaken
    refine ⟨es, (Except.ok.inj h).symm, ⟨hr, ⟨[], by simp⟩, fun e he => ?_, ha⟩, e, he, hname,
      le_of_lt (hb e he)⟩
    exact lt_concat_of_lt (hb e he) _
  · rename_i hfree
    obtain ⟨d, fs₁, hfields, rfl⟩ := scope_eq h
    obtain ⟨es₁, rfl, hgrown, hrefers⟩ := hcols [] hat rfl hr
      (fun e he => lt_concat_of_lt (hb e he) 0) (ha.mono hqp) hfields
    obtain ⟨new, rfl, hnew⟩ := hgrown.added
    have hfresh : ∀ o ∈ es ++ new, o.scope.name ≠ s.name := by
      intro o ho hname
      rcases List.mem_append.mp ho with ho | ho
      · exact hfree (isTaken_map.mpr ⟨o, ho, hname⟩)
      · have hlong := hnew o ho
        rw [hname] at hlong
        exact Nat.not_succ_le_self _ hlong
    let self : Entry := ⟨p, s, d⟩
    have hreg : Registered dialect root (es ++ new ++ [self]) :=
      .snoc hgrown.registered hat (drafted_of_fields hfields) hfresh
        fun i t ht => hrefers i t (Nat.zero_le i) ht
    refine ⟨es ++ new ++ [self], addFile_map (e := self) hfresh, ⟨hreg,
      ⟨new ++ [self], List.append_assoc .., fun e he => ?_⟩, fun e he => ?_,
      hgrown.around.done hbetween rfl⟩, self, by simp, rfl, le_refl p⟩
    · rcases List.mem_append.mp he with he | he
      · exact Nat.le_of_succ_le (hnew e he)
      · exact List.mem_singleton.mp he ▸ Nat.le_refl _
    · rcases List.mem_append.mp he with he | he
      · exact hgrown.before e he
      · exact List.mem_singleton.mp he ▸ lt_concat p _

/-- One column adds the message that its field refers to. -/
theorem grown_refer {c : Column} (hcols : Grows dialect root c.columns) {p : List Nat} {s : Scope}
    {done cs : List Column} (hat : root.at? p = some s) (hs : s.columns = done ++ c :: cs)
    (hr : Registered dialect root es) (hb : ∀ e ∈ es, e.path < p ++ [done.length])
    (ha : Around es p) {t : Descriptor.FieldType} (ht : wireType c = .ok t)
    {fs' : List Descriptor.File}
    (h : refer dialect s.name c t (es.map (Entry.file dialect)) = .ok fs') :
    ∃ es', fs' = es'.map (Entry.file dialect) ∧
      Grown dialect root p (p ++ [done.length + 1]) (s.name.length + 1) es es' ∧
      ∀ u, s.sub? done.length = some u →
        ∃ e ∈ es', e.scope.name = u.name ∧ e.path ≤ p ++ [done.length] := by
  have hc : s.columns[done.length]? = some c := by simp [hs]
  simp only [refer] at h
  split at h
  · rename_i hm
    have hsub : s.sub? done.length = some ⟨nestedName s.name c.name, c.columns⟩ :=
      Scope.sub?_eq_some.mpr ⟨c, hc, (eq_message_iff ht).mp hm, rfl⟩
    have hplace : root.at? (p ++ [done.length]) = some ⟨nestedName s.name c.name, c.columns⟩ := by
      rw [Scope.at?_concat, hat, Option.bind_some, hsub]
    obtain ⟨es', rfl, hgrown, hself⟩ := grown_nested hcols hplace hr hb ha (List.prefix_append _ _)
      (fun x hx => (List.prefix_concat_iff.mp hx).symm) h
    have hlonger := Scope.length_lt_of_sub? hsub
    obtain ⟨new, heq, hnew⟩ := hgrown.added
    refine ⟨es', rfl, ⟨hgrown.registered, ⟨new, heq, fun e he => ?_⟩,
      fun e he => lt_next (hgrown.before e he), hgrown.around⟩, fun u hu => ?_⟩
    · exact Nat.le_trans hlonger (hnew e he)
    · rw [hsub] at hu
      rw [← Option.some.inj hu]
      exact hself
  · rename_i hm
    have hnone : c.isStruct ≠ true := fun hstruct => hm ((eq_message_iff ht).mpr hstruct)
    refine ⟨es, (Except.ok.inj h).symm, ⟨hr, ⟨[], by simp⟩, fun e he => ?_, ha⟩, fun u hu => ?_⟩
    · exact lt_next (lt_concat_of_lt (hb e he) 0)
    · obtain ⟨c', hc', hstruct, -⟩ := Scope.sub?_eq_some.mp hu
      rw [hc] at hc'
      rw [← Option.some.inj hc'] at hstruct
      exact absurd hstruct hnone

/-- **Columns add the messages of their scopes**, each column after those before it. -/
theorem grows (dialect : Dialect) (root : Scope) (cs : List Column) : Grows dialect root cs := by
  induction cs using Column.list_induct with
  | nil =>
    intro done p s es d d' fs' hat hs hr hb ha h
    rw [List.append_nil] at hs
    rw [fields] at h
    obtain ⟨-, rfl⟩ : d = d' ∧ es.map (Entry.file dialect) = fs' := by simpa using h
    refine ⟨es, rfl, ⟨hr, ⟨[], by simp⟩, hs ▸ hb, ha⟩, fun i t hi ht => ?_⟩
    obtain ⟨c, hc, -⟩ := Scope.sub?_eq_some.mp ht
    rw [hs, List.getElem?_eq_none hi] at hc
    exact absurd hc (by simp)
  | cons c cs ihc ih =>
    intro done p s es d d' fs' hat hs hr hb ha h
    obtain ⟨t, l, fs₁, ht, -, hrefer, hrest⟩ := fields_cons h
    obtain ⟨es₁, rfl, hgrown, hself⟩ := grown_refer ihc hat hs hr hb ha ht hrefer
    have hs' : s.columns = (done ++ [c]) ++ cs := by simp [hs]
    have hlength : (done ++ [c]).length = done.length + 1 := by simp
    obtain ⟨es', rfl, hgrown', hrefers⟩ := ih (done ++ [c]) hat hs' hgrown.registered
      (by rw [hlength]; exact hgrown.before) hgrown.around (by rw [hlength]; exact hrest)
    refine ⟨es', rfl, hgrown.trans hgrown' (Nat.le_refl _), fun i u hi hu => ?_⟩
    rcases Nat.eq_or_lt_of_le hi with rfl | hlt
    · obtain ⟨e, he, hname, hpath⟩ := hself u hu
      exact ⟨e, hgrown'.subset he, hname, hpath⟩
    · exact hrefers i u (by rw [hlength]; exact hlt) hu

/-- **The files of a schema are those of scopes of it**: of the table, and of no scope without those
around it. -/
theorem registered_of_files {s : Schema} {name : String} {fs : List Descriptor.File}
    (h : files s name dialect = .ok fs) : ∃ es, fs = es.map (Entry.file dialect) ∧
      Registered dialect ⟨name, s.columns⟩ es ∧ (∃ e ∈ es, e.path = []) ∧ Around es [] := by
  have hnested : nested dialect ⟨name, s.columns⟩ (List.map (Entry.file dialect) []) = .ok fs := h
  obtain ⟨es, heq, hgrown, e, he, -, hpath⟩ :=
    grown_nested (grows dialect ⟨name, s.columns⟩ s.columns) (p := []) (q := []) rfl .nil
      (fun e he => absurd he List.not_mem_nil) (fun e he => absurd he List.not_mem_nil)
      (List.prefix_refl _) (fun _ => .inl) hnested
  exact ⟨es, heq, hgrown.registered, ⟨e, he, eq_of_le_of_not_lt hpath (List.not_lt_nil e.path)⟩,
    hgrown.around⟩

end Compile

end RowStream.Table
