import Mathlib.Data.List.Forall2
import RowStream.Proofs.Table.Resolved

/-!
# One schema in two dialects

Which scopes of a schema get a message depends on names alone: a name goes to the first scope that asks
for it. So a schema that compiles in two dialects has the same files in both, one for one, and the two
messages of a scope have fields for the same columns.

* `twin_of_files`: the files of a schema in two dialects.
* `Resolved.paired`: the messages of a schema in two dialects.
-/

namespace RowStream.Table

open Descriptor (Dialect)

/-- The fields say one column, each in its dialect. -/
def Paired (dialect dialect' : Dialect) (scope : String) (f g : Pool.Field) : Prop :=
  ∃ number c, FieldOf dialect scope number c f ∧ FieldOf dialect' scope number c g

namespace Compile

variable {dialect dialect' : Dialect} {fs gs fs' gs' : List Descriptor.File}

/-- The files are those of one scope, each in its dialect. -/
def Twin (dialect dialect' : Dialect) (f g : Descriptor.File) : Prop :=
  ∃ s d d', Drafted dialect s.name 1 s.columns {} d ∧ Drafted dialect' s.name 1 s.columns {} d' ∧
    f = Entry.file dialect ⟨[], s, d⟩ ∧ g = Entry.file dialect' ⟨[], s, d'⟩

/-- The same names are taken. -/
theorem isTaken_of_twin (h : List.Forall₂ (Twin dialect dialect') fs gs) (name : String) :
    isTaken fs name = isTaken gs name := by
  induction h with
  | nil => rfl
  | cons hfile _ ih =>
    obtain ⟨s, d, d', -, -, rfl, rfl⟩ := hfile
    simp only [isTaken, List.any_cons] at ih ⊢
    rw [ih]
    rfl

/-- Both dialects add the file of a scope, or neither does. -/
theorem twin_addFile (h : List.Forall₂ (Twin dialect dialect') fs gs) {s : Scope} {d d' : Draft}
    (hd : Drafted dialect s.name 1 s.columns {} d) (hd' : Drafted dialect' s.name 1 s.columns {} d') :
    List.Forall₂ (Twin dialect dialect') (addFile dialect s.name d fs)
      (addFile dialect' s.name d' gs) := by
  unfold addFile
  rw [isTaken_of_twin h]
  split
  · exact h
  · exact List.rel_append h (.cons ⟨s, d, d', hd, hd', rfl, rfl⟩ .nil)

/-- The columns add the files of the same scopes in both dialects. -/
def Twins (dialect dialect' : Dialect) (cs : List Column) : Prop :=
  ∀ {name : String} {number : Nat} {a b a' b' : Draft} {fs gs fs' gs' : List Descriptor.File},
    fields dialect name number cs a fs = .ok (b, fs') →
      fields dialect' name number cs a' gs = .ok (b', gs') →
        List.Forall₂ (Twin dialect dialect') fs gs → List.Forall₂ (Twin dialect dialect') fs' gs'

theorem twin_nested {s : Scope} (hcols : Twins dialect dialect' s.columns)
    (h : nested dialect s fs = .ok fs') (h' : nested dialect' s gs = .ok gs')
    (hfiles : List.Forall₂ (Twin dialect dialect') fs gs) :
    List.Forall₂ (Twin dialect dialect') fs' gs' := by
  unfold nested at h h'
  rw [isTaken_of_twin hfiles] at h
  split at h
  · rename_i htaken
    rw [if_pos htaken] at h'
    rwa [← Except.ok.inj h, ← Except.ok.inj h']
  · rename_i hfree
    rw [if_neg hfree] at h'
    obtain ⟨d, fs₁, hfields, rfl⟩ := scope_eq h
    obtain ⟨d', gs₁, hfields', rfl⟩ := scope_eq h'
    exact twin_addFile (hcols hfields hfields' hfiles) (drafted_of_fields hfields)
      (drafted_of_fields hfields')

/-- Columns add the files of the same scopes, since a column asks for the same name. -/
theorem twins (dialect dialect' : Dialect) (cs : List Column) : Twins dialect dialect' cs := by
  induction cs using Column.list_induct with
  | nil =>
    intro name number a b a' b' fs gs fs' gs' h h' hfiles
    rw [fields, Except.ok.injEq, Prod.mk.injEq] at h h'
    rwa [← h.2, ← h'.2]
  | cons c cs ihc ih =>
    intro name number a b a' b' fs gs fs' gs' h h' hfiles
    obtain ⟨t, l, fs₁, ht, -, hrefer, hrest⟩ := fields_cons h
    obtain ⟨t', l', gs₁, ht', -, hrefer', hrest'⟩ := fields_cons h'
    obtain rfl : t = t' := Except.ok.inj (ht.symm.trans ht')
    refine ih hrest hrest' ?_
    unfold refer at hrefer hrefer'
    split at hrefer
    · rename_i hm
      rw [if_pos hm] at hrefer'
      exact twin_nested (s := ⟨nestedName name c.name, c.columns⟩) ihc hrefer hrefer' hfiles
    · rename_i hm
      rw [if_neg hm] at hrefer'
      rwa [← Except.ok.inj hrefer, ← Except.ok.inj hrefer']

/-- **The files of a schema in two dialects** are those of the same scopes. -/
theorem twin_of_files {s : Schema} {name : String} (h : files s name dialect = .ok fs)
    (h' : files s name dialect' = .ok gs) : List.Forall₂ (Twin dialect dialect') fs gs := by
  have hnested : nested dialect ⟨name, s.columns⟩ [] = .ok fs := h
  have hnested' : nested dialect' ⟨name, s.columns⟩ [] = .ok gs := h'
  exact twin_nested (twins dialect dialect' s.columns) hnested hnested' .nil

variable {root : Scope} {es os : List Entry} {e o : Entry} {shape shape' : Shape}

/-- Every scope with a message in one dialect has one in the other. -/
theorem exists_twin (h : List.Forall₂ (Twin dialect dialect') (es.map (Entry.file dialect))
    (os.map (Entry.file dialect'))) (he : e ∈ es) :
    ∃ o ∈ os, Twin dialect dialect' (e.file dialect) (o.file dialect') := by
  rw [List.forall₂_map_left_iff, List.forall₂_map_right_iff] at h
  induction h with
  | nil => exact absurd he List.not_mem_nil
  | @cons x y xs ys hxy _ ih =>
    rcases List.mem_cons.mp he with rfl | he
    · exact ⟨y, List.mem_cons_self, hxy⟩
    · obtain ⟨o, ho, htwin⟩ := ih he
      exact ⟨o, List.mem_cons_of_mem y ho, htwin⟩

/-- The fields of a message stand in the order of the columns of any scope it was compiled from. -/
theorem Resolved.fieldOf (h : Resolved dialect root es shape) (he : e ∈ es) {s : Scope} {d : Draft}
    (hd : Drafted dialect s.name 1 s.columns {} d)
    (hfile : e.file dialect = Entry.file dialect ⟨[], s, d⟩) :
    e.scope.name = s.name ∧ (e.resolved dialect).fields.length = s.columns.length ∧
      ∀ i c f, s.columns[i]? = some c → (e.resolved dialect).fields[i]? = some f →
        FieldOf dialect s.name (i + 1) c f := by
  have hmessage : e.message = d.message s.name :=
    (List.cons.inj (congrArg Descriptor.File.messages hfile)).1
  have hname : e.scope.name = s.name := Option.some.inj (congrArg Descriptor.Message.name hmessage)
  have hfields : e.draft.fields = d.fields := congrArg Descriptor.Message.fields hmessage
  have hof := h.messageOf he
  have hdrafted := h.registered.drafted_of_mem he
  have hlength : s.columns.length = e.scope.columns.length := by
    rw [← hd.length_fields, ← hdrafted.length_fields, hfields]
  refine ⟨hname, hof.length.trans hlength.symm, fun i c f hc hf => ?_⟩
  rw [h.registered.resolved_fields he hof.bounded, hfields] at hf
  exact hd.fieldOf (hlength ▸ hof.bounded) hc hf

/-- **The messages of a schema in two dialects** have fields for the same columns. -/
theorem Resolved.paired (h : Resolved dialect root es shape) (h' : Resolved dialect' root os shape')
    (hfiles : List.Forall₂ (Twin dialect dialect') (es.map (Entry.file dialect))
      (os.map (Entry.file dialect'))) (he : e ∈ es) :
    ∃ o ∈ os, o.scope.name = e.scope.name ∧
      List.Forall₂ (Paired dialect dialect' e.scope.name) (e.resolved dialect).fields
        (o.resolved dialect').fields := by
  obtain ⟨o, ho, s, d, d', hd, hd', hfile, hfile'⟩ := exists_twin hfiles he
  obtain ⟨hname, hlength, hcolumn⟩ := h.fieldOf he hd hfile
  obtain ⟨hname', hlength', hcolumn'⟩ := h'.fieldOf ho hd' hfile'
  refine ⟨o, ho, hname'.trans hname.symm,
    List.forall₂_iff_get.mpr ⟨hlength.trans hlength'.symm, fun i hi hi' => ?_⟩⟩
  have hc := List.getElem?_eq_getElem (hlength ▸ hi)
  rw [hname]
  exact ⟨i + 1, _, hcolumn i _ _ hc (List.getElem?_eq_getElem hi),
    hcolumn' i _ _ hc (List.getElem?_eq_getElem hi')⟩

end Compile

end RowStream.Table
