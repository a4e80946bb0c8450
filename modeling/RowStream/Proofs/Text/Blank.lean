import Mathlib.Data.List.TakeWhile
import RowStream.Text.Blank

/-!
# Trimming

A text is blanks around what it is trimmed to (`Surrounds`). A text with blanks around characters none of
which is blank is trimmed to these characters.

* `surrounds_trim`, `trim_surrounded`: blanks around a text.
-/

namespace RowStream.Text

variable {before core after : List Char}

/-- The characters are the core with blanks around it or none. -/
def Surrounds (cs core : List Char) : Prop :=
  ∃ before after, cs = before ++ (core ++ after) ∧ (∀ c ∈ before, isBlank c = true) ∧
    ∀ c ∈ after, isBlank c = true

theorem surrounds_trim (s : String) : Surrounds s.toList (trim s).toList := by
  have hblank {cs : List Char} : ∀ c ∈ cs.takeWhile isBlank, isBlank c = true :=
    fun _ => List.mem_takeWhile_imp
  refine ⟨s.toList.takeWhile isBlank, ((s.toList.dropWhile isBlank).reverse.takeWhile isBlank).reverse,
    ?_, hblank, fun c hc => hblank c (List.mem_reverse.mp hc)⟩
  rw [trim, String.toList_ofList, trimList, ← List.reverse_append, List.takeWhile_append_dropWhile,
    List.reverse_reverse, List.takeWhile_append_dropWhile]

theorem dropWhile_blank (h : ∀ c ∈ before, isBlank c = true) :
    (before ++ core).dropWhile isBlank = core.dropWhile isBlank :=
  List.dropWhile_append_of_pos h

theorem dropWhile_solid (hne : core ≠ []) (h : ∀ c ∈ core, isBlank c = false) :
    (core ++ after).dropWhile isBlank = core ++ after := by
  obtain ⟨c, core, rfl⟩ := List.exists_cons_of_ne_nil hne
  rw [List.cons_append, List.dropWhile_cons_of_neg (by simp [h c List.mem_cons_self])]

theorem trimList_surrounded (hbefore : ∀ c ∈ before, isBlank c = true)
    (hafter : ∀ c ∈ after, isBlank c = true) (hne : core ≠ [])
    (hcore : ∀ c ∈ core, isBlank c = false) : trimList (before ++ (core ++ after)) = core := by
  have hends : (after.reverse ++ core.reverse).dropWhile isBlank = core.reverse := by
    rw [dropWhile_blank fun c hc => hafter c (List.mem_reverse.mp hc)]
    have hsolid : (core.reverse ++ []).dropWhile isBlank = core.reverse ++ [] :=
      dropWhile_solid (List.reverse_ne_nil_iff.mpr hne) fun c hc => hcore c (List.mem_reverse.mp hc)
    rwa [List.append_nil] at hsolid
  rw [trimList, dropWhile_blank hbefore, dropWhile_solid hne hcore, List.reverse_append, hends,
    List.reverse_reverse]

/-- **Blanks around a text** are cut off. -/
theorem trim_surrounded (hbefore : ∀ c ∈ before, isBlank c = true)
    (hafter : ∀ c ∈ after, isBlank c = true) (hne : core ≠ [])
    (hcore : ∀ c ∈ core, isBlank c = false) :
    trim (String.ofList (before ++ (core ++ after))) = String.ofList core := by
  rw [trim, String.toList_ofList, trimList_surrounded hbefore hafter hne hcore]

end RowStream.Text
