import RowStream.Text.Search

/-!
# Searching text, and dotted names

A text occurs in another where its characters stand in a row there.

A full name is the name of a scope, a dot and a name in the scope. References write it with one more
dot in front.
-/

namespace RowStream.Text

theorem containsList_iff {p s : List Char} : containsList p s = true ↔ p <:+: s := by
  induction s with
  | nil => simp [containsList]
  | cons c s ih => rw [containsList, Bool.or_eq_true, ih, List.isPrefixOf_iff_prefix, List.infix_cons_iff]

theorem contains_iff {s p : String} : contains s p = true ↔ p.toList <:+: s.toList :=
  containsList_iff

theorem dropDot_dot (s : String) : dropDot ("." ++ s) = s := by
  simp [dropDot, String.toList_append]

/-- A name without a leading dot stays, and any other gets shorter. -/
theorem length_dropDot_lt {s : String} (h : dropDot s ≠ s) : (dropDot s).length < s.length := by
  unfold dropDot at h ⊢
  split
  · rename_i cs heq
    rw [← String.length_toList, ← String.length_toList, heq, String.toList_ofList]
    exact Nat.lt_succ_self _
  · rename_i hother
    split at h
    · rename_i cs heq
      exact absurd heq (hother cs)
    · exact absurd rfl h

theorem dropDot_eq_self {s : String} : dropDot s = s ↔ s.toList.head? ≠ some '.' := by
  unfold dropDot
  split
  · rename_i cs heq
    refine ⟨fun h => absurd (congrArg String.length h) ?_, fun h => absurd (by rw [heq]; rfl) h⟩
    rw [← String.length_toList, ← String.length_toList, heq, String.toList_ofList]
    exact Nat.ne_of_lt (Nat.lt_succ_self _)
  · rename_i hother
    refine ⟨fun _ hhead => ?_, fun _ => rfl⟩
    obtain ⟨cs, hcs⟩ := List.head?_eq_some_iff.mp hhead
    exact hother cs hcs

/-- A reference to a name without a leading dot loses the one in front. -/
theorem dropDots_dot {s : String} (h : s.toList.head? ≠ some '.') : dropDots ("." ++ s) = s := by
  have hrest : s.toList.dropWhile (· == '.') = s.toList := by
    cases hs : s.toList with
    | nil => rfl
    | cons c cs =>
      have hc : c ≠ '.' := by simpa [hs] using h
      exact List.dropWhile_cons_of_neg (by simpa using hc)
  simp [dropDots, String.toList_append, hrest]

@[simp] theorem qualify_empty (name : String) : qualify "" name = name := if_pos rfl

theorem qualify_of_ne {scope : String} (h : scope ≠ "") (name : String) :
    qualify scope name = scope ++ "." ++ name := if_neg h

theorem qualify_inj {scope a b : String} : qualify scope a = qualify scope b ↔ a = b := by
  unfold qualify
  split
  · rfl
  · exact String.append_right_inj _

end RowStream.Text
