import RowStream.Command.Run
import RowStream.Proofs.Text.Utf8

/-!
# Lines

The lines of a file are taken off one after the other: the first one, the end of it, and the lines of
what is left (`exists_first_line`). The end of a line is made of ASCII characters, so a file that is text
has lines that are.

* `isSome_of_mem_lines`: the lines of a text are texts.
* `lines_flatMap`: lines that are put one after the other, each with a line feed, come back.
-/

namespace RowStream.Command

variable {bytes line : List UInt8}

/-- What ends a line: a line feed, perhaps with a carriage return before it, or the end of the file. -/
def IsEnding (ending rest : List UInt8) : Prop :=
  ending = [10] ∨ ending = [13, 10] ∨ ending = [] ∧ rest = []

/-- **The first line of a file, its end, and the lines of the rest.** -/
theorem exists_first_line (h : bytes ≠ []) : ∃ line ending rest,
    bytes = line ++ (ending ++ rest) ∧ IsEnding ending rest ∧
      lines bytes = line :: lines rest := by
  induction bytes using lines.induct with
  | case1 => exact absurd rfl h
  | case2 bytes => exact ⟨[], [10], bytes, rfl, .inl rfl, by rw [lines]⟩
  | case3 bytes => exact ⟨[], [13, 10], bytes, rfl, .inr (.inl rfl), by rw [lines]⟩
  | case4 b bytes hlf hcr hnil ih =>
    cases bytes with
    | nil => exact ⟨[b], [], [], rfl, .inr (.inr ⟨rfl, rfl⟩), by simp [lines]⟩
    | cons x bytes =>
      obtain ⟨line, ending, rest, -, -, hlines⟩ := ih (by simp)
      exact absurd (hnil.symm.trans hlines) (by simp)
  | case5 b bytes hlf hcr first more hcons ih =>
    have hne : bytes ≠ [] := by
      rintro rfl
      exact absurd hcons (by simp [lines])
    obtain ⟨line, ending, rest, heq, hending, hlines⟩ := ih hne
    refine ⟨b :: line, ending, rest, by rw [heq]; rfl, hending, ?_⟩
    rw [lines, hlines]
    · exact hlf
    · exact hcr

/-- **The lines of a text are texts.** -/
theorem isSome_of_mem_lines (h : (Utf8.decode bytes).isSome) (hline : line ∈ lines bytes) :
    (Utf8.decode line).isSome := by
  simp only [Utf8.decode, Option.isSome_map] at h ⊢
  induction hn : bytes.length using Nat.strongRecOn generalizing bytes with
  | ind n ih =>
    by_cases hne : bytes = []
    · subst hne
      exact absurd hline (by simp [lines])
    obtain ⟨first, ending, rest, rfl, hending, hlines⟩ := exists_first_line hne
    have hcut : (Utf8.decodeChars first).isSome ∧ (Utf8.decodeChars rest).isSome := by
      rcases hending with rfl | rfl | ⟨rfl, rfl⟩
      · exact Utf8.isSome_of_ascii (by decide) h
      · obtain ⟨hfirst, hrest⟩ := Utf8.isSome_of_ascii (by decide) h
        have hfeed : (Utf8.decodeChars ([] ++ 10 :: rest)).isSome := hrest
        exact ⟨hfirst, (Utf8.isSome_of_ascii (by decide) hfeed).2⟩
      · rw [List.append_nil, List.append_nil] at h
        exact ⟨h, rfl⟩
    rw [hlines] at hline
    rcases List.mem_cons.mp hline with rfl | hline
    · exact hcut.1
    · have hshorter : rest.length < n := by
        subst hn
        rcases hending with rfl | rfl | ⟨rfl, rfl⟩
        · simp only [List.length_append, List.length_cons]
          omega
        · simp only [List.length_append, List.length_cons]
          omega
        · exact absurd hline (by simp [lines])
      exact ih rest.length hshorter hline hcut.2 rfl

/-! ## Lines put one after the other -/

/-- A line that holds no end of a line is taken off as it is. -/
theorem lines_append (h : ∀ b ∈ line, b ≠ 10 ∧ b ≠ 13) (rest : List UInt8) :
    lines (line ++ 10 :: rest) = line :: lines rest := by
  induction line with
  | nil => rw [List.nil_append, lines]
  | cons b line ih =>
    obtain ⟨hb, hline⟩ := List.forall_mem_cons.mp h
    rw [List.cons_append, lines, ih hline]
    · rintro rfl
      exact hb.1 rfl
    · rintro rest rfl
      exact absurd rfl hb.2

theorem lines_flatMap {ls : List (List UInt8)} (h : ∀ line ∈ ls, ∀ b ∈ line, b ≠ 10 ∧ b ≠ 13) :
    lines (ls.flatMap fun line => line ++ [10]) = ls := by
  induction ls with
  | nil => rw [List.flatMap_nil, lines]
  | cons line ls ih =>
    obtain ⟨hline, hls⟩ := List.forall_mem_cons.mp h
    rw [List.flatMap_cons, List.append_assoc, List.singleton_append, lines_append hline, ih hls]

end RowStream.Command
