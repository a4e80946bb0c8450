import RowStream.Proofs.Table.Compiled

/-!
# Columns that cannot be compiled

A column is refused when its type has no values in messages, or else when its mode is unknown
(`Column.Refused`). The first such column in the order of the schema stops the compilation, and the fault
is about it.

Not every column is looked at, though, since some are passed over (`Scope.Compiles`). When a column is
reached, the files are those of the names that were asked for up to there (`Knows`). This is the invariant
of the induction over the columns, which takes the places from one column up to the next in one step.

* `refused_or_ok`: one column.
* `runs`: columns are compiled up to the first that is refused.
* `refused_exactly`: which schemas are refused, and for which column.
-/

namespace RowStream.Table

open Descriptor (Dialect FieldType Label)

/-! ## Refused columns -/

/-- The types that have no values in messages. -/
def ColumnType.unmapped : List ColumnType := [.unspecified, .interval, .range]

/-- What is said of a column that cannot be compiled: its type has no values in messages, or else its
mode is unknown. -/
inductive Column.Refused (c : Column) : Unsupported → Prop
  | unknownType (type : ColumnType.ofNumber? c.type = none) :
    Refused c (.type c.name (Integer.text c.type.toInt))
  | unmappedType {t : ColumnType} (type : ColumnType.ofNumber? c.type = some t)
      (unmapped : t ∈ ColumnType.unmapped) : Refused c (.type c.name t.name)
  | unknownMode {t : ColumnType} (type : ColumnType.ofNumber? c.type = some t)
      (mapped : t ∉ ColumnType.unmapped) (mode : Mode.ofNumber? c.mode = none) :
    Refused c (.mode c.name (Integer.text c.mode.toInt))

/-- What is said of a refused column is one thing. -/
theorem Column.Refused.unique {c : Column} {u v : Unsupported} (hu : c.Refused u) (hv : c.Refused v) :
    u = v := by
  cases hu <;> cases hv <;> simp_all

namespace Compile

variable {dialect : Dialect} {c : Column} {u : Unsupported}

/-- The types that have no values are refused, and no others. -/
theorem wireType_cases {ct : ColumnType} (h : ColumnType.ofNumber? c.type = some ct) :
    (ct ∈ ColumnType.unmapped ∧ wireType c = .error (.type c.name ct.name)) ∨
      ct ∉ ColumnType.unmapped ∧ ∃ t, wireType c = .ok t := by
  simp only [wireType, h]
  cases ct
  case unspecified | interval | range => exact .inl ⟨by decide, rfl⟩
  case timestamp =>
    refine .inr ⟨by decide, ?_⟩
    simp only
    split
    · split <;> exact ⟨_, rfl⟩
    · exact ⟨_, rfl⟩
  all_goals exact .inr ⟨by decide, _, rfl⟩

theorem label_cases (dialect : Dialect) (c : Column) :
    (Mode.ofNumber? c.mode = none ∧
      label dialect c = .error (.mode c.name (Integer.text c.mode.toInt))) ∨
      (∃ m, Mode.ofNumber? c.mode = some m) ∧ ∃ l, label dialect c = .ok l := by
  simp only [label]
  cases Mode.ofNumber? c.mode with
  | none => exact .inl ⟨rfl, rfl⟩
  | some m =>
    refine .inr ⟨⟨m, rfl⟩, ?_⟩
    cases m <;> cases dialect <;> exact ⟨_, rfl⟩

/-- **A column is refused, or it has a type and a label.** -/
theorem refused_or_ok (dialect : Dialect) (c : Column) :
    (∃ u, c.Refused u ∧
      (wireType c = .error u ∨ ∃ t, wireType c = .ok t ∧ label dialect c = .error u)) ∨
      (∃ t l, wireType c = .ok t ∧ label dialect c = .ok l) ∧ ∀ u, ¬ c.Refused u := by
  cases htype : ColumnType.ofNumber? c.type with
  | none =>
    refine .inl ⟨_, .unknownType htype, .inl ?_⟩
    simp only [wireType, htype]
  | some ct =>
    rcases wireType_cases htype with ⟨hct, herror⟩ | ⟨hct, t, ht⟩
    · exact .inl ⟨_, .unmappedType htype hct, .inl herror⟩
    rcases label_cases dialect c with ⟨hmode, herror⟩ | ⟨⟨m, hmode⟩, l, hl⟩
    · exact .inl ⟨_, .unknownMode htype hct hmode, .inr ⟨t, ht, herror⟩⟩
    refine .inr ⟨⟨t, l, ht, hl⟩, fun u hu => ?_⟩
    cases hu with
    | unknownType h => exact absurd (htype.symm.trans h) (by simp)
    | unmappedType h hmem => exact hct (Option.some.inj (htype.symm.trans h) ▸ hmem)
    | unknownMode _ _ h => exact absurd (hmode.symm.trans h) (by simp)

end Compile

/-! ## What compiling comes to -/

namespace Compile

variable {dialect : Dialect} {root s : Scope} {p a b d : List Nat} {k number : Nat} {c : Column}
  {cs : List Column} {u : Unsupported} {fs : List Descriptor.File}

/-- No compiled column from the place `a` on and before `b` is refused. -/
def Clear (root : Scope) (a b : List Nat) : Prop :=
  ∀ q i c, root.Compiles q i c → a ≤ q ++ [i] → q ++ [i] < b → ∀ u, ¬ c.Refused u

/-- The first compiled column from `a` on and before `b` that is refused, and what is said of it. -/
def FirstRefused (root : Scope) (a b : List Nat) (u : Unsupported) : Prop :=
  ∃ q i c, root.Compiles q i c ∧ a ≤ q ++ [i] ∧ q ++ [i] < b ∧ c.Refused u ∧ Clear root a (q ++ [i])

/-- The files are those of the names that were asked for. -/
def Knows (root : Scope) (p b : List Nat) (fs : List Descriptor.File) : Prop :=
  ∀ n, isTaken fs (fileName n) = true ↔ root.Asked p b n

/-- What compiling the columns from `a` on and before `b` of the scope at `p` comes to. -/
def Outcome (root : Scope) (p a b : List Nat) : Except Unsupported (List Descriptor.File) → Prop
  | .ok fs => Clear root a b ∧ Knows root p b fs
  | .error u => FirstRefused root a b u

theorem Clear.trans (h : Clear root a b) (h' : Clear root b d) : Clear root a d :=
  fun q i c hc ha hd => (lt_or_ge (q ++ [i]) b).elim (h q i c hc ha) fun hb => h' q i c hc hb hd

theorem FirstRefused.mono (h : FirstRefused root a b u) (hb : b ≤ d) : FirstRefused root a d u := by
  obtain ⟨q, i, c, hc, ha, hlt, hu, hclear⟩ := h
  exact ⟨q, i, c, hc, ha, lt_of_lt_of_le hlt hb, hu, hclear⟩

theorem FirstRefused.after (h : FirstRefused root b d u) (hclear : Clear root a b) (hab : a ≤ b) :
    FirstRefused root a d u := by
  obtain ⟨q, i, c, hc, hb, hlt, hu, hrest⟩ := h
  exact ⟨q, i, c, hc, le_trans hab hb, hlt, hu, hclear.trans hrest⟩

/-- A column that is not refused is clear by itself. -/
theorem clear_column (hs : root.at? p = some s) (hc : s.columns[k]? = some c)
    (hok : ∀ u, ¬ c.Refused u) : Clear root (p ++ [k]) (p ++ [k] ++ [0]) := by
  rintro q i x ⟨-, s', hs', hx⟩ hlow hhigh
  have heq : q ++ [i] = p ++ [k] :=
    le_antisymm (not_lt.mp fun h => absurd hhigh (not_lt_of_ge (Scope.concat_zero_le h))) hlow
  obtain ⟨rfl, hik⟩ := List.append_inj' heq rfl
  obtain rfl : i = k := by simpa using hik
  obtain rfl : s = s' := Option.some.inj (hs.symm.trans hs')
  obtain rfl : c = x := Option.some.inj (hc.symm.trans hx)
  exact hok

/-- Up to the next column is as far as the columns below a column go, if they are compiled at all. -/
theorem clear_next (h : Clear root (p ++ [k]) (p ++ [k] ++ [0]))
    (hin : ∀ t, root.at? (p ++ [k]) = some t → root.Opens (p ++ [k]) →
      Clear root (p ++ [k] ++ [0]) (p ++ [k] ++ [t.columns.length])) :
    Clear root (p ++ [k]) (p ++ [k + 1]) := by
  intro q i x hx hlow hhigh
  rcases hx.next hhigh with hlt | heq | ⟨hopen, t, ht, hbelow, hlast⟩
  · exact absurd hlt (not_lt_of_ge hlow)
  · exact h q i x hx hlow (heq ▸ lt_concat (p ++ [k]) 0)
  · exact hin t ht hopen q i x hx (Scope.concat_zero_le hbelow) hlast

/-- What compiling columns of the scope at a place comes to, those after `done`. -/
def Runs (dialect : Dialect) (root : Scope) (cs : List Column) : Prop :=
  ∀ (done : List Column) (number : Nat) (draft : Draft) {p : List Nat} {s : Scope}
    {fs : List Descriptor.File}, root.at? p = some s → s.columns = done ++ cs → root.Opens p →
    Knows root p (p ++ [done.length]) fs →
    Outcome root p (p ++ [done.length]) (p ++ [s.columns.length])
      ((fields dialect s.name number cs draft fs).map (·.2))

theorem isTaken_addFile {name : String} {draft : Draft} {n : String} :
    isTaken (addFile dialect name draft fs) (fileName n) = true ↔
      isTaken fs (fileName n) = true ∨ n = name := by
  unfold addFile
  split
  · rename_i htaken
    exact ⟨.inl, fun h => h.elim id fun heq => heq ▸ htaken⟩
  · rw [eq_comm (a := n)]
    simp [isTaken, fileName_inj]

/-- **The message of a STRUCT column**: its name was asked for before, or it is compiled with those
below. -/
theorem nested_outcome {t : Scope} (hcols : Runs dialect root t.columns) (hp : root.Opens p)
    (ht : root.at? (p ++ [k]) = some t) (hc : Clear root (p ++ [k]) (p ++ [k] ++ [0]))
    (hk : Knows root p (p ++ [k]) fs) :
    Outcome root p (p ++ [k]) (p ++ [k + 1]) (nested dialect t fs) := by
  have hiff := Scope.opens_iff_not_asked hp ht
  rw [← hk t.name] at hiff
  unfold nested
  split
  · rename_i htaken
    have hnot : ¬ root.Opens (p ++ [k]) := fun h => hiff.mp h htaken
    refine ⟨clear_next hc fun _ _ h => absurd h hnot, fun n => ?_⟩
    rw [hk n, Scope.asked_next_of_not hnot]
    intro t' ht'
    obtain rfl : t = t' := Option.some.inj (ht.symm.trans ht')
    exact (hk t.name).mp htaken
  · rename_i hfree
    have hopen : root.Opens (p ++ [k]) := hiff.mpr hfree
    have hinner : Knows root (p ++ [k]) (p ++ [k] ++ [0]) fs := fun n =>
      (hk n).trans Scope.asked_enter.symm
    have hout := hcols [] 1 {} ht rfl hopen hinner
    rw [scope]
    cases hfields : fields dialect t.name 1 t.columns {} fs with
    | error u =>
      rw [hfields] at hout
      have hlast : p ++ [k] ++ [t.columns.length] ≤ p ++ [k + 1] :=
        le_of_lt (Scope.lt_next_iff.mpr (.inr ⟨_, rfl⟩))
      exact (hout.mono hlast).after hc (le_of_lt (lt_concat _ 0))
    | ok r =>
      obtain ⟨draft, fs₁⟩ := r
      rw [hfields] at hout
      obtain ⟨hclear, hknows⟩ := hout
      refine ⟨clear_next hc fun t' ht' _ => ?_, fun n => ?_⟩
      · obtain rfl : t = t' := Option.some.inj (ht.symm.trans ht')
        exact hclear
      · rw [isTaken_addFile, hknows n, Scope.asked_next ht hopen]

/-- A column that is not refused leaves the files to the message that it refers to. -/
theorem field_files {t : FieldType} {l : Label} (ht : wireType c = .ok t) (hl : label dialect c = .ok l)
    (name : String) (number : Nat) (draft : Draft) :
    (field dialect name number c draft fs).map (·.2) = refer dialect name c t fs := by
  rw [field_eq, ht, hl]
  change Except.map _ (refer dialect name c t fs >>= _) = _
  cases refer dialect name c t fs <;> rfl

/-- **One column**, with those below it. -/
theorem field_outcome (hcols : Runs dialect root c.columns) (hs : root.at? p = some s)
    (hc : s.columns[k]? = some c) (hp : root.Opens p) (hk : Knows root p (p ++ [k]) fs)
    (number : Nat) (draft : Draft) : Outcome root p (p ++ [k]) (p ++ [k + 1])
      ((field dialect s.name number c draft fs).map (·.2)) := by
  rcases refused_or_ok dialect c with ⟨u, hu, herror⟩ | ⟨⟨t, l, ht, hl⟩, hok⟩
  · have hfirst : FirstRefused root (p ++ [k]) (p ++ [k + 1]) u :=
      ⟨p, k, c, ⟨hp, s, hs, hc⟩, le_refl _, Scope.lt_next_iff.mpr (.inr ⟨[], by simp⟩), hu,
        fun _ _ _ _ hlow hhigh => absurd hhigh (not_lt_of_ge hlow)⟩
    rw [field_eq]
    rcases herror with htype | ⟨t, ht, hlabel⟩
    · rw [htype]
      exact hfirst
    · rw [ht, hlabel]
      exact hfirst
  · have hself := clear_column hs hc hok
    rw [field_files ht hl]
    unfold refer
    split
    · rename_i hm
      have hplace : root.at? (p ++ [k]) = some ⟨nestedName s.name c.name, c.columns⟩ := by
        rw [Scope.at?_concat, hs]
        exact Scope.sub?_eq_some.mpr ⟨c, hc, (eq_message_iff ht).mp hm, rfl⟩
      exact nested_outcome hcols hp hplace hself hk
    · rename_i hm
      have hnone : ∀ t', root.at? (p ++ [k]) ≠ some t' := by
        intro t' ht'
        rw [Scope.at?_concat, hs] at ht'
        obtain ⟨c', hc', hstruct, -⟩ := Scope.sub?_eq_some.mp ht'
        obtain rfl : c = c' := Option.some.inj (hc.symm.trans hc')
        exact hm ((eq_message_iff ht).mpr hstruct)
      have hnot : ¬ root.Opens (p ++ [k]) := fun h => h.at?.elim hnone
      refine ⟨clear_next hself fun _ _ h => absurd h hnot, fun n => ?_⟩
      rw [hk n, Scope.asked_next_of_not hnot fun t' ht' => absurd ht' (hnone t')]

/-- **Columns run through** up to the first that is refused. -/
theorem runs (dialect : Dialect) (root : Scope) (cs : List Column) : Runs dialect root cs := by
  induction cs using Column.list_induct with
  | nil =>
    intro done number draft p s fs hs hcols hp hk
    rw [List.append_nil] at hcols
    rw [fields, hcols]
    exact ⟨fun _ _ _ _ hlow hhigh => absurd hhigh (not_lt_of_ge hlow), hk⟩
  | cons c cs ihc ih =>
    intro done number draft p s fs hs hcols hp hk
    have hlength : (done ++ [c]).length = done.length + 1 := by simp
    have hle : done.length + 1 ≤ s.columns.length := by simp [hcols]
    have hfirst := field_outcome ihc hs (by simp [hcols]) hp hk number draft
    rw [fields]
    cases hfield : field dialect s.name number c draft fs with
    | error u =>
      rw [hfield] at hfirst
      exact hfirst.mono (Scope.concat_le hle)
    | ok r =>
      obtain ⟨draft', fs'⟩ := r
      rw [hfield] at hfirst
      obtain ⟨hclear, hknows⟩ := hfirst
      rw [← hlength] at hclear hknows
      have hrest := ih (done ++ [c]) (number + 1) draft' hs (by simp [hcols]) hp hknows
      change Outcome root p _ _ ((fields dialect s.name (number + 1) cs draft' fs').map (·.2))
      cases hfields : fields dialect s.name (number + 1) cs draft' fs' with
      | error u =>
        rw [hfields] at hrest
        exact FirstRefused.after hrest hclear (Scope.concat_le (by simp))
      | ok r =>
        rw [hfields] at hrest
        exact ⟨hclear.trans hrest.1, hrest.2⟩

end Compile

/-! ## Names of scopes -/

namespace Scope

/-- No scope before the one at a path has its name. -/
def Foremost (root : Scope) (p : List Nat) : Prop :=
  ∀ q < p, ∀ s t, root.at? q = some s → root.at? p = some t → s.name ≠ t.name

/-- None of the scopes on a path, the last one included, has the name of an earlier scope. -/
def Owns (root : Scope) (p : List Nat) : Prop :=
  ∀ q, q <+: p → root.Foremost q

theorem Owns.init {root : Scope} {p : List Nat} {i : Nat} (h : root.Owns (p ++ [i])) :
    root.Owns p := fun q hq => h q (hq.trans (List.prefix_append p [i]))

/-- Where no scope has the name of an earlier one, all columns are compiled. -/
theorem Owns.opens {root t : Scope} {p : List Nat} (h : root.Owns p) (ht : root.at? p = some t) :
    root.Opens p := by
  induction p using List.reverseRecOn generalizing t with
  | nil => exact opens_nil root
  | append_singleton p i ih =>
    obtain ⟨s, hs, -⟩ := Option.bind_eq_some_iff.mp (at?_concat root p i ▸ ht)
    refine (opens_concat_iff ht).mpr ⟨ih h.init hs, fun q j u hlt _ hu => ?_⟩
    exact h _ (List.prefix_refl _) _ hlt u t hu ht

end Scope

/-! ## Schemas -/

/-- **A schema is refused exactly for its compiled columns**, and the first of them that cannot be
compiled is named. -/
theorem refused_exactly (s : Schema) (name : String) (dialect : Dialect) :
    let root : Scope := ⟨name, s.columns⟩
    (∀ u, Compile.files s name dialect = .error u ↔ ∃ p i c, root.Compiles p i c ∧ c.Refused u ∧
      ∀ q j d, root.Compiles q j d → q ++ [j] < p ++ [i] → ∀ v, ¬ d.Refused v) ∧
    ((∃ fs, Compile.files s name dialect = .ok fs) ↔
      ∀ p i c, root.Compiles p i c → ∀ u, ¬ c.Refused u) ∧
    ∀ p t, root.at? p = some t → root.Owns p → root.Opens p := by
  intro root
  have hnone : Compile.Knows root [] [0] [] := by
    intro n
    refine ⟨fun h => by simp [Compile.isTaken] at h, ?_⟩
    rintro ⟨q, i, u, -, -, -, hlt, -⟩
    exact absurd hlt (not_lt_of_ge (Scope.concat_zero_le (Scope.nil_lt_concat q i)))
  have hout := Compile.runs dialect root s.columns [] 1 {} (p := []) rfl rfl
    (Scope.opens_nil root) hnone
  have hfiles : Compile.files s name dialect = Compile.fields dialect name 1 s.columns {} [] >>= fun r =>
      pure (Compile.addFile dialect name r.1 r.2) := by
    rw [Compile.files, Compile.scope]
  cases hfields : Compile.fields dialect name 1 s.columns {} [] with
  | error v =>
    rw [hfields] at hfiles hout
    have herror : Compile.files s name dialect = .error v := hfiles
    obtain ⟨q, j, d, hd, hlow, -, hv, hclear⟩ := hout
    have hbefore : ∀ q' j' d', root.Compiles q' j' d' → q' ++ [j'] < q ++ [j] → ∀ w, ¬ d'.Refused w :=
      fun q' j' d' hd' hlt => hclear q' j' d' hd' hd'.bounds.1 hlt
    refine ⟨fun u => ⟨fun h => ?_, ?_⟩, ⟨?_, fun h => absurd hv (h q j d hd v)⟩, fun p t ht hp => hp.opens ht⟩
    · obtain rfl : v = u := Except.error.inj (herror.symm.trans h)
      exact ⟨q, j, d, hd, hv, hbefore⟩
    · rintro ⟨p, i, c, hc, hu, hfirst⟩
      have hpos : p ++ [i] = q ++ [j] := le_antisymm (not_lt.mp fun h => hfirst q j d hd h v hv)
        (not_lt.mp fun h => hbefore p i c hc h u hu)
      obtain rfl : c = d := hc.unique hd hpos
      rw [herror, hu.unique hv]
    · rintro ⟨fs, h⟩
      exact absurd (herror.symm.trans h) (by simp)
  | ok r =>
    rw [hfields] at hfiles hout
    have hclear : ∀ p i c, root.Compiles p i c → ∀ u, ¬ c.Refused u := fun p i c hc =>
      hout.1 p i c hc hc.bounds.1 hc.bounds.2
    refine ⟨fun u => ⟨fun h => absurd (hfiles.symm.trans h) (by simp [pure, Except.pure, bind, Except.bind]), ?_⟩,
      ⟨fun _ => hclear, fun _ => ⟨_, hfiles⟩⟩, fun p t ht hp => hp.opens ht⟩
    rintro ⟨p, i, c, hc, hu, -⟩
    exact absurd hu (hclear p i c hc u)

/-- Two refused columns in one STRUCT column: the schema is refused for the first, whose mode is unknown,
and not for the one after it. -/
theorem refused_in_order :
    let x : Column := { name := "x", type := 2, mode := 9 }
    let y : Column := { name := "y", type := 14 }
    let a : Column := { name := "a", type := 4, columns := [x, y] }
    Compile.files ⟨[a]⟩ "root" .proto3 = .error (.mode "x" "9") := by
  intro x y a
  have hlocated : (Scope.mk "root" [a]).at? [0] = some ⟨"root_a", [x, y]⟩ := rfl
  have hopens : (Scope.mk "root" [a]).Opens [0] := by
    refine (Scope.opens_concat_iff (p := []) hlocated).mpr ⟨Scope.opens_nil _, fun q j u hlt _ _ => ?_⟩
    cases q <;> simp [List.cons_lt_cons_iff] at hlt
  refine ((refused_exactly ⟨[a]⟩ "root" .proto3).1 _).mpr ⟨[0], 0, x, ⟨hopens, _, hlocated, rfl⟩, ?_, ?_⟩
  · have hnumber : Integer.text (9 : Int32).toInt = "9" := by decide +kernel
    exact hnumber ▸ Column.Refused.unknownMode (c := x) (t := .int64) (by decide) (by decide) (by decide)
  · rintro q j d ⟨-, s, hs, hd⟩ hlt v hv
    -- only the STRUCT column itself is before its first column
    cases q with
    | nil =>
      obtain rfl : j = 0 := by simpa [List.cons_lt_cons_iff] using hlt
      obtain rfl : Scope.mk "root" [a] = s := Option.some.inj hs
      obtain rfl : a = d := Option.some.inj hd
      cases hv with
      | unknownType h => exact absurd h (by decide)
      | unmappedType h hmem =>
        obtain rfl : ColumnType.struct = _ := Option.some.inj h
        exact absurd hmem (by decide)
      | unknownMode _ _ h => exact absurd h (by decide)
    | cons k q =>
      have hinside : k = 0 ∧ q ++ [j] < [0] := by simpa [List.cons_lt_cons_iff] using hlt
      exact absurd hinside.2 (not_lt_of_ge (Scope.concat_zero_le (Scope.nil_lt_concat q j)))

/-- A STRUCT column of a name that an earlier one has: its columns are passed over, also one that
cannot be compiled. -/
theorem passed_over :
    let x : Column := { name := "x", type := 2 }
    let y : Column := { name := "y", type := 14 }
    let b : Column := { name := "b", type := 4, columns := [x] }
    let s : Schema := ⟨[{ name := "a", type := 4, columns := [b] },
      { name := "a_b", type := 4, columns := [y] }]⟩
    (∃ fs, Compile.files s "root" .proto2 = .ok fs) ∧
      (Scope.mk "root" s.columns).at? [1] = some ⟨"root_a_b", [y]⟩ ∧
      y.Refused (.type "y" "INTERVAL") := by
  intro x y b s
  exact ⟨⟨_, rfl⟩, rfl, .unmappedType (t := .interval) (by decide) (by decide)⟩

end RowStream.Table
