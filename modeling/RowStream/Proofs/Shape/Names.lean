import RowStream.Proofs.Shape.Contained

/-!
# Names inside a descriptor that stands alone

Messages, enums and the values of enums share one scope once they lie in the root. Before, each had a full
name of its own. Two steps on the way can make names meet: dots and underscores become the same in the
names of types, and values leave the scope of their enum without a change of their names.

So the names inside are distinct exactly if what the root leads to keeps apart (`NamesApart`). Types do where
no name has an underscore, and values do where they shared a scope before.

* `nodup_definedNames_iff`: when the names inside are distinct, for what was collected.
* `flatName_inj`: types whose names have no underscores.
* `value_unique`: values of one scope.
* `distinct_iff_apart`: what this makes of the messages of any pool.
-/

namespace RowStream.Shape

open Pool (Message Enum)

variable {p : Pool} {c : Collected} {m : Message}

/-- The names that are defined inside the root: those of messages, of enums and of the values of enums. -/
def definedNames (d : Descriptor.Message) : List String :=
  d.nested.map (·.nameText) ++ d.enums.map (·.nameText) ++
    d.enums.flatMap fun e => e.values.map (·.nameText)

/-- The names that the messages and the enums get inside the root, and those that values keep, stay
apart. -/
structure NamesApart (lies : Message → Prop) (used : Enum → Prop) : Prop extends TypesApart lies used where
  values : ∀ e, used e → ∀ e', used e' → ∀ v ∈ e.descriptor.values, ∀ v' ∈ e'.descriptor.values,
    v'.nameText = v.nameText → e = e'
  valueMessage : ∀ x, lies x → ∀ e, used e → ∀ v ∈ e.descriptor.values, v.nameText ≠ flatName x.fullName
  valueEnum : ∀ e', used e' → ∀ e, used e → ∀ v ∈ e.descriptor.values,
    v.nameText ≠ flatName e'.fullName

/-- Lists side by side have no member twice if none of them does and they have no member in common. -/
theorem nodup_flatMap_iff {α β : Type} {l : List α} {f : α → List β} (hl : l.Nodup)
    (hf : ∀ a ∈ l, (f a).Nodup) :
    (l.flatMap f).Nodup ↔ ∀ a ∈ l, ∀ b ∈ l, ∀ x ∈ f a, ∀ y ∈ f b, y = x → a = b := by
  rw [List.nodup_flatMap, and_iff_right hf]
  constructor
  · intro hpairs a ha b hb x hx y hy heq
    have : Std.Symm (Function.onFun List.Disjoint f) := ⟨fun _ _ h _ hx hx' => h hx' hx⟩
    by_contra hne
    exact hpairs.forall ha hb hne hx (heq ▸ hy)
  · intro hall
    refine hl.imp_of_mem fun {a b} ha hb hne => List.disjoint_left.mpr fun x hx hx' => ?_
    exact hne (hall a ha b hb x hx x hx' rfl)

/-- **The names inside the root are distinct** exactly if those of what was collected stay apart. -/
theorem nodup_definedNames_iff (hmessages : c.messages.Nodup) (henums : c.enums.Nodup)
    (hvalues : ∀ e ∈ c.enums, (e.descriptor.values.map (·.nameText)).Nodup) :
    (definedNames (withInner m c)).Nodup ↔ NamesApart (· ∈ c.messages) (· ∈ c.enums) := by
  have hnested : (withInner m c).nested.map (·.nameText) = c.messages.map (flatName ·.fullName) := by
    rw [withInner, List.map_map]
    rfl
  have hinner : (withInner m c).enums.map (·.nameText) = c.enums.map (flatName ·.fullName) := by
    rw [withInner, List.map_map]
    rfl
  have hflat : ((withInner m c).enums.flatMap fun e => e.values.map (·.nameText)) =
      c.enums.flatMap fun e => e.descriptor.values.map (·.nameText) := by
    rw [withInner, List.flatMap_map]
  rw [definedNames, List.nodup_append', nodup_typeNames_iff hmessages henums, hnested, hinner, hflat,
    nodup_flatMap_iff henums hvalues, List.disjoint_append_left]
  simp only [List.disjoint_left, List.mem_map, List.mem_flatMap, forall_exists_index, and_imp,
    forall_apply_eq_imp_iff₂, not_exists, not_and]
  constructor
  · rintro ⟨htypes, hv, hvm, hve⟩
    exact ⟨htypes, hv, fun x hx e hem v hmem => hvm x hx e hem v hmem,
      fun e' he' e hem v hmem => hve e' he' e hem v hmem⟩
  · intro h
    exact ⟨h.toTypesApart, h.values, h.valueMessage, h.valueEnum⟩

/-! ## Names that never meet -/

/-- Names without underscores keep apart when their dots become underscores. -/
theorem flatName_inj {a b : String} (ha : '_' ∉ a.toList) (hb : '_' ∉ b.toList)
    (h : flatName a = flatName b) : a = b := by
  have hback {s : String} (hs : '_' ∉ s.toList) :
      (flatName s).toList.map (fun c => if c = '_' then '.' else c) = s.toList := by
    rw [flatName, Text.underscored, String.toList_ofList, List.map_map]
    refine (List.map_congr_left fun c hc => ?_).trans (List.map_id _)
    have hc : c ≠ '_' := fun heq => hs (heq ▸ hc)
    by_cases hdot : c = '.' <;> simp [hc, hdot]
  exact String.toList_inj.mp (by rw [← hback ha, ← hback hb, h])

section Values

variable {files : List Descriptor.File} {e e' : Enum}

/-- The values of an enum have names of their own. -/
theorem nodup_values (h : Pool.ofFiles files = .ok p) (he : e ∈ p.enums) :
    (e.descriptor.values.map (·.nameText)).Nodup := by
  have hall := (List.nodup_append'.mp (Pool.nodup_of_ofFiles h)).2.1
  have hown : (e.valueNames).Nodup := (List.nodup_flatMap.mp hall).1 e he
  refine List.Nodup.of_map (Text.qualify e.scope) ?_
  rwa [List.map_map]

/-- **Enums of one scope have no value name in common.** -/
theorem eq_of_value (h : Pool.ofFiles files = .ok p) (he : e ∈ p.enums) (he' : e' ∈ p.enums)
    (hscope : e.scope = e'.scope) {v v' : Descriptor.EnumValue} (hv : v ∈ e.descriptor.values)
    (hv' : v' ∈ e'.descriptor.values) (hname : v.nameText = v'.nameText) : e = e' := by
  have hnames := Pool.nodup_of_ofFiles h
  obtain ⟨htypes, hall, -⟩ := List.nodup_append'.mp hnames
  have henums := (List.nodup_append'.mp htypes).2.1.of_map
  refine (nodup_flatMap_iff henums (List.nodup_flatMap.mp hall).1).mp hall e he e' he' _
    (List.mem_map_of_mem hv) _ (List.mem_map_of_mem hv') ?_
  rw [hscope, hname]

end Values

/-! ## Messages of any pool -/

/-- **The names inside a descriptor that stands alone.** For a message of a pool of any files that can be
inlined

* they are distinct exactly if what the message leads to keeps apart;
* messages and enums do if no full name has an underscore;
* values do in enums that were declared in one scope. -/
theorem distinct_iff_apart {files : List Descriptor.File} (h : Pool.ofFiles files = .ok p)
    {d : Descriptor.Message} (hd : inline ⟨p, m⟩ = .ok d) :
    ((definedNames d).Nodup ↔ NamesApart (p.Descends m) (UsedBelow p m)) ∧
    ((∀ x, p.Descends m x → '_' ∉ x.fullName.toList) → (∀ e, UsedBelow p m e → '_' ∉ e.fullName.toList) →
      (d.nested.map (·.nameText) ++ d.enums.map (·.nameText)).Nodup) ∧
    ∀ e, UsedBelow p m e → ∀ e', UsedBelow p m e' → e.scope = e'.scope →
      ∀ v ∈ e.descriptor.values, ∀ v' ∈ e'.descriptor.values, v.nameText = v'.nameText → e = e' := by
  obtain ⟨c, hc, rfl⟩ := finds_of_inline hd
  obtain ⟨⟨hmnames, hmessages⟩, ⟨henames, henums⟩, -⟩ := hc.exact (Pool.linked_of_ofFiles h)
  have henum {e : Enum} (he : UsedBelow p m e) : e ∈ p.enums := by
    obtain ⟨_, -, huses⟩ := he
    exact huses.1
  refine ⟨?_, fun hplain hplain' => ?_, fun e he e' he' hscope v hv v' hv' hname =>
    eq_of_value h (henum he) (henum he') hscope hv hv' hname⟩
  · have hlies : (· ∈ c.messages) = p.Descends m := funext fun x => propext (hmessages x)
    have hused : (· ∈ c.enums) = UsedBelow p m := funext fun e => propext (henums e)
    rw [← hlies, ← hused]
    exact nodup_definedNames_iff hmnames.of_map henames.of_map fun e he =>
      nodup_values h (henum ((henums e).mp he))
  · -- the full names of messages and enums were different in the pool
    have hdisjoint : List.Disjoint (c.messages.map (·.fullName)) (c.enums.map (·.fullName)) := by
      refine List.disjoint_left.mpr (List.forall_mem_map.mpr fun x hx hname => ?_)
      obtain ⟨e, he, hname⟩ := List.mem_map.mp hname
      have htypes := (List.nodup_append'.mp (List.nodup_append'.mp (Pool.nodup_of_ofFiles h)).1).2.2
      exact htypes (List.mem_map_of_mem ((hmessages x).mp hx).mem)
        (hname ▸ List.mem_map_of_mem (henum ((henums e).mp he)))
    have hnames : (withInner m c).nested.map (·.nameText) ++ (withInner m c).enums.map (·.nameText) =
        (c.messages.map (·.fullName) ++ c.enums.map (·.fullName)).map flatName := by
      simp only [withInner, List.map_append, List.map_map]
      rfl
    have hall : ∀ n ∈ c.messages.map (·.fullName) ++ c.enums.map (·.fullName), '_' ∉ n.toList :=
      List.forall_mem_append.mpr ⟨List.forall_mem_map.mpr fun x hx => hplain x ((hmessages x).mp hx),
        List.forall_mem_map.mpr fun e he => hplain' e ((henums e).mp he)⟩
    rw [hnames, List.nodup_map_iff_inj_on (List.nodup_append'.mpr ⟨hmnames, henames, hdisjoint⟩)]
    exact fun a ha b hb => flatName_inj (hall a ha) (hall b hb)

/-- A message and an enum from inside another message: three names that stay apart. -/
theorem distinct_nested :
    let file : Descriptor.File :=
      { name := some "n.proto", messages :=
          [{ name := some "Root", fields :=
              [{ name := some "a", number := some 1, label := some 1, type := some 11,
                 typeName := some ".A.Sub" },
               { name := some "b", number := some 2, label := some 1, type := some 14,
                 typeName := some ".A.E" }] },
           { name := some "A"
             nested := [{ name := some "Sub", fields :=
              [{ name := some "x", number := some 1, label := some 1, type := some 3 }] }]
             enums := [{ name := some "E", values := [{ name := some "ON", number := some 1 }] }] }] }
    ∃ p m d, Pool.ofFiles [file] = .ok p ∧ inline ⟨p, m⟩ = .ok d ∧
      definedNames d = ["A_Sub", "A_E", "ON"] ∧ NamesApart (p.Descends m) (UsedBelow p m) := by
  intro file
  have hrun : ((Pool.ofFiles [file]).toOption.bind fun p => (p.message? "Root").bind fun m =>
      (inline ⟨p, m⟩).toOption.map definedNames) = some ["A_Sub", "A_E", "ON"] := by cbv
  simp only [Option.bind_eq_some_iff, Option.map_eq_some_iff, toOption_eq_some] at hrun
  obtain ⟨p, hp, m, -, d, hd, hnames⟩ := hrun
  exact ⟨p, m, d, hp, hd, hnames, (distinct_iff_apart hp hd).1.mp (by rw [hnames]; decide)⟩

/-- The messages `A.B` and `A_B`: two different messages get one name inside the root. -/
theorem flattened_names_meet :
    let file : Descriptor.File :=
      { name := some "t.proto", dialect := some "proto2"
        messages :=
          [{ name := some "A", nested := [{ name := some "B", fields :=
              [{ name := some "x", number := some 1, label := some 1, type := some 3 }] }] },
           { name := some "A_B", fields :=
              [{ name := some "y", number := some 1, label := some 1, type := some 9 }] },
           { name := some "Root", fields :=
              [{ name := some "p", number := some 1, label := some 1, type := some 11,
                 typeName := some ".A.B" },
               { name := some "q", number := some 2, label := some 1, type := some 11,
                 typeName := some ".A_B" }] }] }
    ∃ p m d, Pool.ofFiles [file] = .ok p ∧ m ∈ p.messages ∧ inline ⟨p, m⟩ = .ok d ∧
      ¬(definedNames d).Nodup ∧
      d.fields.map (·.typeName) = [some ".Root.A_B", some ".Root.A_B"] := by
  intro file
  have hrun : ((Pool.ofFiles [file]).toOption.bind fun p => (p.message? "Root").bind fun m =>
      (inline ⟨p, m⟩).toOption.map fun d => (definedNames d, d.fields.map (·.typeName))) =
      some (["A_B", "A_B"], [some ".Root.A_B", some ".Root.A_B"]) := by cbv
  simp only [Option.bind_eq_some_iff, Option.map_eq_some_iff, toOption_eq_some] at hrun
  obtain ⟨p, hp, m, hm, d, hd, hnames⟩ := hrun
  obtain ⟨hdefined, hfields⟩ := Prod.mk.inj hnames
  exact ⟨p, m, d, hp, List.mem_of_find?_eq_some hm, hd, by rw [hdefined]; decide, hfields⟩

end RowStream.Shape
