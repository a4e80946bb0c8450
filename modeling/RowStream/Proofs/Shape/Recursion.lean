import RowStream.Proofs.Pool.Linked
import RowStream.Proofs.Shape.Collected

/-!
# Recursion is found exactly

A message stands alone unless its references lead to a cycle. The search for what to inline stops at the
first reference that leads back to a message on its path, and passes over the messages that were collected
before.

That a collected message is passed over is sound since it was left behind for good (`Search.left`): all
that it refers to is collected and off the path, so that it lies on no cycle. A message is left when its
fields are through, and a cycle through it would have led back to it while it was on the path
(`Search.leave`).

* `Fails.exact`: a search that fails names a message on a cycle.
* `Finds.exact`: one that succeeds finds all that the root leads to, and no cycle.
* `inline_exact`: what this makes of the messages of any pool.
-/

namespace RowStream.Shape

open Pool (Field Message Enum Linked)

variable {p : Pool} {path : List String} {f : Field} {fs : List Field} {c c' c₁ : Collected}
  {n : String} {root m x : Message}

/-! ## A search that fails -/

/-- **A search that fails names a message on a cycle**, to which the root leads: the search is among the
fields of a message to which all those on the path lead. -/
theorem Fails.cycle (h : Fails p path fs c n) {cur : Message} (hcur : p.Leads root cur)
    (hfs : fs ⊆ cur.fields)
    (hpath : ∀ a ∈ path, ∃ o, p.find a = some o ∧ p.Leads root o ∧ p.Leads o cur) :
    ∃ x, x.fullName = n ∧ p.Leads root x ∧ p.Descends x x := by
  induction h generalizing cur with
  | back hf hn =>
    obtain ⟨o, ho, hroot, hback⟩ := hpath _ hn
    obtain ⟨-, rfl⟩ := Pool.mem_of_find ho
    exact ⟨o, rfl, hroot, .tail' hback ⟨_, hfs List.mem_cons_self, hf, ho⟩⟩
  | inside hf hm _ ih =>
    obtain ⟨-, rfl⟩ := Pool.mem_of_find hm
    have hstep : p.Refers cur _ := ⟨_, hfs List.mem_cons_self, hf, hm⟩
    refine ih (hcur.tail hstep) (List.Subset.refl _) (List.forall_mem_cons.mpr ⟨?_, fun a ha => ?_⟩)
    · exact ⟨_, hm, hcur.tail hstep, .refl⟩
    · obtain ⟨o, ho, hroot, hlead⟩ := hpath a ha
      exact ⟨o, ho, hroot, hlead.tail hstep⟩
  | rest _ _ ih => exact ih hcur (List.subset_of_cons_subset hfs) hpath

/-- A search from the root that fails names a message on a cycle to which the root leads. -/
theorem Fails.exact (h : Fails p [root.fullName] root.fields {} n) (hp : Linked p)
    (hroot : root ∈ p.messages) : ∃ x, x.fullName = n ∧ p.Leads root x ∧ p.Descends x x := by
  refine h.cycle .refl (List.Subset.refl _) (List.forall_mem_singleton.mpr ⟨root, ?_, .refl, .refl⟩)
  exact Pool.find_of_mem hroot hp.messages

/-! ## What the search keeps -/

/-- What the fields hold is collected: their messages, which are off the path, and their enums. -/
structure Followed (p : Pool) (path : List String) (c : Collected) (fields : List Field) : Prop where
  messages : ∀ f ∈ fields, ∀ o ∈ p.messages, f.kind.message? = some o.fullName →
    o ∈ c.messages ∧ o.fullName ∉ path
  enums : ∀ f ∈ fields, ∀ e ∈ p.enums, f.kind = .enum e.fullName → e ∈ c.enums

/-- What the search has is what the root leads to, each once, and a message off the path was left for
good. -/
structure Search (p : Pool) (root : Message) (path : List String) (c : Collected) : Prop where
  reached : ∀ x ∈ c.messages, p.Descends root x
  used : ∀ e ∈ c.enums, ∃ x, p.Leads root x ∧ p.Uses x e
  messages : (c.messages.map (·.fullName)).Nodup
  enums : (c.enums.map (·.fullName)).Nodup
  left : ∀ x ∈ c.messages, x.fullName ∉ path → Followed p path c x.fields ∧ ¬p.Descends x x

/-- Nothing that was collected is lost. -/
structure Grows (c c' : Collected) : Prop where
  messages : c.messages ⊆ c'.messages
  enums : c.enums ⊆ c'.enums

theorem Grows.refl (c : Collected) : Grows c c := ⟨List.Subset.refl _, List.Subset.refl _⟩

theorem Grows.trans {c'' : Collected} (h : Grows c c') (h' : Grows c' c'') : Grows c c'' :=
  ⟨List.Subset.trans h.messages h'.messages, List.Subset.trans h.enums h'.enums⟩

theorem Followed.mono (h : Followed p path c fs) (hg : Grows c c') : Followed p path c' fs :=
  ⟨fun f hf o ho hn => ⟨hg.messages (h.messages f hf o ho hn).1, (h.messages f hf o ho hn).2⟩,
    fun f hf e he hn => hg.enums (h.enums f hf e he hn)⟩

theorem Followed.nil : Followed p path c [] :=
  ⟨fun _ hf => absurd hf List.not_mem_nil, fun _ hf => absurd hf List.not_mem_nil⟩

theorem Followed.cons
    (hm : ∀ o ∈ p.messages, f.kind.message? = some o.fullName → o ∈ c.messages ∧ o.fullName ∉ path)
    (he : ∀ e ∈ p.enums, f.kind = .enum e.fullName → e ∈ c.enums) (h : Followed p path c fs) :
    Followed p path c (f :: fs) :=
  ⟨List.forall_mem_cons.mpr ⟨hm, h.messages⟩, List.forall_mem_cons.mpr ⟨he, h.enums⟩⟩

/-- References never lead from a message that was left back to the path. -/
theorem Search.left_leads (h : Search p root path c) {y : Message} (hx : x ∈ c.messages)
    (hpath : x.fullName ∉ path) (hxy : p.Leads x y) : y ∈ c.messages ∧ y.fullName ∉ path := by
  induction hxy with
  | refl => exact ⟨hx, hpath⟩
  | tail _ hstep ih =>
    obtain ⟨f, hf, hkind, hfind⟩ := hstep
    exact (h.left _ ih.1 ih.2).1.messages f hf _ (Pool.mem_of_find hfind).1 hkind

/-- **A new message is entered**: it is collected, and on the path from now on. -/
theorem Search.enter (h : Search p root path c) (hm : p.Descends root m)
    (hnew : ¬c.hasMessage m.fullName = true) :
    Search p root (m.fullName :: path) (c.addMessage m) := by
  have hother : ∀ o ∈ c.messages, o.fullName ≠ m.fullName := fun o ho heq =>
    hnew (hasMessage_iff.mpr ⟨o, ho, heq⟩)
  constructor
  case reached =>
    refine List.forall_mem_append.mpr ⟨h.reached, fun x hx => ?_⟩
    rwa [List.mem_singleton.mp hx]
  case used => exact h.used
  case messages =>
    rw [Collected.addMessage, List.map_append]
    refine List.nodup_append.mpr ⟨h.messages, List.pairwise_singleton _ _, fun a ha b hb => ?_⟩
    obtain ⟨o, ho, rfl⟩ := List.mem_map.mp ha
    rw [List.mem_singleton.mp hb]
    exact hother o ho
  case enums => exact h.enums
  case left =>
    intro x hx hpath
    have hoff := List.not_mem_of_not_mem_cons hpath
    rcases List.mem_append.mp hx with hx | hx
    · obtain ⟨hfollowed, hacyclic⟩ := h.left x hx hoff
      refine ⟨⟨fun f hf o ho hn => ?_, hfollowed.enums⟩, hacyclic⟩
      obtain ⟨hmem, hoff⟩ := hfollowed.messages f hf o ho hn
      exact ⟨List.mem_append_left _ hmem, List.not_mem_cons_of_ne_of_not_mem (hother o hmem) hoff⟩
    · rw [List.mem_singleton.mp hx] at hpath
      exact absurd List.mem_cons_self hpath

/-- **A message is left**: what its fields hold was collected while it was on the path. -/
theorem Search.leave (h : Search p root (m.fullName :: path) c) (hp : Linked p) (hm : m ∈ p.messages)
    (hf : Followed p (m.fullName :: path) c m.fields) : Search p root path c := by
  have hoff {x : Message} (hx : Followed p (m.fullName :: path) c x.fields) :
      Followed p path c x.fields :=
    ⟨fun f hf o ho hn => ⟨(hx.messages f hf o ho hn).1,
      List.not_mem_of_not_mem_cons (hx.messages f hf o ho hn).2⟩, hx.enums⟩
  refine ⟨h.reached, h.used, h.messages, h.enums, fun x hx hpath => ?_⟩
  by_cases hname : x.fullName = m.fullName
  · obtain rfl : x = m := hp.message_eq (h.reached x hx).mem hm hname
    refine ⟨hoff hf, fun hcycle => ?_⟩
    -- the first message on the cycle was left, so that nothing leads from it back to the path
    obtain ⟨o, ⟨f, hfield, hkind, hfind⟩, hback⟩ := Relation.TransGen.head'_iff.mp hcycle
    obtain ⟨hmem, hleft⟩ := hf.messages f hfield o (Pool.mem_of_find hfind).1 hkind
    exact (h.left_leads hmem hleft hback).2 List.mem_cons_self
  · obtain ⟨hfollowed, hacyclic⟩ := h.left x hx (List.not_mem_cons_of_ne_of_not_mem hname hpath)
    exact ⟨hoff hfollowed, hacyclic⟩

theorem grows_addEnum (c : Collected) (e : Enum) : Grows c (c.addEnum e) :=
  ⟨List.Subset.refl _, List.subset_append_left _ _⟩

theorem grows_addMessage (c : Collected) (m : Message) : Grows c (c.addMessage m) :=
  ⟨List.subset_append_left _ _, List.Subset.refl _⟩

/-- An enum that a message on the path uses is collected. -/
theorem Search.addEnum (h : Search p root path c) {e : Enum} (hm : p.Leads root m) (he : p.Uses m e)
    (hnew : ¬c.hasEnum e.fullName = true) : Search p root path (c.addEnum e) := by
  refine ⟨h.reached, List.forall_mem_append.mpr ⟨h.used, fun e' he' => ?_⟩, h.messages, ?_,
    fun x hx hpath => ?_⟩
  · rw [List.mem_singleton.mp he']
    exact ⟨m, hm, he⟩
  · rw [Collected.addEnum, List.map_append]
    refine List.nodup_append.mpr ⟨h.enums, List.pairwise_singleton _ _, fun a ha b hb heq => ?_⟩
    obtain ⟨o, ho, rfl⟩ := List.mem_map.mp ha
    exact hnew (hasEnum_iff.mpr ⟨o, ho, heq.trans (List.mem_singleton.mp hb)⟩)
  · obtain ⟨hfollowed, hacyclic⟩ := h.left x hx hpath
    exact ⟨hfollowed.mono (grows_addEnum c e), hacyclic⟩

/-- After a field that holds values of an enum, the enum is collected. -/
theorem Search.use (h : Search p root path c) (hp : Linked p) (hm : p.Leads root m)
    (hf : f ∈ m.fields) (hkind : f.kind = .enum n) : Search p root path (c.use p n) ∧
      Grows c (c.use p n) ∧ ∀ e ∈ p.enums, e.fullName = n → e ∈ (c.use p n).enums := by
  unfold Collected.use
  by_cases hknown : c.hasEnum n = true
  · rw [if_pos hknown]
    refine ⟨h, .refl c, fun e he hname => ?_⟩
    obtain ⟨e', he', hname'⟩ := hasEnum_iff.mp hknown
    obtain ⟨_, -, huses⟩ := h.used e' he'
    obtain rfl := hp.enum_eq he huses.1 (hname.trans hname'.symm)
    exact he'
  · rw [if_neg hknown]
    cases hfind : p.enum? n with
    | none =>
      refine ⟨h, .refl c, fun e he hname => ?_⟩
      exact absurd (beq_iff_eq.mpr hname) (List.find?_eq_none.mp hfind e he)
    | some e =>
      have he : e ∈ p.enums := List.mem_of_find?_eq_some hfind
      obtain rfl : e.fullName = n := by simpa using List.find?_some hfind
      refine ⟨h.addEnum hm ⟨he, f, hf, hkind⟩ hknown, grows_addEnum c e, fun e' he' hname => ?_⟩
      rw [hp.enum_eq he' he hname]
      exact List.mem_append_right _ (List.mem_singleton_self e)

/-- **A search that succeeds keeps what it has and follows the fields**, those of a message that the root
leads to. -/
theorem Finds.keeps (h : Finds p path fs c c') (hp : Linked p) {cur : Message} (hcur : p.Leads root cur)
    (hfs : fs ⊆ cur.fields) (hs : Search p root path c) :
    Search p root path c' ∧ Grows c c' ∧ Followed p path c' fs := by
  induction h generalizing cur with
  | nil => exact ⟨hs, .refl _, .nil⟩
  | scalar hf _ ih =>
    obtain ⟨hs', hg, hrest⟩ := ih hcur (List.subset_of_cons_subset hfs) hs
    refine ⟨hs', hg, .cons (fun o _ ho => ?_) (fun e _ he => ?_) hrest⟩
    · exact absurd hf ((kind_of_message? ho).2.1 _)
    · exact absurd (hf.symm.trans he) (by simp)
  | enum hf _ ih =>
    obtain ⟨huse, hg, hhas⟩ := hs.use hp hcur (hfs List.mem_cons_self) hf
    obtain ⟨hs', hg', hrest⟩ := ih hcur (List.subset_of_cons_subset hfs) huse
    refine ⟨hs', hg.trans hg', .cons (fun o _ ho => ?_) (fun e he hn => ?_) hrest⟩
    · exact absurd hf ((kind_of_message? ho).2.2 _)
    · exact hg'.enums (hhas e he (Pool.Kind.enum.inj (hn.symm.trans hf)))
  | known hf hn hknown _ ih =>
    obtain ⟨hs', hg, hrest⟩ := ih hcur (List.subset_of_cons_subset hfs) hs
    refine ⟨hs', hg, .cons (fun o ho hkind => ?_) (fun e _ he => ?_) hrest⟩
    · obtain ⟨x, hx, hname⟩ := hasMessage_iff.mp hknown
      have hsame : o.fullName = x.fullName := (Option.some.inj (hkind.symm.trans hf)).trans hname.symm
      obtain rfl := hp.message_eq ho (hs.reached x hx).mem hsame
      exact ⟨hg.messages hx, hname ▸ hn⟩
    · exact absurd he ((kind_of_message? hf).2.2 _)
  | missing hf _ hm _ ih =>
    obtain ⟨hs', hg, hrest⟩ := ih hcur (List.subset_of_cons_subset hfs) hs
    refine ⟨hs', hg, .cons (fun o ho hkind => ?_) (fun e _ he => ?_) hrest⟩
    · have hname := Option.some.inj (hkind.symm.trans hf)
      exact absurd (beq_iff_eq.mpr hname) (List.find?_eq_none.mp hm o ho)
    · exact absurd he ((kind_of_message? hf).2.2 _)
  | enter hf hn hnew hm _ _ ihin ih =>
    rename_i m _ _
    obtain ⟨hmem, rfl⟩ := Pool.mem_of_find hm
    have hstep : p.Refers cur m := ⟨_, hfs List.mem_cons_self, hf, hm⟩
    obtain ⟨hin, hg, hfollowed⟩ := ihin (hcur.tail hstep) (List.Subset.refl _)
      (hs.enter (.tail' hcur hstep) hnew)
    obtain ⟨hs', hg', hrest⟩ := ih hcur (List.subset_of_cons_subset hfs) (hin.leave hp hmem hfollowed)
    have hgrows := (grows_addMessage _ m).trans (hg.trans hg')
    refine ⟨hs', hgrows, .cons (fun o ho hkind => ?_) (fun e _ he => ?_) hrest⟩
    · obtain rfl := hp.message_eq ho hmem (Option.some.inj (hkind.symm.trans hf))
      exact ⟨hg'.messages (hg.messages (List.mem_append_right _ (List.mem_singleton_self o))), hn⟩
    · exact absurd he ((kind_of_message? hf).2.2 _)

/-- **A search that succeeds finds what the root leads to**, each message and each enum once, and the root
leads to no cycle. -/
theorem Finds.exact (h : Finds p [root.fullName] root.fields {} c) (hp : Linked p) :
    ((c.messages.map (·.fullName)).Nodup ∧ ∀ x, x ∈ c.messages ↔ p.Descends root x) ∧
      ((c.enums.map (·.fullName)).Nodup ∧
        ∀ e, e ∈ c.enums ↔ ∃ x, p.Leads root x ∧ p.Uses x e) ∧
      ∀ x, p.Leads root x → ¬p.Descends x x := by
  have hstart : Search p root [root.fullName] {} :=
    ⟨fun _ hx => absurd hx List.not_mem_nil, fun _ he => absurd he List.not_mem_nil, List.nodup_nil,
      List.nodup_nil, fun _ hx => absurd hx List.not_mem_nil⟩
  obtain ⟨hs, -, hroot⟩ := h.keeps hp .refl (List.Subset.refl _) hstart
  -- what the root leads to was left, with the root alone on the path
  have hfound {x : Message} (hx : p.Descends root x) : x ∈ c.messages ∧ x.fullName ∉ [root.fullName] := by
    obtain ⟨o, ⟨f, hf, hkind, hfind⟩, hox⟩ := Relation.TransGen.head'_iff.mp hx
    obtain ⟨hmem, hleft⟩ := hroot.messages f hf o (Pool.mem_of_find hfind).1 hkind
    exact hs.left_leads hmem hleft hox
  refine ⟨⟨hs.messages, fun x => ⟨hs.reached x, fun hx => (hfound hx).1⟩⟩,
    ⟨hs.enums, fun e => ⟨hs.used e, ?_⟩⟩, fun x hx hcycle => ?_⟩
  · rintro ⟨x, hx, he, f, hf, hkind⟩
    rcases Relation.reflTransGen_iff_eq_or_transGen.mp hx with rfl | hx
    · exact hroot.enums f hf e he hkind
    · obtain ⟨hmem, hleft⟩ := hfound hx
      exact (hs.left x hmem hleft).1.enums f hf e he hkind
  · rcases Relation.reflTransGen_iff_eq_or_transGen.mp hx with rfl | hx
    · exact (hfound hcycle).2 (List.mem_singleton_self _)
    · obtain ⟨hmem, hleft⟩ := hfound hx
      exact (hs.left x hmem hleft).2 hcycle

/-! ## Messages of any pool -/

/-- **Recursion is found exactly.** For a message of a pool of any files

* it cannot be inlined exactly if references lead from it to a cycle, and then the one that the error
  names lies on such a cycle; there is no other error;
* otherwise every message that references lead to is inlined once, and so is every enum that is used in
  it or in one of these, and nothing else. -/
theorem inline_exact {files : List Descriptor.File} (h : Pool.ofFiles files = .ok p) (hm : m ∈ p.messages) :
    ((∃ e, inline ⟨p, m⟩ = .error e) ↔ ∃ x, p.Leads m x ∧ p.Descends x x) ∧
    (∀ e, inline ⟨p, m⟩ = .error e →
      ∃ x, p.Leads m x ∧ p.Descends x x ∧ e = .recursive x.fullName) ∧
    ∀ d, inline ⟨p, m⟩ = .ok d → ∃ (ms : List Message) (es : List Enum),
      d = { inlineMessage m.name m with
        nested := ms.map fun x => { inlineMessage m.name x with name := some (flatName x.fullName) }
        enums := es.map fun e => { e.descriptor with name := some (flatName e.fullName) } } ∧
      ((ms.map (·.fullName)).Nodup ∧ ∀ x, x ∈ ms ↔ p.Descends m x) ∧
      (es.map (·.fullName)).Nodup ∧ ∀ e, e ∈ es ↔ ∃ x, p.Leads m x ∧ p.Uses x e := by
  have hp := Pool.linked_of_ofFiles h
  have hends := finds_or_fails p [m.fullName] m.fields {}
  unfold inline
  cases hc : collect p [m.fullName] m.fields {} with
  | ok c =>
    rw [hc] at hends
    obtain ⟨hmessages, henums, hacyclic⟩ := Finds.exact hends hp
    refine ⟨?_, fun e he => by simp at he, fun d hd => ⟨c.messages, c.enums, ?_, hmessages, henums⟩⟩
    · simp only [reduceCtorEq, exists_false, false_iff]
      rintro ⟨x, hx, hcycle⟩
      exact hacyclic x hx hcycle
    · exact (Except.ok.inj hd).symm
  | error n =>
    rw [hc] at hends
    obtain ⟨x, rfl, hx, hcycle⟩ := Fails.exact hends hp hm
    refine ⟨⟨fun _ => ⟨x, hx, hcycle⟩, fun _ => ⟨_, rfl⟩⟩, fun e he => ?_, fun d hd => by simp at hd⟩
    exact ⟨x, hx, hcycle, (Except.error.inj he).symm⟩

/-- A cycle that the root leads to without being on it. -/
theorem inline_cycle_below_root :
    let ref (name type : String) : Descriptor.Field :=
      { name := some name, number := some 1, label := some 1, type := some 11, typeName := some type }
    let file : Descriptor.File :=
      { name := some "l.proto", dialect := some "proto2", messages :=
        [{ name := some "Top", fields := [ref "x" ".X"] },
          { name := some "X", fields := [ref "y" ".Y"] },
          { name := some "Y", fields := [ref "x" ".X"] }] }
    ∃ p top, Pool.ofFiles [file] = .ok p ∧ top ∈ p.messages ∧ top.fullName = "Top" ∧
      ∃ e, inline ⟨p, top⟩ = .error e := by
  intro ref file
  have hpool : (Pool.ofFiles [file]).toOption.map
      (fun p => p.messages.map fun m => (m.fullName, m.fields.map fun f => f.kind.message?)) =
      some [("Top", [some "X"]), ("X", [some "Y"]), ("Y", [some "X"])] := by decide +kernel
  obtain ⟨p, hp, hmessages⟩ := Option.map_eq_some_iff.mp hpool
  rw [toOption_eq_some] at hp
  obtain ⟨top, l, hl, htop, h⟩ := List.map_eq_cons_iff.mp hmessages
  obtain ⟨x, l, rfl, hx, h⟩ := List.map_eq_cons_iff.mp h
  obtain ⟨y, l, rfl, hy, -⟩ := List.map_eq_cons_iff.mp h
  have hrefers {m o : Message} {n : String} (ho : o ∈ p.messages)
      (hm : (m.fullName, m.fields.map fun f => f.kind.message?) = (n, [some o.fullName])) :
      p.Refers m o := by
    obtain ⟨f, hf, hkind⟩ := List.mem_map.mp
      ((Prod.mk.inj hm).2 ▸ List.mem_singleton_self (some o.fullName))
    exact ⟨f, hf, hkind, Pool.find_of_mem ho (Pool.linked_of_ofFiles hp).messages⟩
  have hmemtop : top ∈ p.messages := by simp [hl]
  have hmemx : x ∈ p.messages := by simp [hl]
  have hmemy : y ∈ p.messages := by simp [hl]
  obtain ⟨hxname, -⟩ := Prod.mk.inj hx
  obtain ⟨hyname, -⟩ := Prod.mk.inj hy
  have htopx : p.Refers top x := hrefers hmemx (hxname ▸ htop)
  have hxy : p.Refers x y := hrefers hmemy (hyname ▸ hx)
  have hyx : p.Refers y x := hrefers hmemx (hxname ▸ hy)
  refine ⟨p, top, hp, hmemtop, (Prod.mk.inj htop).1, ?_⟩
  exact (inline_exact hp hmemtop).1.mpr ⟨x, .single htopx, .tail (.single hxy) hyx⟩

end RowStream.Shape
