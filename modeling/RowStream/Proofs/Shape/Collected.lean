import RowStream.Proofs.Fallible
import RowStream.Shape.Inline

/-!
# The search for what is inlined

Collecting goes depth first along the references, with the messages that lead to the current one on a path.
It ends in one of two ways: it goes through all the fields (`Finds`), or a field leads back to the path
(`Fails`). Its recursion is on the messages that are not on the path yet, and for each of these on the
fields.

* `finds_or_fails`: there is no third way.
* `Finds.collect_eq`: what a search that goes through all the fields collects.
-/

namespace RowStream.Shape

open Pool (Field Message Enum)

variable {p : Pool} {path : List String} {f : Field} {fs : List Field} {c c' c₁ : Collected}
  {n : String} {m : Message}

theorem hasMessage_iff : c.hasMessage n = true ↔ ∃ m ∈ c.messages, m.fullName = n := by
  simp [Collected.hasMessage]

theorem hasEnum_iff : c.hasEnum n = true ↔ ∃ e ∈ c.enums, e.fullName = n := by
  simp [Collected.hasEnum]

/-- What refers to a message holds neither scalars nor values of an enum. -/
theorem kind_of_message? {k : Pool.Kind} (h : k.message? = some n) :
    (k = .message n ∨ k = .group n) ∧ (∀ s, k ≠ .scalar s) ∧ ∀ e, k ≠ .enum e := by
  cases k <;> simp_all [Pool.Kind.message?]

/-! ## How the search ends -/

/-- The search with an enum of the pool, unless it has it. -/
def Collected.use (c : Collected) (p : Pool) (name : String) : Collected :=
  if c.hasEnum name then c
  else
    match p.enum? name with
    | some e => c.addEnum e
    | none => c

/-- The search through the fields succeeds. A field is passed over if its message is collected, and
otherwise the search goes through the fields of this one first. -/
inductive Finds (p : Pool) : List String → List Field → Collected → Collected → Prop
  | nil {path : List String} {c : Collected} : Finds p path [] c c
  | scalar {path : List String} {f : Field} {fs : List Field} {c c' : Collected} {s : Descriptor.Scalar}
      (hf : f.kind = .scalar s) (h : Finds p path fs c c') : Finds p path (f :: fs) c c'
  | enum {path : List String} {f : Field} {fs : List Field} {c c' : Collected} {n : String}
      (hf : f.kind = .enum n) (h : Finds p path fs (c.use p n) c') : Finds p path (f :: fs) c c'
  | known {path : List String} {f : Field} {fs : List Field} {c c' : Collected} {n : String}
      (hf : f.kind.message? = some n) (hn : n ∉ path) (hknown : c.hasMessage n = true)
      (h : Finds p path fs c c') : Finds p path (f :: fs) c c'
  | missing {path : List String} {f : Field} {fs : List Field} {c c' : Collected} {n : String}
      (hf : f.kind.message? = some n) (hn : n ∉ path) (hm : p.find n = none)
      (h : Finds p path fs c c') : Finds p path (f :: fs) c c'
  | enter {path : List String} {f : Field} {fs : List Field} {c c₁ c' : Collected} {n : String}
      {m : Message} (hf : f.kind.message? = some n) (hn : n ∉ path) (hnew : ¬c.hasMessage n = true)
      (hm : p.find n = some m) (hin : Finds p (n :: path) m.fields (c.addMessage m) c₁)
      (h : Finds p path fs c₁ c') : Finds p path (f :: fs) c c'

/-- The search through the fields fails at a field that leads back to the path. -/
inductive Fails (p : Pool) : List String → List Field → Collected → String → Prop
  | back {path : List String} {f : Field} {fs : List Field} {c : Collected} {n : String}
      (hf : f.kind.message? = some n) (hn : n ∈ path) : Fails p path (f :: fs) c n
  | inside {path : List String} {f : Field} {fs : List Field} {c : Collected} {n e : String}
      {m : Message} (hf : f.kind.message? = some n) (hm : p.find n = some m)
      (hin : Fails p (n :: path) m.fields (c.addMessage m) e) : Fails p path (f :: fs) c e
  | rest {path : List String} {f : Field} {fs : List Field} {c c₁ : Collected} {e : String}
      (hf : Finds p path [f] c c₁) (h : Fails p path fs c₁ e) : Fails p path (f :: fs) c e

/-- The outcome of a search is that of one of the two ways. -/
def Ends (p : Pool) (path : List String) (fs : List Field) (c : Collected) :
    Except String Collected → Prop
  | .ok c' => Finds p path fs c c'
  | .error n => Fails p path fs c n

/-- A field that is passed over or through leaves the outcome to the rest. -/
theorem Ends.cons (hf : Finds p path [f] c c₁)
    (hfinds : ∀ {c'}, Finds p path fs c₁ c' → Finds p path (f :: fs) c c')
    {r : Except String Collected} (h : Ends p path fs c₁ r) : Ends p path (f :: fs) c r := by
  cases r with
  | ok c' => exact hfinds h
  | error n => exact .rest hf h

/-- **The search ends in one of the two ways.** -/
theorem finds_or_fails (p : Pool) (path : List String) (fs : List Field) (c : Collected) :
    Ends p path fs c (collect p path fs c) := by
  fun_induction collect p path fs c with
  | case1 path c => exact .nil
  | case2 path c f fs s hf ih => exact ih.cons (.scalar hf .nil) (.scalar hf)
  | case3 path c f fs n hf hknown ih =>
    have huse : c.use p n = c := if_pos hknown
    exact ih.cons (.enum hf (huse.symm ▸ .nil)) fun h => .enum hf (huse.symm ▸ h)
  | case4 path c f fs n hf hnew e he ih =>
    have huse : c.use p n = c.addEnum e := by rw [Collected.use, if_neg hnew, he]
    exact ih.cons (.enum hf (huse.symm ▸ .nil)) fun h => .enum hf (huse.symm ▸ h)
  | case5 path c f fs n hf hnew he ih =>
    have huse : c.use p n = c := by rw [Collected.use, if_neg hnew, he]
    exact ih.cons (.enum hf (huse.symm ▸ .nil)) fun h => .enum hf (huse.symm ▸ h)
  | case6 path c f fs n hf hn | case11 path c f fs n hf hn =>
    exact .back (by rw [hf]; rfl) (by simpa using hn)
  | case7 path c f fs n hf hn hknown ih | case12 path c f fs n hf hn hknown ih =>
    have hkind : f.kind.message? = some n := by rw [hf]; rfl
    have hpath : n ∉ path := by simpa using hn
    exact ih.cons (.known hkind hpath hknown .nil) (.known hkind hpath hknown)
  | case8 path c f fs n hf hn hnew m hm c₁ heq ihin ih
  | case13 path c f fs n hf hn hnew m hm c₁ heq ihin ih =>
    have hkind : f.kind.message? = some n := by rw [hf]; rfl
    have hpath : n ∉ path := by simpa using hn
    rw [heq] at ihin
    exact ih.cons (.enter hkind hpath hnew hm ihin .nil) (.enter hkind hpath hnew hm ihin)
  | case9 path c f fs n hf hn hnew m hm e heq ih | case14 path c f fs n hf hn hnew m hm e heq ih =>
    rw [heq] at ih
    exact .inside (by rw [hf]; rfl) hm ih
  | case10 path c f fs n hf hn hnew hm ih | case15 path c f fs n hf hn hnew hm ih =>
    have hkind : f.kind.message? = some n := by rw [hf]; rfl
    have hpath : n ∉ path := by simpa using hn
    exact ih.cons (.missing hkind hpath hm .nil) (.missing hkind hpath hm)

/-! ## What it collects -/

/-- What collecting does at a field that holds values of an enum. -/
theorem collect_enum (hf : f.kind = .enum n) :
    collect p path (f :: fs) c = collect p path fs (c.use p n) := by
  rw [collect, hf, Collected.use]
  simp only
  split
  · rfl
  · cases p.enum? n <;> rfl

/-- What collecting does at a field that refers to a message. -/
theorem collect_message (hf : f.kind.message? = some n) : collect p path (f :: fs) c =
    if n ∈ path then .error n
    else if c.hasMessage n then collect p path fs c
    else
      match p.find n with
      | some m => collect p (n :: path) m.fields (c.addMessage m) >>= collect p path fs
      | none => collect p path fs c := by
  rcases (kind_of_message? hf).1 with hk | hk
  all_goals
    rw [collect, hk]
    by_cases hpath : n ∈ path
    · simp [hpath]
    · simp only [List.contains_eq_mem, hpath, decide_false, Bool.false_eq_true, dite_false, if_false]
      split
      · rfl
      split
      · rename_i m hm
        simp only [hm]
        cases collect p (n :: path) m.fields (c.addMessage m) <;> rfl
      · rename_i hm
        simp only [hm]

/-- **A search that succeeds collects what it finds.** -/
theorem Finds.collect_eq (h : Finds p path fs c c') : collect p path fs c = .ok c' := by
  induction h with
  | nil => rw [collect]
  | scalar hf _ ih =>
    rw [collect, hf]
    exact ih
  | enum hf _ ih =>
    rw [collect_enum hf]
    exact ih
  | known hf hn hknown _ ih => rw [collect_message hf, if_neg hn, if_pos hknown, ih]
  | missing hf hn hm _ ih =>
    rw [collect_message hf, if_neg hn, hm, ite_self, ih]
  | enter hf hn hnew hm _ _ ihin ih =>
    rw [collect_message hf, if_neg hn, if_neg hnew, hm]
    exact bind_eq_ok.mpr ⟨_, ihin, ih⟩

end RowStream.Shape
