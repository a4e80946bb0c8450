import Mathlib.Data.List.Forall2

/-!
# Computations that may fail

When a computation of several steps succeeds: each step does, with the value that the next one takes. And
when a search does, in two lists that match: both searches find elements that match, or none does.
-/

namespace RowStream

variable {ε α β : Type}

theorem bind_eq_ok {x : Except ε α} {f : α → Except ε β} {b : β} :
    (x >>= f) = .ok b ↔ ∃ a, x = .ok a ∧ f a = .ok b := by
  cases x <;> simp [bind, Except.bind]

theorem map_eq_ok {x : Except ε α} {f : α → β} {b : β} :
    x.map f = .ok b ↔ ∃ a, x = .ok a ∧ f a = b := by
  cases x <;> simp [Except.map]

/-- Another text for an error is no other success. -/
theorem mapError_eq_ok {ε' : Type} {x : Except ε α} {f : ε → ε'} {a : α} :
    x.mapError f = .ok a ↔ x = .ok a := by
  cases x <;> simp [Except.mapError]

theorem isOk_iff {x : Except ε α} : x.isOk = true ↔ ∃ a, x = .ok a := by
  cases x <;> simp [Except.isOk, Except.toBool]

theorem toOption_eq_some {x : Except ε α} {a : α} : x.toOption = some a ↔ x = .ok a := by
  cases x <;> simp [Except.toOption]

theorem pure_eq_ok {a b : α} : (pure a : Except ε α) = .ok b ↔ a = b := by
  simp [pure, Except.pure]

/-- A step that only refuses under a condition. -/
theorem refuse_eq_ok {c : Prop} [Decidable c] {e : ε} {f : PUnit → Except ε β} {b : β} :
    (if c then (throw e >>= f : Except ε β) else f ⟨⟩) = .ok b ↔ ¬ c ∧ f ⟨⟩ = .ok b := by
  by_cases hc : c
  · simp [hc, bind, Except.bind, throw, throwThe, MonadExceptOf.throw]
  · simp [hc]

/-- A list of computations succeeds if each does, with their values. -/
theorem mapM_eq_ok {f : α → Except ε β} {p : α → Prop} {g : α → β} {xs : List α} {ys : List β}
    (h : ∀ x ∈ xs, ∀ y, f x = .ok y ↔ p x ∧ y = g x) :
    xs.mapM f = .ok ys ↔ (∀ x ∈ xs, p x) ∧ ys = xs.map g := by
  induction xs generalizing ys with
  | nil =>
    rw [List.mapM_nil, pure_eq_ok]
    simp [eq_comm]
  | cons x xs ih =>
    simp only [List.mapM_cons, bind_eq_ok, pure_eq_ok, h x List.mem_cons_self,
      ih fun z hz => h z (List.mem_cons_of_mem x hz), List.forall_mem_cons, List.map_cons]
    constructor
    · rintro ⟨_, ⟨hx, rfl⟩, _, ⟨hxs, rfl⟩, rfl⟩
      exact ⟨⟨hx, hxs⟩, rfl⟩
    · rintro ⟨⟨hx, hxs⟩, rfl⟩
      exact ⟨_, ⟨hx, rfl⟩, _, ⟨hxs, rfl⟩, rfl⟩

/-- What comes out of a list of computations comes out of one of them. -/
theorem exists_of_mem_mapM {f : α → Except ε β} {xs : List α} {ys : List β}
    (h : xs.mapM f = .ok ys) {y : β} (hy : y ∈ ys) : ∃ x ∈ xs, f x = .ok y := by
  induction xs generalizing ys with
  | nil =>
    rw [List.mapM_nil, pure_eq_ok] at h
    exact absurd (h ▸ hy) List.not_mem_nil
  | cons x xs ih =>
    simp only [List.mapM_cons, bind_eq_ok, pure_eq_ok] at h
    obtain ⟨first, hfirst, rest, hrest, rfl⟩ := h
    rcases List.mem_cons.mp hy with rfl | hy
    · exact ⟨x, List.mem_cons_self, hfirst⟩
    · obtain ⟨z, hz, heq⟩ := ih hrest hy
      exact ⟨z, List.mem_cons_of_mem x hz, heq⟩

/-- What is read off each value reads the same off all of them, one after the other. -/
theorem map_flatten_of_mapM {γ : Type} {f : α → Except ε (List β)} {g : α → List γ} {k : β → γ}
    {xs : List α} {ys : List (List β)} (h : xs.mapM f = .ok ys)
    (hg : ∀ x ∈ xs, ∀ y, f x = .ok y → y.map k = g x) : ys.flatten.map k = xs.flatMap g := by
  induction xs generalizing ys with
  | nil =>
    rw [List.mapM_nil, pure_eq_ok] at h
    rw [← h]
    rfl
  | cons x xs ih =>
    simp only [List.mapM_cons, bind_eq_ok, pure_eq_ok] at h
    obtain ⟨first, hfirst, rest, hrest, rfl⟩ := h
    rw [List.flatten_cons, List.map_append, hg x List.mem_cons_self first hfirst,
      ih hrest fun z hz => hg z (List.mem_cons_of_mem x hz), List.flatMap_cons]

/-- Two lists that match, searched for what holds of both of two elements that match or of none. -/
theorem find_of_forall₂ {R : α → β → Prop} {c : α → Bool} {d : β → Bool} {xs : List α} {ys : List β}
    (h : List.Forall₂ R xs ys) (hcd : ∀ x y, R x y → c x = d y) :
    (xs.find? c = none ∧ ys.find? d = none) ∨
      ∃ x y, xs.find? c = some x ∧ ys.find? d = some y ∧ x ∈ xs ∧ y ∈ ys ∧ R x y := by
  induction h with
  | nil => exact .inl ⟨rfl, rfl⟩
  | @cons x y xs ys hxy hrest ih =>
    rw [List.find?_cons, List.find?_cons, ← hcd x y hxy]
    cases c x with
    | true => exact .inr ⟨x, y, rfl, rfl, List.mem_cons_self, List.mem_cons_self, hxy⟩
    | false =>
      rcases ih with hnone | ⟨x', y', hx, hy, hx', hy', hr⟩
      · exact .inl hnone
      · exact .inr ⟨x', y', hx, hy, List.mem_cons_of_mem x hx', List.mem_cons_of_mem y hy', hr⟩

end RowStream
