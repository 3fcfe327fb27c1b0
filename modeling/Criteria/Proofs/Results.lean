import Criteria.Proofs.Schema.Resolution

/-! # Errors of results

What is known of every error with which a computation may end, step by step (`FailsWith`), and which
member of a list a computation on the list ends at.
-/

set_option autoImplicit false

namespace Criteria

/-- Every error of the result is of the given sort. -/
def FailsWith {ε α : Type} (P : ε → Prop) (r : Except ε α) : Prop := ∀ e, r = .error e → P e

namespace FailsWith

variable {ε δ α β : Type} {P : ε → Prop}

theorem ok (a : α) : FailsWith P (.ok a) := by
  intro e h
  cases h

theorem error {e : ε} (h : P e) : FailsWith P (.error e : Except ε α) := by
  rintro _ ⟨⟩
  exact h

theorem bind {r : Except ε α} {f : α → Except ε β} (h : FailsWith P r)
    (next : ∀ a, r = .ok a → FailsWith P (f a)) : FailsWith P (r >>= f) := by
  intro e he
  rcases bind_eq_error.1 he with hr | ⟨a, ha, hf⟩
  · exact h e hr
  · exact next a ha e hf

theorem map {r : Except ε α} (h : FailsWith P r) (f : α → β) : FailsWith P (r.map f) := by
  cases r with
  | ok a => exact .ok (f a)
  | error e => exact .error (h e rfl)

theorem mapError {Q : δ → Prop} {r : Except ε α} {f : ε → δ} (h : FailsWith P r)
    (hf : ∀ e, P e → Q (f e)) : FailsWith Q (r.mapError f) := by
  cases r with
  | ok a => exact .ok a
  | error e => exact .error (hf e (h e rfl))

end FailsWith

/-- A member is looked up on a type that has to exist, and rejected under its name. -/
theorem MemberKind.failsWith_resolve {P : Rejection → Prop} {α : Type} {k : MemberKind α}
    {c : Catalog} {s : Scope} {name : String} (htype : FailsWith P (c.requireType s.currentType))
    (hunknown : ∀ e, c.requireType s.currentType = .ok e →
      P (k.unknown name (simpleName e.name) (k.names c e.name))) :
    FailsWith P (k.resolve c s name) := by
  apply htype.bind
  intro e he
  split
  · exact .ok _
  · exact .error (hunknown e he)

/-- Either there is a value or an error. -/
theorem exists_error_iff {ε α : Type} {r : Except ε α} :
    (∃ e, r = .error e) ↔ ∀ a, r ≠ .ok a := by
  cases r with
  | ok a => simp
  | error e => simp

theorem exists_mem_of_mapM_eq_error {ε α β : Type} {f : α → Except ε β} {xs : List α} {e : ε}
    (h : xs.mapM f = .error e) : ∃ x ∈ xs, f x = .error e := by
  induction xs with
  | nil => cases h
  | cons x xs ih =>
    rw [List.mapM_cons, bind_eq_error] at h
    rcases h with hx | ⟨y, -, h⟩
    · exact ⟨x, List.mem_cons_self, hx⟩
    · rcases bind_eq_error.1 h with hxs | ⟨ys, -, h⟩
      · obtain ⟨x', hx', h⟩ := ih hxs
        exact ⟨x', List.mem_cons_of_mem x hx', h⟩
      · cases h

theorem exists_mem_of_forall₂ {α β : Type} {R : α → β → Prop} {xs : List α} {ys : List β}
    (h : List.Forall₂ R xs ys) {x : α} (hx : x ∈ xs) : ∃ y ∈ ys, R x y := by
  induction h with
  | nil => cases hx
  | @cons x' y' xs ys hfirst _ ih =>
    rcases List.mem_cons.1 hx with rfl | hx
    · exact ⟨y', List.mem_cons_self, hfirst⟩
    · obtain ⟨y, hy, hrel⟩ := ih hx
      exact ⟨y, List.mem_cons_of_mem y' hy, hrel⟩

end Criteria
