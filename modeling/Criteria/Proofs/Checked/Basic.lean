/-! # Checked runs

Some operations have no result: a text cut inside a character, a number taken from a smaller one, an
item that a list does not have. The program is made of definitions that always have one, so that a
difference below zero is zero there. A checked run is one whose operations trap instead. It is
`regular` when it ends as the definitions say, so that none of its operations traps; a run is
regular if its steps are (`regular_bind`, `onFailure_regular`).
-/

set_option autoImplicit false

namespace Criteria.Checked

/-- An operation that has no result. -/
inductive Trap where
  /-- A text is cut behind its end, inside a character, or from an offset to one in front of it. -/
  | cut
  /-- A number is taken from a smaller one. -/
  | belowZero
  /-- A list does not have the items that are picked. -/
  | noItem
  /-- A recursion that does not get smaller. -/
  | endless

/-! ## Operations that may trap -/

/-- The difference of two numbers. -/
def minus (n m : Nat) : Except Trap Nat := if m ≤ n then .ok (n - m) else .error .belowZero

theorem minus_of_le {n m : Nat} (h : m ≤ n) : minus n m = .ok (n - m) := if_pos h

section

variable {α : Type}

/-- The item of a list at an index. -/
def item (xs : List α) (index : Nat) : Except Trap α :=
  match xs[index]? with
  | some x => .ok x
  | none => .error .noItem

/-- The first items of a list, so many of them, and those behind them. -/
def splitItems (count : Nat) (xs : List α) :
    Except Trap { parts : List α × List α // parts.1 ++ parts.2 = xs } :=
  if count ≤ xs.length then .ok ⟨(xs.take count, xs.drop count), List.take_append_drop count xs⟩
  else .error .noItem

theorem splitItems_append (xs ys : List α) :
    splitItems xs.length (xs ++ ys) = .ok ⟨(xs, ys), rfl⟩ := by
  rw [splitItems, if_pos (by simp)]
  simp

end

/-! ## Runs -/

/-- What a run ends with that has no result. -/
inductive Stop (ε : Type) where
  | trapped (t : Trap)
  | failed (e : ε)

/-- The outcome of a run that fails with errors and may trap. -/
abbrev Run (ε α : Type) : Type := Except (Stop ε) α

variable {ε δ α β : Type}

/-- A run that fails. -/
def fail (e : ε) : Run ε α := .error (.failed e)

/-- A run without operations that trap. -/
def regular (r : Except ε α) : Run ε α := r.mapError .failed

/-- An operation as a run. -/
def guarded (r : Except Trap α) : Run ε α := r.mapError .trapped

/-- What follows the errors of a run; nothing follows a trap. -/
def onFailure (r : Run ε α) (handle : ε → Run δ α) : Run δ α :=
  match r with
  | .ok a => .ok a
  | .error (.trapped t) => .error (.trapped t)
  | .error (.failed e) => handle e

theorem mapError_eq_error {r : Except ε α} {form : ε → δ} {e : δ} :
    r.mapError form = .error e ↔ ∃ e', r = .error e' ∧ form e' = e := by
  constructor
  · intro h
    cases r with
    | ok a => cases h
    | error e' => exact ⟨e', rfl, Except.error.inj h⟩
  · rintro ⟨e', rfl, rfl⟩
    rfl

theorem regular_ok (a : α) : regular (.ok a : Except ε α) = .ok a := rfl

theorem guarded_ok (a : α) : (guarded (.ok a) : Run ε α) = .ok a := rfl

/-- A run in two steps is regular if both are. -/
theorem regular_bind {x : Run ε α} {r : Except ε α} {f : α → Run ε β} {g : α → Except ε β}
    (h : x = regular r) (next : ∀ a, f a = regular (g a)) : x >>= f = regular (r >>= g) := by
  subst h
  cases r with
  | ok a => exact next a
  | error e => rfl

/-- A regular run stays so if its errors are only put in another form. -/
theorem onFailure_regular {x : Run ε α} {r : Except ε α} {handle : ε → Run δ α} {form : ε → δ}
    (h : x = regular r) (hhandle : ∀ e, r = .error e → handle e = fail (form e)) :
    onFailure x handle = regular (r.mapError form) := by
  subst h
  cases r with
  | ok a => rfl
  | error e => exact hhandle e rfl

end Criteria.Checked
