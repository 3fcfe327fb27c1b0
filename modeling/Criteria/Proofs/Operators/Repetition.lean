import Criteria.Proofs.Occurrences
import Criteria.Proofs.Operators.Typing

/-! # Repeated values

Which of several values are kept when repeated ones are dropped. Two values are the same if they
have one identity: the same variant with the same content, for a binary number its bits
(`Value.identity`). What is kept of a list is the first value of every identity: first the values
are marked that are there for the first time, then all others are dropped
(`Value.distinct_keeps_firsts`).
-/

set_option autoImplicit false

namespace Criteria

open Number Calendar

/-! ## Bits of binary numbers -/

namespace Number

/-- The weight of the bit of the sign. Below it are all magnitudes, infinity, and as many bits again
as a binade has that are no number. -/
def Format.signWeight (f : Format) : Nat := (f.binades + 2) * f.binade

theorem Format.signWeight_eq (f : Format) : f.signWeight = f.infinityRank + f.binade := by
  rw [signWeight, infinityRank, ← Nat.succ_mul]

/-- The bits of a number, taken as a whole number. The rank of a magnitude is its own bits. -/
def Binary.bits {f : Format} : Binary f → Nat
  | nan => f.infinityRank + f.binade / 2
  | signed negative rank => (if negative then f.signWeight else 0) + rank

theorem Binary.bits_injective {f : Format} (hf : 2 ≤ f.binade) :
    Function.Injective (bits : Binary f → Nat) := by
  have hweight := f.signWeight_eq
  intro x y h
  cases x with
  | nan =>
    cases y with
    | nan => rfl
    | signed negative rank =>
      have hrank := rank.isLt
      simp only [bits] at h
      split at h <;> omega
  | signed negative rank =>
    have hrank := rank.isLt
    cases y with
    | nan =>
      simp only [bits] at h
      split at h <;> omega
    | signed negative' rank' =>
      have hrank' := rank'.isLt
      have hsame : negative = negative' ∧ rank.val = rank'.val := by
        cases negative <;> cases negative' <;>
          simp only [bits, Bool.false_eq_true, if_true, if_false] at h <;> simp <;> omega
      rw [hsame.1, Fin.ext hsame.2]

end Number

namespace Value

/-! ## Identity -/

/-- What makes two values the same. -/
inductive Identity where
  | string (s : String)
  | boolean (b : Bool)
  | integer (n : Word 32)
  | long (n : Word 64)
  | float (bits : Nat)
  | double (bits : Nat)
  | date (d : Date)
  | timestamp (t : Instant)
  deriving DecidableEq

/-- The identity of a value. -/
def identity : Value → Identity
  | string s => .string s
  | boolean b => .boolean b
  | integer n => .integer n
  | long n => .long n
  | float x => .float x.bits
  | double x => .double x.bits
  | date d => .date d
  | timestamp t => .timestamp t

theorem identity_injective : Function.Injective identity := by
  have hsingle := Binary.bits_injective (f := .single) (by decide)
  have hdouble := Binary.bits_injective (f := .double) (by decide)
  intro v w h
  cases v <;> cases w <;> simp only [identity, reduceCtorEq, Identity.string.injEq,
    Identity.boolean.injEq, Identity.integer.injEq, Identity.long.injEq, Identity.float.injEq,
    Identity.double.injEq, Identity.date.injEq, Identity.timestamp.injEq] at h
  case float.float => exact congrArg float (hsingle h)
  case double.double => exact congrArg double (hdouble h)
  all_goals exact h ▸ rfl

/-- The two zeros differ, and so do equal numbers of different types. -/
example : (double (.zero .double true)).identity ≠ (double (.zero .double false)).identity ∧
    (long ⟨1, by decide, by decide⟩).identity ≠ (integer ⟨1, by decide, by decide⟩).identity := by
  decide

/-- An instant is the same whatever offset it is written with. -/
example : Instant.read? "2024-01-01T01:00:00+01:00" = Instant.read? "2024-01-01T00:00:00Z" := by
  cbv

/-! ## What is kept -/

/-- Of the elements the first one of every key is kept, in their order. -/
structure KeepsFirsts {α κ : Type} [DecidableEq κ] (key : α → κ) (keep : List α → List α) :
    Prop where
  eq_firsts (xs : List α) : keep xs = firsts key xs
  sublist (xs : List α) : (keep xs).Sublist xs
  nodup (xs : List α) : ((keep xs).map key).Nodup
  complete (xs : List α) (k : κ) : k ∈ (keep xs).map key ↔ k ∈ xs.map key
  again (xs : List α) : keep (keep xs) = keep xs
  /-- What is kept may stand in place of the elements in front of others. -/
  front (xs ys : List α) : keep (xs ++ ys) = keep (keep xs ++ ys)

theorem keepsFirsts_firsts {α κ : Type} [DecidableEq κ] (key : α → κ) :
    KeepsFirsts key (firsts key) where
  eq_firsts _ := rfl
  sublist := firsts_sublist
  nodup := nodup_map_firsts
  complete _ _ := mem_map_firsts
  again xs := firsts_of_nodup (nodup_map_firsts xs)
  front xs ys := (firsts_firsts_append xs ys).symm

/-- For each identity whether it is there for the first time, given those in front. -/
def marks (seen : Finset Identity) : List Identity → List Bool
  | [] => []
  | i :: is => decide (i ∉ seen) :: marks (insert i seen) is

@[simp] theorem length_marks (seen : Finset Identity) (is : List Identity) :
    (marks seen is).length = is.length := by
  induction is generalizing seen with
  | nil => rfl
  | cons i is ih => rw [marks, List.length_cons, ih, List.length_cons]

theorem marks_append_singleton (seen : Finset Identity) (is : List Identity) (i : Identity) :
    marks seen (is ++ [i]) = marks seen is ++ [decide (i ∉ seen ∧ i ∉ is)] := by
  induction is generalizing seen with
  | nil => simp [marks]
  | cons j is ih =>
    rw [List.cons_append, marks, ih, marks, List.cons_append]
    simp only [Finset.mem_insert, List.mem_cons, not_or, and_assoc, and_left_comm]

section

variable {α : Type} (key : α → Identity)

/-- The elements that are marked, each by its identity. -/
def marked (xs : List α) : List α :=
  (xs.zip (marks ∅ (xs.map key))).filterMap fun (x, keep) => if keep then some x else none

/-- The marked elements are the first ones of their identity. -/
theorem marked_eq_firsts : marked key = firsts key := by
  funext xs
  induction xs using List.reverseRecOn with
  | nil => rfl
  | append_singleton xs x ih =>
    have hlength : xs.length = (marks ∅ (xs.map key)).length := by
      rw [length_marks, List.length_map]
    rw [marked, List.map_append, List.map_singleton, marks_append_singleton,
      List.zip_append hlength, List.filterMap_append, ← marked, ih, firsts_append_singleton]
    by_cases hx : key x ∈ xs.map key
    · simp [hx]
    · simp [hx]

end

theorem distinct_append_singleton (values : List Value) (v : Value) :
    distinct (values ++ [v]) = if v ∈ values then distinct values else distinct values ++ [v] := by
  rw [distinct, List.eraseDups_append, ← distinct]
  by_cases hv : v ∈ values
  · simp [List.removeAll, hv]
  · simp [List.removeAll, hv, List.eraseDups_cons]

theorem distinct_eq_firsts : distinct = firsts identity := by
  funext values
  induction values using List.reverseRecOn with
  | nil => rfl
  | append_singleton values v ih =>
    rw [distinct_append_singleton, firsts_append_singleton, ih,
      if_congr (List.mem_map_of_injective identity_injective) rfl rfl]

/-- Of several values the first one of every identity is kept: those that are marked. This is so of
whatever has an identity, hence also of binary numbers kept as bits, of which many are no number. -/
theorem distinct_keeps_firsts :
    KeepsFirsts identity distinct ∧ marked identity = distinct ∧
      ∀ (α : Type) (key : α → Identity), KeepsFirsts key (marked key) := by
  refine ⟨?_, ?_, fun α key => ?_⟩
  · rw [distinct_eq_firsts]
    exact keepsFirsts_firsts identity
  · rw [distinct_eq_firsts, marked_eq_firsts]
  · rw [marked_eq_firsts]
    exact keepsFirsts_firsts key

end Value

end Criteria
