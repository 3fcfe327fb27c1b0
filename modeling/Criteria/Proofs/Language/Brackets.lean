import Criteria.Proofs.Language.Nesting

/-! # Open brackets

How many brackets a run of tokens leaves open (`openBrackets`). Brackets that are balanced are all
closed (`Balanced.openBrackets_eq_zero`), so whatever the grammar derives leaves none open
(`Closed`).
-/

set_option autoImplicit false

namespace Criteria.Language

open Number Grammar Criteria.Language.Derivation

/-! ## Counting -/

/-- The brackets that a token opens, less those that it closes. -/
def Token.opens (t : Token) : Int := if t.isOpening then 1 else if t.isClosing then -1 else 0

/-- The brackets that tokens leave open. -/
def openBrackets (ts : Tokens) : Int := (ts.map (·.value.opens)).sum

@[simp] theorem openBrackets_nil : openBrackets [] = 0 := rfl

@[simp] theorem openBrackets_cons (t : Located Token) (ts : Tokens) :
    openBrackets (t :: ts) = t.value.opens + openBrackets ts := by
  simp [openBrackets]

@[simp] theorem openBrackets_append (ts us : Tokens) :
    openBrackets (ts ++ us) = openBrackets ts + openBrackets us := by
  simp [openBrackets]

namespace Token

@[simp] theorem opens_leftParen : (symbol .leftParen).opens = 1 := rfl

@[simp] theorem opens_leftBrace : (symbol .leftBrace).opens = 1 := rfl

@[simp] theorem opens_dot : (symbol .dot).opens = 0 := rfl

@[simp] theorem opens_keyword (k : Keyword) : (keyword k).opens = 0 := rfl

@[simp] theorem opens_identifier (name : String) : (identifier name).opens = 0 := rfl

end Token

/-! ## Balanced brackets -/

/-- Where enough brackets are open in front, what tokens leave open is added to them. -/
theorem exists_deepest_append {ts : Tokens} {opened : Nat} (h : ts.length ≤ opened) :
    ∃ peak, ∀ us, deepest opened (ts ++ us) =
      max peak (deepest (opened + openBrackets ts).toNat us) := by
  induction ts generalizing opened with
  | nil => exact ⟨0, fun us => by simp⟩
  | cons t ts ih =>
    rw [List.length_cons] at h
    rw [openBrackets_cons, Token.opens]
    simp only [List.cons_append, deepest]
    split
    · obtain ⟨peak, hpeak⟩ := ih (by omega : ts.length ≤ opened + 1)
      refine ⟨peak, fun us => ?_⟩
      rw [hpeak, Nat.cast_add, Nat.cast_one, Int.add_assoc]
    split
    · obtain ⟨peak, hpeak⟩ := ih (by omega : ts.length ≤ opened - 1)
      refine ⟨max opened peak, fun us => ?_⟩
      have hcast : ((opened - 1 : Nat) : Int) = opened + -1 := by omega
      rw [hpeak, hcast, Int.add_assoc, Nat.max_assoc]
    · obtain ⟨peak, hpeak⟩ := ih (by omega : ts.length ≤ opened)
      refine ⟨peak, fun us => ?_⟩
      rw [hpeak, Int.zero_add]

theorem deepest_replicate (opened n : Nat) :
    deepest opened (List.replicate n ⟨.symbol .leftParen, ⟨0, 0⟩⟩) = opened + n := by
  induction n generalizing opened with
  | zero => rfl
  | succ n ih =>
    rw [List.replicate_succ, deepest, if_pos (by rfl), ih]
    omega

/-- Balanced brackets are all closed. -/
theorem Balanced.openBrackets_eq_zero {ts : Tokens} {depth : Nat} (h : Balanced ts depth) :
    openBrackets ts = 0 := by
  obtain ⟨peak, hpeak⟩ := exists_deepest_append (Nat.le_succ ts.length)
  -- Behind the tokens, open more brackets than were ever open in them.
  have hbehind := hpeak (List.replicate (peak + depth + 1) ⟨.symbol .leftParen, ⟨0, 0⟩⟩)
  rw [h, deepest_replicate, deepest_replicate] at hbehind
  omega

/-! ## Productions -/

/-- A production derives no run that leaves brackets open. -/
def Closed {α : Type} (R : Production α) : Prop := ∀ ts a, R ts a → openBrackets ts = 0

theorem isLiteral_closed : Closed IsLiteral :=
  fun _ _ h => (balanced_literal h).openBrackets_eq_zero

theorem isPath_closed : Closed IsPath := fun _ _ h => (balanced_path h).openBrackets_eq_zero

theorem Suffices.openBrackets_eq_zero {α : Type} {R : Nat → Production α} {ts : Tokens} {a : α}
    (h : Suffices R ts a) : openBrackets ts = 0 := by
  obtain ⟨depth, hbalanced, -⟩ := h
  exact hbalanced.openBrackets_eq_zero

/-- What may stand inside a bracket is an expression. -/
def InnerSuffices (Inner : Option (Production Expression)) : Prop :=
  ∀ R, Inner = some R → ∀ ts e, R ts e → Suffices IsExpression ts e

section

variable {Inner : Option (Production Expression)} (hinner : InnerSuffices Inner) (levels : Nat)
include hinner

theorem isPrimary_closed : Closed (IsPrimary levels Inner) :=
  fun ts e h => (suffices_primary hinner ts e h).openBrackets_eq_zero

theorem isConjunction_closed : Closed (IsConjunction levels Inner) :=
  fun ts e h => (suffices_conjunction hinner ts e h).openBrackets_eq_zero

end

end Criteria.Language
