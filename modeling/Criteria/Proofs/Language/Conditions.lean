import Criteria.Proofs.Condition
import Criteria.Proofs.Language.Acceptance
import Criteria.Proofs.Language.Rendering
import Criteria.Proofs.Language.Runs

/-! # Conditions as texts

The text of a condition is that of a leaf, so it compiles to the verdict on the condition, with
bounds refused as ranges (`Condition.compile_verdict`), and so does every source that is cut into
the same tokens.
-/

set_option autoImplicit false

namespace Criteria

namespace Language

open Number Text Grammar Criteria.Language.Derivation

/-! ## Literals -/

theorem written_keyword (k : Keyword) : Written closes k.text.toList [Token.ofWord k.text] :=
  (written_word k.isWord_text).mono fun _ => endsWord_of_closes

theorem written_scalar {s : Phrase.Scalar} (h : s.literal.Finite) :
    Written closes s.text.toList [s.token] := by
  cases s with
  | string s => exact (written_quoted s).mono fun _ _ => rfl
  | integer n => exact written_integer n rfl
  | float x => exact Written.of_lexes fun _ hrest => lexes_double h (ended_of_closes hrest)
  | boolean b =>
    cases b with
    | true => exact written_keyword .trueWord
    | false => exact written_keyword .falseWord
  | null => exact written_keyword .nullWord

/-- A literal is read as it was written. -/
theorem renders_scalar {s : Phrase.Scalar} (h : s.literal.Finite) :
    Renders closes s.text.toList IsLiteral fun l => l.value = s.literal :=
  renders_token (written_scalar h) fun u hu =>
    ⟨⟨s.literal, u.extent⟩, .mk (by rw [hu, literalOf?_token]), rfl⟩

/-- A parameter is read as it was written. -/
theorem renders_literals {p : Phrase.Parameter} (h : p.literal.Finite) :
    Renders closes p.text.toList IsParameter fun l => l.value = p.literal := by
  cases p with
  | scalar s => exact (renders_scalar h).imp fun _ l hl hvalue => ⟨l, .literal hl, hvalue⟩
  | list first others =>
    have hitems : ∀ s ∈ first :: others,
        Renders closes s.text.toList IsLiteral fun l => l.value = s.literal := by
      intro s hs
      refine renders_scalar (Literal.finite_of_mem h (List.mem_map_of_mem hs) ?_)
      cases s <;> rfl
    have hchain := renders_chain separates_comma
      (P := fun (s : Phrase.Scalar) (l : Located Literal) => l.value = s.literal) hitems
    have htext : (Phrase.Parameter.list first others).text.toList = _ :=
      toList_parenthesized Phrase.Scalar.text first others
    rw [htext]
    refine (hchain.inParentheses.mono fun _ _ => rfl).imp ?_
    rintro _ ⟨l, ls⟩ ⟨opening, us, closing, rfl, hopening, hls, hclosing⟩ hvalues
    refine ⟨_, .list hopening hls hclosing, congrArg Literal.list ?_⟩
    have hsame : List.Forall₂ (· = ·) ((l :: ls).map (·.value))
        ((first :: others).map Phrase.Scalar.literal) :=
      List.forall₂_map_left_iff.2 (List.forall₂_map_right_iff.2 hvalues.flip)
    exact List.forall₂_eq_eq_eq ▸ hsame

/-! ## Leaves -/

/-- A leaf is an expression. -/
theorem isExpression_of_isLeaf {levels : Nat} {ts : Tokens} {e : Expression}
    (h : IsLeaf levels (insideOf levels) ts e) : IsExpression levels ts e := by
  rw [isExpression_eq]
  exact ⟨e, [], .one ⟨e, [], .one (.leaf h), rfl⟩, rfl⟩

theorem Renders.leaf {levels : Nat} {text : List Char} {P : Expression → Prop}
    (h : Renders closes text (IsLeaf levels (insideOf levels)) P) :
    Renders closes text (IsExpression levels) P :=
  h.imp fun _ e he hP => ⟨e, isExpression_of_isLeaf he, hP⟩

/-- A text of a production is cut into tokens, and what the production derives from them, it derives
from the same tokens anywhere else. -/
theorem Renders.exists_tokens {α : Type} {text : String} {R : Production α} {P : α → Prop}
    (h : Renders closes text.toList R P) :
    ∃ ts, tokenize text = .ok ts ∧
      ∀ located : Tokens, words located = words ts → ∃ a, R located a ∧ P a := by
  obtain ⟨us, hwritten, hderives⟩ := h
  obtain ⟨ts, hts, hvalues⟩ := hwritten.exists_tokens
  exact ⟨ts, hts, fun located hlocated => hderives located (hlocated.trans hvalues)⟩

/-- The texts are cut into the same tokens, in whatever layout and with whatever quotes. -/
def SameTokens (source text : String) : Prop :=
  ∃ ts us, tokenize source = .ok ts ∧ tokenize text = .ok us ∧ words ts = words us

end Language

open Criteria.Language Criteria.Language.Derivation

namespace Condition

variable {c : Catalog} {limits : Limits} {root : String} {levels : Nat}
  {Inner : Option (Production Expression)} {k : Condition}

/-- The expression comes to the verdict on the condition. -/
def Yields (c : Catalog) (limits : Limits) (root : String) (k : Condition) (e : Expression) :
    Prop :=
  ∃ extent, e.toPredicate c limits (Scope.root root) =
    atExtent extent (k.verdict Operand.rangeRefusal limits)

theorem renders_unary (h : k.Resolves c root) (hnamed : k.operand.Named IsWord)
    (hlevels : k.operand.nesting ≤ levels) (hparameter : k.parameter = none) :
    Renders closes k.text.toList (IsLeaf levels Inner) (Yields c limits root k) := by
  have htext : k.text.toList = k.operand.text.toList ++ ' ' :: k.comparator.symbol.toList := by
    simp [text, hparameter, toString]
  have hcardinality : k.comparator.cardinality? = none := by
    have htakes := k.takes
    rw [hparameter] at htakes
    simpa using htakes.symm
  rw [htext]
  have hoperand := renders_operand h.rootType h.path hnamed hlevels (k.comparator.name, k.value)
  refine (renders_unaryLeaf hoperand hcardinality).weaken ?_
  rintro _ ⟨extent, operand, rfl, hresolves⟩
  refine ⟨extent, ?_⟩
  rw [Expression.toPredicate, hresolves, verdict, argument, hparameter]

theorem renders_binary (h : k.Resolves c root) (hnamed : k.operand.Named IsWord)
    (hlevels : k.operand.nesting ≤ levels) {p : Phrase.Parameter}
    (hparameter : k.parameter = some p) :
    Renders closes k.text.toList (IsLeaf levels Inner) (Yields c limits root k) := by
  have htext : k.text.toList = k.operand.text.toList ++
      ' ' :: (k.comparator.symbol.toList ++ ' ' :: p.text.toList) := by
    simp [text, hparameter, toString]
  have hcardinality : k.comparator.cardinality?.isSome = true := by
    rw [← k.takes, hparameter]
    rfl
  rw [htext]
  have hoperand := renders_operand h.rootType h.path hnamed hlevels (k.comparator.name, k.value)
  refine (renders_binaryLeaf hoperand hcardinality
    (renders_literals (k.finite p hparameter))).weaken ?_
  rintro _ ⟨extent, operand, l, rfl, hresolves, hvalue⟩
  refine ⟨extent, ?_⟩
  rw [Expression.toPredicate, hresolves, hvalue, verdict, argument, hparameter]

/-- The text of a condition is that of an expression that comes to the verdict on it. -/
theorem renders (h : k.Resolves c root) (hnamed : k.operand.Named IsWord)
    (hlevels : k.operand.nesting ≤ levels) :
    Renders closes k.text.toList (IsExpression levels) (Yields c limits root k) := by
  cases hparameter : k.parameter with
  | none => exact (renders_unary h hnamed hlevels hparameter).leaf
  | some p => exact (renders_binary h hnamed hlevels hparameter).leaf

/-- The text of a condition is cut into tokens. -/
theorem sameTokens_text (h : k.Resolves c root) (hnamed : k.operand.Named IsWord) :
    SameTokens k.text k.text := by
  have hrenders : Renders closes k.text.toList _ (Yields c {} root k) :=
    renders h hnamed (Nat.le_refl k.operand.nesting)
  obtain ⟨ts, hts, -⟩ := hrenders.exists_tokens
  exact ⟨ts, ts, hts, hts, rfl⟩

/-- A source with the tokens of a condition compiles to the verdict on the condition, where
brackets may be nested as deep as its functions. -/
theorem compile_verdict (h : k.Resolves c root) (hnamed : k.operand.Named IsWord)
    (hdepth : k.operand.nesting ≤ limits.maxDepth) {source : String}
    (hsource : SameTokens source k.text) :
    ∃ extent, compile c limits root source =
      (k.verdict Operand.rangeRefusal limits).mapError (·.inSource source.toList extent) := by
  obtain ⟨ts, us, hts, hus, hwords⟩ := hsource
  have hrenders : Renders closes k.text.toList _ (Yields c limits root k) :=
    renders h hnamed hdepth
  obtain ⟨us', hus', hderives⟩ := hrenders.exists_tokens
  obtain rfl := Except.ok.inj (hus.symm.trans hus')
  obtain ⟨e, he, extent, hyields⟩ := hderives ts hwords
  have hparse : Expression.parse limits.maxDepth source = .ok e :=
    bind_eq_ok.2 ⟨ts, hts, (ofTokens_iff _).2 he⟩
  have hscope : c.root root = .ok (Scope.root root) := h.rootType ▸ h.path.root_eq_ok
  refine ⟨extent, ?_⟩
  rw [Language.compile_eq, hparse, hscope]
  show (e.toPredicate c limits (Scope.root root)).mapError _ = _
  rw [hyields]
  cases k.verdict Operand.rangeRefusal limits <;> rfl

end Condition

end Criteria
