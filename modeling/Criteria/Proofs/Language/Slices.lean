import Criteria.Proofs.Language.Faults
import Criteria.Proofs.Language.Moving
import Criteria.Proofs.Language.Outline

/-! # Parts of a text that are expressions

Every expression in the tree of a text has a run of the text's tokens (`isExpression_run`), so the
part of the text at its range is a text of its own. Read by itself, it is the same expression, at
places that are counted from the start of the part (`parse_slice`).
-/

set_option autoImplicit false

namespace Criteria.Language

open Grammar Text Criteria.Language.Derivation

/-! ## Expressions in an expression -/

namespace Expression

/-- The expressions right under an expression. -/
def children : Expression → List Expression
  | conjunction _ first others => first :: others
  | disjunction _ first others => first :: others
  | group _ inner => [inner]
  | existence _ _ _ (some filter) => [filter]
  | _ => []

/-- The expression itself and the expressions under it at any depth. -/
inductive Contains (e : Expression) : Expression → Prop
  | self : Contains e e
  | child {node child : Expression} (h : Contains e node) (hchild : child ∈ node.children) :
      Contains e child

end Expression

/-! ## Runs of expressions -/

section

variable {levels : Nat}

theorem IsPrimary.isExpression {ts : Tokens} {e : Expression}
    (h : IsPrimary levels (insideOf levels) ts e) : IsExpression levels ts e := by
  rw [isExpression_eq]
  exact ⟨e, [], .one ⟨e, [], .one h, rfl⟩, rfl⟩

theorem IsConjunction.isExpression {ts : Tokens} {e : Expression}
    (h : IsConjunction levels (insideOf levels) ts e) : IsExpression levels ts e := by
  rw [isExpression_eq]
  exact ⟨e, [], .one h, rfl⟩

/-- What stands inside a bracket is an expression on the levels outside as well. -/
theorem isExpression_of_inside {R : Production Expression} (hR : insideOf levels = some R)
    {ts : Tokens} {e : Expression} (h : R ts e) : IsExpression levels ts e := by
  cases levels with
  | zero => cases hR
  | succ levels =>
    cases hR
    exact isExpression_of_le (Nat.le_succ levels) h

theorem isComparison_children {operand : Term} {ts : Tokens} {e : Expression}
    (h : IsComparison operand ts e) : e.children = [] := by
  cases h <;> rfl

theorem isExistence_children {p : Path} {ts : Tokens} {e : Expression}
    (h : IsExistence (insideOf levels) p ts e) : Scattered (IsExpression levels) ts e.children := by
  cases h with
  | @method t u _ _ _ _ _ _ _ hfilter _ =>
    cases hfilter with
    | empty _ => exact .nil
    | filter hR he => exact (Scattered.single (isExpression_of_inside hR he)).between t u
  | present _ => exact .nil
  | absent _ _ => exact .nil
  | @absentWith _ t u v w _ _ hR _ _ _ he _ =>
    exact ((Scattered.single (isExpression_of_inside hR he)).between v w).behind [t, u]

theorem isPrimary_children {ts : Tokens} {e : Expression}
    (h : IsPrimary levels (insideOf levels) ts e) :
    Scattered (IsExpression levels) ts e.children := by
  cases h with
  | all _ => exact .nil
  | none _ => exact .nil
  | @group _ t u _ _ hR _ he _ =>
    exact (Scattered.single (isExpression_of_inside hR he)).between t u
  | leaf h =>
    cases h with
    | comparison _ h =>
      rw [isComparison_children h]
      exact .nil
    | existence _ h => exact (isExistence_children h).behind _

/-- One operand has its own children, and those of several are the operands. -/
theorem combine_children {separator : Symbol} {R : Production Expression}
    {combination : Extent → Expression → List Expression → Expression}
    (hcombination : ∀ extent first others,
      (combination extent first others).children = first :: others)
    (hitem : ∀ ts e, R ts e → IsExpression levels ts e)
    (hchildren : ∀ ts e, R ts e → Scattered (IsExpression levels) ts e.children) {ts : Tokens}
    {first : Expression} {others : List Expression}
    (hchain : Chain separator R ts (first, others)) :
    Scattered (IsExpression levels) ts (combine combination first others).children := by
  have hruns := (chain_runs hchain).map hitem
  rw [List.map_id'] at hruns
  unfold combine
  split
  · rename_i hothers
    rw [List.getLast?_eq_none_iff.1 hothers] at hchain
    cases hchain with
    | one item => exact hchildren _ _ item
  · rw [hcombination]
    exact hruns

/-- The expressions right under an expression have runs in their order. -/
theorem isExpression_children {ts : Tokens} {e : Expression} (h : IsExpression levels ts e) :
    Scattered (IsExpression levels) ts e.children := by
  have hconjunction : ∀ ts e, IsConjunction levels (insideOf levels) ts e →
      Scattered (IsExpression levels) ts e.children := by
    rintro ts e ⟨first, others, hchain, rfl⟩
    exact combine_children (fun _ _ _ => rfl) (fun _ _ => IsPrimary.isExpression)
      (fun _ _ => isPrimary_children) hchain
  rw [isExpression_eq] at h
  obtain ⟨first, others, hchain, rfl⟩ := h
  exact combine_children (fun _ _ _ => rfl) (fun _ _ => IsConjunction.isExpression) hconjunction
    hchain

/-- Every expression in an expression has a run of its own. -/
theorem isExpression_run {ts : Tokens} {e node : Expression} (h : IsExpression levels ts e)
    (hnode : e.Contains node) :
    ∃ us run vs, ts = us ++ run ++ vs ∧ IsExpression levels run node := by
  -- Down from the whole: a run of a child lies in the run of its parent.
  induction hnode with
  | self => exact ⟨[], ts, [], by simp, h⟩
  | child _ hchild ih =>
    obtain ⟨us, run, vs, rfl, hrun⟩ := ih
    obtain ⟨us', run', vs', rfl, hrun'⟩ := (isExpression_children hrun).exists_run hchild
    exact ⟨us ++ us', run', vs' ++ vs, by simp, hrun'⟩

end

/-! ## Parts of a text -/

theorem isExpression_unique {levels : Nat} {ts : Tokens} {e e' : Expression}
    (h : IsExpression levels ts e) (h' : IsExpression levels ts e') : e = e' := by
  have hread := (ofTokens_iff ⟨0, levels⟩).2 h
  rw [(ofTokens_iff ⟨0, levels⟩).2 h'] at hread
  exact (Except.ok.inj hread).symm

/-- The text at the place of an expression, read by itself, is this expression, at offsets that are
counted from the start of the text. -/
theorem parse_part {maxDepth start : Nat} {text : List Char} {run : Tokens} {node : Expression}
    (hrun : tokensAt start text = .ok run) (hnode : IsExpression maxDepth run node) :
    ∃ alone, Expression.parse maxDepth (String.ofList text) = .ok alone ∧
      node = alone.moved (start + ·) := by
  have hcut : Cut (start + 0) text run := tokensAt_iff.1 hrun
  obtain ⟨tokens, hmoved, rfl⟩ := hcut.exists_moved
  -- Moved down to the start of the text the tokens of the node are those of the text.
  have htokens : (tokens.map (·.moved (start + ·))).map (·.moved (· - start)) = tokens := by
    have hinverse : (· - start) ∘ (start + ·) = id := by
      funext offset
      exact Nat.add_sub_cancel_left start offset
    rw [Located.map_moved_moved, hinverse, Located.map_moved_id]
  have halone := isExpression_moved (· - start) (Nat.le_refl maxDepth) _ _ hnode
  rw [htokens] at halone
  refine ⟨node.moved (· - start), ?_, ?_⟩
  · refine bind_eq_ok.2 ⟨tokens, ?_, (ofTokens_iff _).2 halone⟩
    rw [tokenize, String.toList_ofList]
    exact tokensAt_iff.2 hmoved
  · exact isExpression_unique hnode
      (isExpression_moved (start + ·) (Nat.le_refl maxDepth) _ _ halone)

/-- In a text that parses, the part at the range of any expression of the tree, read by itself
under the same limit, is this expression with its offsets counted from the start of the part, and
what is under it lies in its range, in order and without overlap. -/
theorem parse_slice {maxDepth : Nat} {source : String} {e : Expression}
    (h : Expression.parse maxDepth source = .ok e) :
    (∀ node, e.Contains node → ∃ front text back alone,
      Part source.toList node.extent front text back ∧
      Expression.parse maxDepth (String.ofList text) = .ok alone ∧
      node = alone.moved (node.extent.start + ·)) ∧
    e.outline.Nested := by
  obtain ⟨ts, hts, hread⟩ := bind_eq_ok.1 h
  have he : IsExpression maxDepth ts e := (ofTokens_iff _).1 hread
  constructor
  · intro node hnode
    obtain ⟨us, run, vs, rfl, hrun⟩ := isExpression_run he hnode
    have hspans : Spans run node.extent := by
      rw [← node.extent_outline]
      exact (isExpression_fits _ _ _ hrun).spans
    obtain ⟨front, text, back, hpart, htext⟩ := exists_part_of_run hts hspans
    obtain ⟨alone, halone, hmoved⟩ := parse_part htext hrun
    exact ⟨front, text, back, alone, hpart, halone, hmoved⟩
  · exact (isExpression_fits _ _ _ he).nested (tokensAt_inOrder hts)

theorem shoeless_slice :
    (∀ node, shoeless.Contains node → ∃ front text back alone,
      Part shoelessText.toList node.extent front text back ∧
      Expression.parse 64 (String.ofList text) = .ok alone ∧
      node = alone.moved (node.extent.start + ·)) ∧
    shoeless.outline.Nested :=
  parse_slice parse_shoelessText

end Criteria.Language
