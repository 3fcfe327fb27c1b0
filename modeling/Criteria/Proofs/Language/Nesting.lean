import Criteria.Proofs.Language.Derivation

/-! # Nesting of brackets

The brackets of what the grammar derives are balanced, and a derivation needs no more levels than
they are nested deep (`isExpression_of_deepest`). The brackets of lists, which use up no level,
count too.
-/

set_option autoImplicit false

namespace Criteria.Language

open Number Grammar Criteria.Language.Derivation

/-! ## Brackets of tokens -/

/-- A parenthesis or brace that opens. -/
def Token.isOpening : Token → Bool
  | symbol .leftParen => true
  | symbol .leftBrace => true
  | _ => false

/-- A parenthesis or brace that closes. -/
def Token.isClosing : Token → Bool
  | symbol .rightParen => true
  | symbol .rightBrace => true
  | _ => false

/-- A token that is no bracket. -/
def Token.Plain (t : Token) : Prop := t.isOpening = false ∧ t.isClosing = false

/-- What is not read from brackets is read from plain tokens. -/
theorem Token.plain_of_some {α : Type} {read? : Token → Option α}
    (hparen : read? (.symbol .leftParen) = none ∧ read? (.symbol .rightParen) = none)
    (hbrace : read? (.symbol .leftBrace) = none ∧ read? (.symbol .rightBrace) = none) {t : Token}
    {a : α} (h : read? t = some a) : t.Plain := by
  cases t with
  | symbol s =>
    cases s with
    | leftParen => rw [hparen.1] at h; cases h
    | rightParen => rw [hparen.2] at h; cases h
    | leftBrace => rw [hbrace.1] at h; cases h
    | rightBrace => rw [hbrace.2] at h; cases h
    | _ => exact ⟨rfl, rfl⟩
  | _ => exact ⟨rfl, rfl⟩

/-- The largest number of brackets that are open at a time, when so many are open in front of the
tokens. -/
def deepest (opened : Nat) : Tokens → Nat
  | [] => opened
  | t :: ts =>
    if t.value.isOpening then deepest (opened + 1) ts
    else if t.value.isClosing then max opened (deepest (opened - 1) ts)
    else deepest opened ts

/-- How deep the brackets of a text are nested. -/
def bracketNesting (source : String) : Nat :=
  match tokenize source with
  | .ok ts => deepest 0 ts
  | .error _ => 0

theorem le_deepest (opened : Nat) (ts : Tokens) : opened ≤ deepest opened ts := by
  induction ts generalizing opened with
  | nil => exact Nat.le_refl _
  | cons t ts ih =>
    rw [deepest]
    split
    · exact Nat.le_trans (Nat.le_succ _) (ih _)
    · split
      · exact Nat.le_max_left _ _
      · exact ih _

/-- The tokens close what they open, and have at most so many brackets open at a time. -/
def Balanced (ts : Tokens) (depth : Nat) : Prop :=
  ∀ opened us, deepest opened (ts ++ us) = max (opened + depth) (deepest opened us)

namespace Balanced

variable {ts us : Tokens} {depth depth' : Nat}

theorem deepest_eq (h : Balanced ts depth) : deepest 0 ts = depth := by
  have heq := h 0 []
  rw [List.append_nil, Nat.zero_add] at heq
  rw [heq]
  exact Nat.max_eq_left (Nat.zero_le _)

theorem nil : Balanced [] 0 :=
  fun opened us => (Nat.max_eq_right (le_deepest opened us)).symm

theorem append (h : Balanced ts depth) (h' : Balanced us depth') :
    Balanced (ts ++ us) (max depth depth') := by
  intro opened vs
  rw [List.append_assoc, h, h']
  omega

theorem single {t : Located Token} (ht : t.value.Plain) : Balanced [t] 0 := by
  intro opened us
  have hle := le_deepest opened us
  rw [List.singleton_append, deepest, ht.1, ht.2]
  exact (Nat.max_eq_right hle).symm

theorem cons {t : Located Token} (ht : t.value.Plain) (h : Balanced ts depth) :
    Balanced (t :: ts) depth := by
  have happend := (single ht).append h
  rwa [Nat.max_eq_right (Nat.zero_le _)] at happend

/-- Tokens in brackets. -/
theorem brackets {t u : Located Token} (hopening : t.value.isOpening = true)
    (hclosing : u.value.isClosing = true) (h : Balanced ts depth) :
    Balanced (t :: (ts ++ [u])) (depth + 1) := by
  -- A closing bracket does not open one, so the test for opening brackets passes it on.
  have hnot : u.value.isOpening = false := by
    cases hvalue : u.value with
    | symbol s =>
      rw [hvalue] at hclosing
      cases s <;> first | rfl | cases hclosing
    | _ => rfl
  intro opened us
  have hle := le_deepest opened us
  rw [List.cons_append, deepest, hopening, if_pos rfl, List.append_assoc, h,
    List.singleton_append, deepest, hnot, hclosing]
  simp only [Bool.false_eq_true, if_false, if_true, Nat.add_sub_cancel]
  omega

end Balanced

/-- The brackets of the tokens are balanced, and the production needs no more levels than they are
nested deep. -/
def Suffices {α : Type} (R : Nat → Production α) (ts : Tokens) (a : α) : Prop :=
  ∃ depth, Balanced ts depth ∧ ∀ levels, depth ≤ levels → R levels ts a

theorem suffices_chain {α : Type} {separator : Symbol} {Item : Production α}
    {R : Nat → Production α} (hseparator : (Token.symbol separator).Plain)
    (h : ∀ ts a, Item ts a → Suffices R ts a) {ts : Tokens} {a : α × List α}
    (hchain : Chain separator Item ts a) :
    Suffices (fun levels => Chain separator (R levels)) ts a := by
  induction hchain with
  | one item =>
    obtain ⟨depth, hbalanced, hR⟩ := h _ _ item
    exact ⟨depth, hbalanced, fun levels hlevels => .one (hR levels hlevels)⟩
  | more item between tail ih =>
    obtain ⟨depth, hbalanced, hR⟩ := h _ _ item
    obtain ⟨depth', hbalanced', htail⟩ := ih
    refine ⟨max depth depth', hbalanced.append (hbalanced'.cons (between ▸ hseparator)), ?_⟩
    intro levels hlevels
    exact .more (hR levels (by omega)) between (htail levels (by omega))

/-! ## Productions without levels -/

theorem balanced_literal {ts : Tokens} {l : Located Literal} (h : IsLiteral ts l) :
    Balanced ts 0 := by
  obtain ⟨h⟩ := h
  exact .single (Token.plain_of_some ⟨rfl, rfl⟩ ⟨rfl, rfl⟩ h)

theorem balanced_parameter {ts : Tokens} {l : Located Literal} (h : IsParameter ts l) :
    ∃ depth, Balanced ts depth := by
  cases h with
  | literal h => exact ⟨0, balanced_literal h⟩
  | list opening items closing =>
    obtain ⟨depth, hitems, -⟩ := suffices_chain (R := fun _ => IsLiteral) ⟨rfl, rfl⟩
      (fun _ _ h => ⟨0, balanced_literal h, fun _ _ => h⟩) items
    exact ⟨depth + 1, hitems.brackets (by rw [opening]; rfl) (by rw [closing]; rfl)⟩

theorem balanced_comparator {ts : Tokens} {c : Comparator} (h : IsComparator ts c) :
    Balanced ts 0 := by
  cases h with
  | plain h => exact .single (Token.plain_of_some ⟨rfl, rfl⟩ ⟨rfl, rfl⟩ h)
  | negated before h =>
    exact .cons (before ▸ ⟨rfl, rfl⟩) (.single (Token.plain_of_some ⟨rfl, rfl⟩ ⟨rfl, rfl⟩ h))

theorem balanced_unary {ts : Tokens} {c : Comparator × Nat} (h : IsUnary ts c) :
    Balanced ts 0 := by
  cases h with
  | isNull ht hu => exact .cons (ht ▸ ⟨rfl, rfl⟩) (.single (hu ▸ ⟨rfl, rfl⟩))
  | isNotNull ht hu hv =>
    exact .cons (ht ▸ ⟨rfl, rfl⟩) (.cons (hu ▸ ⟨rfl, rfl⟩) (.single (hv ▸ ⟨rfl, rfl⟩)))
  | equalsEdgePoint ht => exact .single (ht ▸ ⟨rfl, rfl⟩)

theorem balanced_names {ts : Tokens} {names : List (Located String)} (h : AreNames ts names) :
    Balanced ts 0 := by
  induction h with
  | nil => exact .nil
  | cons before h tail ih =>
    exact .cons (before ▸ ⟨rfl, rfl⟩)
      (.cons (Token.plain_of_some ⟨rfl, rfl⟩ ⟨rfl, rfl⟩ h) ih)

theorem balanced_path {ts : Tokens} {p : Path} (h : IsPath ts p) : Balanced ts 0 := by
  obtain ⟨hroot, hnames, -⟩ := h
  exact .cons (Token.plain_of_some ⟨rfl, rfl⟩ ⟨rfl, rfl⟩ hroot) (balanced_names hnames)

theorem balanced_integers {ts : Tokens} {integers : List (Located (Word 64))}
    (h : AreIntegers ts integers) : Balanced ts 0 := by
  induction h with
  | nil => exact .nil
  | cons before h tail ih => exact .cons (before ▸ ⟨rfl, rfl⟩) (.cons (h ▸ ⟨rfl, rfl⟩) ih)

/-! ## Productions with levels -/

/-- What stands in brackets needs one level less than it has with them. -/
theorem suffices_brackets {α β : Type} {R : Nat → Production α} {R' : Nat → Production β}
    {ts : Tokens} {a : α} {b : β} {t u : Located Token} (hopening : t.value.isOpening = true)
    (hclosing : u.value.isClosing = true) (h : Suffices R ts a)
    (hR : ∀ levels, R levels ts a → R' (levels + 1) (t :: (ts ++ [u])) b) :
    Suffices R' (t :: (ts ++ [u])) b := by
  obtain ⟨depth, hbalanced, h⟩ := h
  refine ⟨depth + 1, hbalanced.brackets hopening hclosing, ?_⟩
  intro levels hlevels
  obtain ⟨levels, rfl⟩ := Nat.exists_eq_add_of_le' (Nat.le_of_add_left_le hlevels)
  exact hR levels (h levels (Nat.le_of_succ_le_succ hlevels))

theorem suffices_term {levels : Nat} {ts : Tokens} {t : Term} (h : IsTerm levels ts t) :
    Suffices IsTerm ts t := by
  induction h with
  | path h => exact ⟨0, balanced_path h, fun _ _ => .path h⟩
  | @call _ t u v ts us _ _ _ ht opening hargument hintegers closing ih =>
    obtain ⟨depth, hbalanced, hterm⟩ := ih
    refine ⟨depth + 1, ?_, ?_⟩
    -- The parentheses hold the argument and the integers, which have no brackets of their own.
    · have hinside := hbalanced.append (balanced_integers hintegers)
      rw [Nat.max_eq_left (Nat.zero_le _)] at hinside
      have hcall := hinside.brackets (t := u) (u := v) (by rw [opening]; rfl) (by rw [closing]; rfl)
      rw [List.append_assoc] at hcall
      exact hcall.cons (ht ▸ ⟨rfl, rfl⟩)
    · intro levels hlevels
      obtain ⟨levels, rfl⟩ := Nat.exists_eq_add_of_le' (Nat.le_of_add_left_le hlevels)
      exact .call ht opening (hterm levels (Nat.le_of_succ_le_succ hlevels)) hintegers closing

theorem balanced_comparison {operand : Term} {ts : Tokens} {e : Expression}
    (h : IsComparison operand ts e) : ∃ depth, Balanced ts depth := by
  cases h with
  | unary h => exact ⟨0, balanced_unary h⟩
  | binary hcomparator hparameter =>
    obtain ⟨depth, hbalanced⟩ := balanced_parameter hparameter
    exact ⟨_, (balanced_comparator hcomparator).append hbalanced⟩

section

variable {levels : Nat} {Inner : Option (Production Expression)}
  (hinner : ∀ R, Inner = some R → ∀ ts e, R ts e → Suffices IsExpression ts e)
include hinner

theorem suffices_filter {ts : Tokens} {e : Option Expression} (h : IsFilter Inner ts e) :
    Suffices (fun levels => IsFilter (some (IsExpression levels))) ts e := by
  cases h with
  | empty h => exact ⟨0, .nil, fun _ _ => .empty rfl⟩
  | filter h he =>
    obtain ⟨depth, hbalanced, hexpression⟩ := hinner _ h _ _ he
    exact ⟨depth, hbalanced, fun levels hlevels => .filter rfl (hexpression levels hlevels)⟩

theorem suffices_existence {p : Path} {ts : Tokens} {e : Expression}
    (h : IsExistence Inner p ts e) :
    Suffices (fun levels => IsExistence (insideOf levels) p) ts e := by
  cases h with
  | method htest hparent opening hfilter closing =>
    exact suffices_brackets (by rw [opening]; rfl) (by rw [closing]; rfl)
      (suffices_filter hinner hfilter)
      fun levels hfilter => .method htest hparent opening hfilter closing
  | present ht => exact ⟨0, .single (ht ▸ ⟨rfl, rfl⟩), fun _ _ => .present ht⟩
  | absent ht hu =>
    exact ⟨0, .cons (ht ▸ ⟨rfl, rfl⟩) (.single (hu ▸ ⟨rfl, rfl⟩)), fun _ _ => .absent ht hu⟩
  | absentWith h ht hu opening he closing =>
    obtain ⟨depth, hbalanced, hexpression⟩ := hinner _ h _ _ he
    have hbraces := hbalanced.brackets (by rw [opening]; rfl) (by rw [closing]; rfl)
    refine ⟨_, .cons (ht ▸ ⟨rfl, rfl⟩) (.cons (hu ▸ ⟨rfl, rfl⟩) hbraces), ?_⟩
    intro levels hlevels
    -- The braces are one level, so the filter has one less.
    obtain ⟨levels, rfl⟩ := Nat.exists_eq_add_of_le' (Nat.le_of_add_left_le hlevels)
    have he := hexpression levels (Nat.le_of_succ_le_succ hlevels)
    exact .absentWith rfl ht hu opening he closing

theorem suffices_leaf {ts : Tokens} {e : Expression} (h : IsLeaf levels Inner ts e) :
    Suffices (fun levels => IsLeaf levels (insideOf levels)) ts e := by
  cases h with
  | comparison hoperand h =>
    obtain ⟨depth, hbalanced, hterm⟩ := suffices_term hoperand
    obtain ⟨depth', hbalanced'⟩ := balanced_comparison h
    refine ⟨_, hbalanced.append hbalanced', ?_⟩
    intro levels hlevels
    exact .comparison (hterm levels (Nat.le_trans (Nat.le_max_left _ _) hlevels)) h
  | existence hp h =>
    obtain ⟨depth, hbalanced, hexistence⟩ := suffices_existence hinner h
    refine ⟨_, (balanced_path hp).append hbalanced, ?_⟩
    intro levels hlevels
    exact .existence hp (hexistence levels (Nat.le_trans (Nat.le_max_right _ _) hlevels))

theorem suffices_primary (ts : Tokens) (e : Expression) (h : IsPrimary levels Inner ts e) :
    Suffices (fun levels => IsPrimary levels (insideOf levels)) ts e := by
  cases h with
  | all ht => exact ⟨0, .single (ht ▸ ⟨rfl, rfl⟩), fun _ _ => .all ht⟩
  | none ht => exact ⟨0, .single (ht ▸ ⟨rfl, rfl⟩), fun _ _ => .none ht⟩
  | group h opening he closing =>
    exact suffices_brackets (by rw [opening]; rfl) (by rw [closing]; rfl) (hinner _ h _ _ he)
      fun levels he => .group rfl opening he closing
  | leaf h =>
    obtain ⟨depth, hbalanced, hleaf⟩ := suffices_leaf hinner h
    exact ⟨depth, hbalanced, fun levels hlevels => .leaf (hleaf levels hlevels)⟩

theorem suffices_conjunction (ts : Tokens) (e : Expression) (h : IsConjunction levels Inner ts e) :
    Suffices (fun levels => IsConjunction levels (insideOf levels)) ts e := by
  obtain ⟨first, others, hchain, rfl⟩ := h
  obtain ⟨depth, hbalanced, hchain⟩ :=
    suffices_chain ⟨rfl, rfl⟩ (suffices_primary hinner) hchain
  exact ⟨depth, hbalanced, fun levels hlevels => ⟨first, others, hchain levels hlevels, rfl⟩⟩

theorem suffices_disjunction {ts : Tokens} {e : Expression} (h : IsDisjunction levels Inner ts e) :
    Suffices IsExpression ts e := by
  obtain ⟨first, others, hchain, rfl⟩ := h
  obtain ⟨depth, hbalanced, hchain⟩ :=
    suffices_chain ⟨rfl, rfl⟩ (suffices_conjunction hinner) hchain
  refine ⟨depth, hbalanced, ?_⟩
  intro levels hlevels
  rw [isExpression_eq]
  exact ⟨first, others, hchain levels hlevels, rfl⟩

end

theorem suffices_expression {levels : Nat} {ts : Tokens} {e : Expression}
    (h : IsExpression levels ts e) : Suffices IsExpression ts e := by
  -- The levels the expression was derived on bound the induction, not the levels it needs.
  induction levels generalizing ts e with
  | zero =>
    refine suffices_disjunction ?_ h
    intro R hR
    cases hR
  | succ levels ih =>
    refine suffices_disjunction ?_ h
    intro R hR
    cases hR
    exact fun _ _ => ih

/-- An expression needs no more levels than its brackets are nested deep. -/
theorem isExpression_of_deepest {levels levels' : Nat} {ts : Tokens} {e : Expression}
    (h : IsExpression levels ts e) (hlevels : deepest 0 ts ≤ levels') :
    IsExpression levels' ts e := by
  obtain ⟨depth, hbalanced, hexpression⟩ := suffices_expression h
  rw [hbalanced.deepest_eq] at hlevels
  exact hexpression levels' hlevels

end Criteria.Language
