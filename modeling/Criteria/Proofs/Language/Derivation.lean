import Criteria.Language.Grammar
import Mathlib

/-! # The grammar as a relation

What each production of the grammar derives: a run of tokens and what the run stands for. A
derivation of an expression has a number of levels, which bounds how deep its brackets are nested;
those of lists do not count. The relations say nothing about what follows a run, and nothing about
how a reader finds it.
-/

set_option autoImplicit false

namespace Criteria.Language.Derivation

open Number Grammar

/-- A relation between runs of tokens and what they stand for. -/
abbrev Production (α : Type) : Type := Tokens → α → Prop

/-- Items with a symbol between them, at least one. -/
inductive Chain {α : Type} (separator : Symbol) (Item : Production α) :
    Production (α × List α)
  | one {ts : Tokens} {a : α} (item : Item ts a) : Chain separator Item ts (a, [])
  | more {ts us : Tokens} {a second : α} {others : List α} {t : Located Token}
      (item : Item ts a) (between : t.value = .symbol separator)
      (tail : Chain separator Item us (second, others)) :
      Chain separator Item (ts ++ t :: us) (a, second :: others)

/-! ## Literals and operators -/

/-- A literal. -/
inductive IsLiteral : Production (Located Literal)
  | mk {t : Located Token} {l : Literal} (h : literalOf? t.value = some l) :
      IsLiteral [t] ⟨l, t.extent⟩

/-- A literal or a list of literals in parentheses. -/
inductive IsParameter : Production (Located Literal)
  | literal {ts : Tokens} {l : Located Literal} (h : IsLiteral ts l) : IsParameter ts l
  | list {ts : Tokens} {t u : Located Token} {first : Located Literal}
      {others : List (Located Literal)} (opening : t.value = .symbol .leftParen)
      (items : Chain .comma IsLiteral ts (first, others))
      (closing : u.value = .symbol .rightParen) :
      IsParameter (t :: (ts ++ [u]))
        ⟨.list ((first :: others).map (·.value)), ⟨t.extent.start, u.extent.stop⟩⟩

/-- An operator that takes a parameter. -/
inductive IsComparator : Production Comparator
  | plain {t : Located Token} {c : Comparator} (h : comparatorOf? t.value = some c) :
      IsComparator [t] c
  | negated {t u : Located Token} {c : Comparator} (before : t.value = .keyword .notWord)
      (h : negatedOf? u.value = some c) : IsComparator [t, u] c

/-- An operator without parameter, and the end of its range. -/
inductive IsUnary : Production (Comparator × Nat)
  | isNull {t u : Located Token} (ht : t.value = .keyword .isWord)
      (hu : u.value = .keyword .nullWord) : IsUnary [t, u] (.isNull, u.extent.stop)
  | isNotNull {t u v : Located Token} (ht : t.value = .keyword .isWord)
      (hu : u.value = .keyword .notWord) (hv : v.value = .keyword .nullWord) :
      IsUnary [t, u, v] (.isNotNull, v.extent.stop)
  | equalsEdgePoint {t : Located Token} (ht : t.value = .identifier "equalsEdgePoint") :
      IsUnary [t] (.equalsEdgePoint, t.extent.stop)

/-! ## Paths and terms -/

/-- The names behind a root, each behind a dot. -/
inductive AreNames : Production (List (Located String))
  | nil : AreNames [] []
  | cons {t u : Located Token} {ts : Tokens} {name : String} {names : List (Located String)}
      (before : t.value = .symbol .dot) (h : u.value.name? = some name)
      (tail : AreNames ts names) : AreNames (t :: u :: ts) (⟨name, u.extent⟩ :: names)

/-- A path. -/
inductive IsPath : Production Path
  | mk {t : Located Token} {ts : Tokens} {root : Root} {segments : List (Located String)}
      {p : Path} (hroot : rootOf? t.value = some root) (hnames : AreNames ts segments)
      (hp : Path.ofSegments? ⟨root, t.extent⟩ segments = some p) : IsPath (t :: ts) p

/-- The integers behind the first argument of a function, each behind a comma. -/
inductive AreIntegers : Production (List (Located (Word 64)))
  | nil : AreIntegers [] []
  | cons {t u : Located Token} {ts : Tokens} {n : Word 64} {others : List (Located (Word 64))}
      (before : t.value = .symbol .comma) (h : u.value = .integer n)
      (tail : AreIntegers ts others) : AreIntegers (t :: u :: ts) (⟨n, u.extent⟩ :: others)

/-- A term; every function uses up a level. -/
inductive IsTerm : Nat → Production Term
  | path {levels : Nat} {ts : Tokens} {p : Path} (h : IsPath ts p) : IsTerm levels ts (.path p)
  | call {levels : Nat} {t u v : Located Token} {ts us : Tokens} {name : String}
      {argument : Term} {integers : List (Located (Word 64))} (ht : t.value = .identifier name)
      (opening : u.value = .symbol .leftParen) (hargument : IsTerm levels ts argument)
      (hintegers : AreIntegers us integers) (closing : v.value = .symbol .rightParen) :
      IsTerm (levels + 1) (t :: u :: (ts ++ (us ++ [v])))
        (.call ⟨t.extent.start, v.extent.stop⟩ ⟨name, t.extent⟩ argument integers)

/-- What stands behind the operand of a comparison. -/
inductive IsComparison (operand : Term) : Production Expression
  | unary {ts : Tokens} {c : Comparator} {stop : Nat} (h : IsUnary ts (c, stop)) :
      IsComparison operand ts (.unary ⟨operand.extent.start, stop⟩ operand c)
  | binary {ts us : Tokens} {c : Comparator} {l : Located Literal} (hcomparator : IsComparator ts c)
      (hparameter : IsParameter us l) : IsComparison operand (ts ++ us)
        (.binary ⟨operand.extent.start, l.extent.stop⟩ operand c l)

/-! ## Expressions

What may stand inside a bracket is a parameter, absent when no level is left.
-/

section

variable (levels : Nat) (Inner : Option (Production Expression))

/-- A filter in the parentheses of a method. -/
inductive IsFilter : Production (Option Expression)
  | empty {R : Production Expression} (h : Inner = some R) : IsFilter [] none
  | filter {R : Production Expression} {ts : Tokens} {e : Expression} (h : Inner = some R)
      (he : R ts e) : IsFilter ts (some e)

/-- What stands behind a path in an existence test. A method is the last name of the path and is
about the relationships in front of it. -/
inductive IsExistence (p : Path) : Production Expression
  | method {t u : Located Token} {ts : Tokens} {navigation : Path} {test : Existence}
      {filter : Option Expression} (htest : Existence.ofMethod? p.last.value = some test)
      (hparent : p.parent? = some navigation) (opening : t.value = .symbol .leftParen)
      (hfilter : IsFilter Inner ts filter) (closing : u.value = .symbol .rightParen) :
      IsExistence p (t :: (ts ++ [u]))
        (.existence ⟨p.extent.start, u.extent.stop⟩ navigation test filter)
  | present {t : Located Token} (ht : t.value = .identifier "exists") :
      IsExistence p [t] (.existence ⟨p.extent.start, t.extent.stop⟩ p .present none)
  | absent {t u : Located Token} (ht : t.value = .keyword .notWord)
      (hu : u.value = .identifier "exists") :
      IsExistence p [t, u] (.existence ⟨p.extent.start, u.extent.stop⟩ p .absent none)
  | absentWith {R : Production Expression} {t u v w : Located Token} {ts : Tokens} {e : Expression}
      (h : Inner = some R) (ht : t.value = .keyword .notWord)
      (hu : u.value = .identifier "exists") (opening : v.value = .symbol .leftBrace) (he : R ts e)
      (closing : w.value = .symbol .rightBrace) :
      IsExistence p (t :: u :: v :: (ts ++ [w]))
        (.existence ⟨p.extent.start, w.extent.stop⟩ p .absent (some e))

/-- A comparison or an existence test. -/
inductive IsLeaf : Production Expression
  | comparison {ts us : Tokens} {operand : Term} {e : Expression}
      (hoperand : IsTerm levels ts operand) (h : IsComparison operand us e) : IsLeaf (ts ++ us) e
  | existence {ts us : Tokens} {p : Path} {e : Expression} (hp : IsPath ts p)
      (h : IsExistence Inner p us e) : IsLeaf (ts ++ us) e

/-- An operand of a conjunction. -/
inductive IsPrimary : Production Expression
  | all {t : Located Token} (ht : t.value = .keyword .allWord) : IsPrimary [t] (.all t.extent)
  | none {t : Located Token} (ht : t.value = .keyword .noneWord) : IsPrimary [t] (.none t.extent)
  | group {R : Production Expression} {t u : Located Token} {ts : Tokens} {e : Expression}
      (h : Inner = some R) (opening : t.value = .symbol .leftParen) (he : R ts e)
      (closing : u.value = .symbol .rightParen) :
      IsPrimary (t :: (ts ++ [u])) (.group ⟨t.extent.start, u.extent.stop⟩ e)
  | leaf {ts : Tokens} {e : Expression} (h : IsLeaf levels Inner ts e) : IsPrimary ts e

/-- Operands with `&` between them. -/
def IsConjunction : Production Expression := fun ts e =>
  ∃ first others, Chain .ampersand (IsPrimary levels Inner) ts (first, others) ∧
    e = combine .conjunction first others

/-- Conjunctions with `|` between them. -/
def IsDisjunction : Production Expression := fun ts e =>
  ∃ first others, Chain .pipe (IsConjunction levels Inner) ts (first, others) ∧
    e = combine .disjunction first others

end

/-- An expression whose brackets are nested at most `levels` deep. -/
def IsExpression : Nat → Production Expression
  | 0 => IsDisjunction 0 none
  | levels + 1 => IsDisjunction (levels + 1) (some (IsExpression levels))

/-- What may stand inside the brackets of an expression of so many levels. -/
def insideOf : Nat → Option (Production Expression)
  | 0 => none
  | levels + 1 => some (IsExpression levels)

theorem isExpression_eq (levels : Nat) :
    IsExpression levels = IsDisjunction levels (insideOf levels) := by
  cases levels <;> rfl

end Criteria.Language.Derivation
