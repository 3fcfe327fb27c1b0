import Criteria.Language.Expression
import Mathlib

/-! # Phrases

The derivation trees of the grammar, with a constructor for each alternative of a production:

    composite   = conjunction { "|" conjunction }
    conjunction = primary { "&" primary }
    primary     = "all" | "none" | "(" composite ")"
                | path test | term unary | term binary parameter
    test        = "exists" | "not" "exists" [ "{" composite "}" ]
                | "." method "(" [ composite ] ")"
    term        = path | identifier "(" term { "," integer } ")"
    path        = ( "this" | identifier ) "." name { "." name }
    name        = identifier | keyword
    parameter   = scalar | "(" scalar { "," scalar } ")"

A phrase has its tokens, the depth to which its brackets are nested, and the expression that it
stands for, without any place in a source. The grammar is not ambiguous: phrases that stand for the
same expression and start the same tokens are the same (`Composite.eq_of_tokens`).
-/

set_option autoImplicit false

namespace Criteria.Language

open Number

/-! ## Expressions without places -/

/-- The range of what stands nowhere. -/
def Extent.blank : Extent := ⟨0, 0⟩

/-- A value that stands nowhere. -/
def Located.nowhere {α : Type} (value : α) : Located α := ⟨value, .blank⟩

/-- The value without its place. -/
def Located.unplaced {α : Type} (l : Located α) : Located α := .nowhere l.value

/-- The path without places. -/
def Path.unplaced (p : Path) : Path :=
  ⟨p.root.unplaced, p.hops.map Located.unplaced, p.last.unplaced⟩

/-- The term without places. -/
def Term.unplaced : Term → Term
  | path p => .path p.unplaced
  | call _ name argument integers =>
    .call .blank name.unplaced argument.unplaced (integers.map Located.unplaced)

namespace Expression

mutual

/-- The expression without places. -/
def unplaced : Expression → Expression
  | all _ => .all .blank
  | none _ => .none .blank
  | conjunction _ first others => .conjunction .blank first.unplaced (unplacedList others)
  | disjunction _ first others => .disjunction .blank first.unplaced (unplacedList others)
  | group _ inner => .group .blank inner.unplaced
  | unary _ operand comparator => .unary .blank operand.unplaced comparator
  | binary _ operand comparator parameter =>
    .binary .blank operand.unplaced comparator parameter.unplaced
  | existence _ navigation test filter =>
    .existence .blank navigation.unplaced test (unplacedFilter filter)

/-- The operands of a combination without places. -/
def unplacedList : List Expression → List Expression
  | [] => []
  | e :: es => e.unplaced :: unplacedList es

/-- A filter without places. -/
def unplacedFilter : Option Expression → Option Expression
  | .none => .none
  | some e => some e.unplaced

end

theorem unplacedList_eq_map (es : List Expression) : unplacedList es = es.map unplaced := by
  induction es with
  | nil => rfl
  | cons e es ih => rw [unplacedList, ih, List.map_cons]

end Expression

namespace Phrase

/-! ## Tokens in a row -/

/-- The tokens, each behind a symbol. -/
def behind (separator : Symbol) (tokens : List Token) : List Token :=
  tokens.flatMap fun t => [.symbol separator, t]

@[simp] theorem behind_nil (separator : Symbol) : behind separator [] = [] := rfl

@[simp] theorem behind_cons (separator : Symbol) (t : Token) (tokens : List Token) :
    behind separator (t :: tokens) = .symbol separator :: t :: behind separator tokens := rfl

theorem behind_append (separator : Symbol) (tokens others : List Token) :
    behind separator (tokens ++ others) = behind separator tokens ++ behind separator others :=
  List.flatMap_append

/-- As many tokens behind a symbol are the same if they start the same tokens. -/
theorem behind_inj {separator : Symbol} {tokens tokens' r r' : List Token}
    (hlength : tokens.length = tokens'.length)
    (h : behind separator tokens ++ r = behind separator tokens' ++ r') :
    tokens = tokens' ∧ r = r' := by
  induction tokens generalizing tokens' with
  | nil =>
    obtain rfl : tokens' = [] := List.length_eq_zero_iff.1 hlength.symm
    exact ⟨rfl, h⟩
  | cons t tokens ih =>
    cases tokens' with
    | nil => cases hlength
    | cons t' tokens' =>
      simp only [behind_cons, List.cons_append, List.cons.injEq, true_and] at h
      obtain ⟨rfl, h⟩ := h
      obtain ⟨rfl, rfl⟩ := ih (Nat.succ.inj hlength) h
      exact ⟨rfl, rfl⟩

/-! ## Literals and operators -/

/-- A literal that is one token. -/
inductive Scalar where
  | string (s : String)
  | integer (n : Word 64)
  | float (x : Double)
  | boolean (b : Bool)
  | null

namespace Scalar

/-- The token of the literal. -/
def token : Scalar → Token
  | string s => .string s
  | integer n => .integer n
  | float x => .float x
  | boolean true => .keyword .trueWord
  | boolean false => .keyword .falseWord
  | null => .keyword .nullWord

/-- The literal that is written. -/
def literal : Scalar → Literal
  | string s => .string s
  | integer n => .integer n
  | float x => .float x
  | boolean b => .boolean b
  | null => .null

theorem literal_injective : Function.Injective literal := by
  intro s s' h
  cases s <;> cases s' <;> cases h <;> rfl

theorem literal_ne_list (s : Scalar) (items : List Literal) : s.literal ≠ .list items := by
  cases s <;> exact Literal.noConfusion

end Scalar

/-- What a binary operator takes: a literal, or a list of them in parentheses. -/
inductive Parameter where
  | scalar (s : Scalar)
  | list (first : Scalar) (others : List Scalar)

namespace Parameter

/-- The tokens of the parameter. -/
def tokens : Parameter → List Token
  | scalar s => [s.token]
  | list first others =>
    .symbol .leftParen :: first.token ::
      (behind .comma (others.map Scalar.token) ++ [.symbol .rightParen])

/-- The literal that is written. -/
def literal : Parameter → Literal
  | scalar s => s.literal
  | list first others => .list ((first :: others).map Scalar.literal)

/-- A parameter is known from what it writes. -/
theorem literal_injective : Function.Injective literal := by
  intro p p' h
  cases p with
  | scalar s =>
    cases p' with
    | scalar s' => rw [Scalar.literal_injective h]
    | list first' others' => exact absurd h (s.literal_ne_list _)
  | list first others =>
    cases p' with
    | scalar s' => exact absurd h.symm (s'.literal_ne_list _)
    | list first' others' =>
      have hitems := Scalar.literal_injective.list_map (Literal.list.inj h)
      obtain ⟨rfl, rfl⟩ := List.cons.inj hitems
      rfl

end Parameter

/-- The operators that take a parameter, each with its tokens. -/
def binaryOperators : List (List Token × Comparator) :=
  [([.symbol .equal], .eq), ([.symbol .assign], .eq), ([.symbol .notEqual], .notEq),
    ([.symbol .greater], .greaterThan), ([.symbol .greaterEqual], .greaterThanEquals),
    ([.symbol .less], .lessThan), ([.symbol .lessEqual], .lessThanEquals),
    ([.keyword .inWord], .isIn), ([.keyword .notWord, .keyword .inWord], .notIn),
    ([.identifier "startsWith"], .startsWith),
    ([.keyword .notWord, .identifier "startsWith"], .notStartsWith),
    ([.identifier "endsWith"], .endsWith),
    ([.keyword .notWord, .identifier "endsWith"], .notEndsWith),
    ([.identifier "contains"], .contains),
    ([.keyword .notWord, .identifier "contains"], .notContains),
    ([.identifier "wildCardEquals"], .wildCardEquals),
    ([.keyword .notWord, .identifier "wildCardEquals"], .wildCardNotEquals),
    ([.identifier "wildCardIn"], .wildCardIn)]

/-- The operators that take none. -/
def unaryOperators : List (List Token × Comparator) :=
  [([.keyword .isWord, .keyword .nullWord], .isNull),
    ([.keyword .isWord, .keyword .notWord, .keyword .nullWord], .isNotNull),
    ([.identifier "equalsEdgePoint"], .equalsEdgePoint)]

/-- An operator of a table. -/
structure Spelling (table : List (List Token × Comparator)) where
  tokens : List Token
  comparator : Comparator
  mem : (tokens, comparator) ∈ table

/-- The spellings of an operator are equally long. -/
theorem Spelling.eq_of_tokens {table : List (List Token × Comparator)}
    (hlength : ∀ s ∈ table, ∀ s' ∈ table, s.2 = s'.2 → s.1.length = s'.1.length)
    {o o' : Spelling table} {r r' : List Token} (hcomparator : o.comparator = o'.comparator)
    (h : o.tokens ++ r = o'.tokens ++ r') : o = o' ∧ r = r' := by
  obtain ⟨tokens, comparator, hmem⟩ := o
  obtain ⟨tokens', comparator', hmem'⟩ := o'
  obtain rfl : comparator = comparator' := hcomparator
  obtain ⟨rfl, rfl⟩ := List.append_inj h (hlength _ hmem _ hmem' rfl)
  exact ⟨rfl, rfl⟩

theorem binaryOperators_length :
    ∀ s ∈ binaryOperators, ∀ s' ∈ binaryOperators, s.2 = s'.2 → s.1.length = s'.1.length := by
  decide

theorem unaryOperators_length :
    ∀ s ∈ unaryOperators, ∀ s' ∈ unaryOperators, s.2 = s'.2 → s.1.length = s'.1.length := by
  decide

/-! ## Paths and terms -/

/-- A name behind a dot, which may be a reserved word. -/
inductive Name where
  | word (name : String)
  | reserved (k : Keyword)

namespace Name

/-- The token of the name. -/
def token : Name → Token
  | word name => .identifier name
  | reserved k => .keyword k

/-- The name that is written. -/
def text : Name → String
  | word name => name
  | reserved k => k.text

theorem token_injective : Function.Injective token := by
  intro n n' h
  cases n <;> cases n' <;> cases h <;> rfl

end Name

/-- The token of the start of a path. -/
def rootToken : Root → Token
  | .this => .keyword .thisWord
  | .named typeName => .identifier typeName

/-- A root and at least one name behind it. -/
structure Path where
  root : Root
  hops : List Name
  last : Name

namespace Path

/-- All names behind the root. -/
def names (p : Path) : List Name := p.hops ++ [p.last]

/-- The tokens of the path. -/
def tokens (p : Path) : List Token := rootToken p.root :: behind .dot (p.names.map Name.token)

/-- The path that is written. -/
def path (p : Path) : Language.Path :=
  ⟨.nowhere p.root, p.hops.map fun n => .nowhere n.text, .nowhere p.last.text⟩

/-- The path with a further name. -/
def extend (p : Path) (n : Name) : Path := ⟨p.root, p.names, n⟩

theorem tokens_extend (p : Path) (n : Name) :
    (p.extend n).tokens = p.tokens ++ [.symbol .dot, n.token] := by
  simp [tokens, extend, names, behind_append]

theorem eq_of_tokens {p p' : Path} {r r' : List Token} (hpath : p.path = p'.path)
    (h : p.tokens ++ r = p'.tokens ++ r') : p = p' ∧ r = r' := by
  obtain ⟨root, hops, last⟩ := p
  obtain ⟨root', hops', last'⟩ := p'
  obtain rfl : root = root' := congrArg (·.root.value) hpath
  -- Paths that are the same have equally many names, and so do the phrases.
  have hlength : hops.length = hops'.length := by
    have hhops := congrArg (·.hops.length) hpath
    simpa [path] using hhops
  simp only [tokens, List.cons_append, List.cons.injEq] at h
  obtain ⟨hnames, rfl⟩ := behind_inj (by simp [names, hlength]) h.2
  have hnames : hops ++ [last] = hops' ++ [last'] := Name.token_injective.list_map hnames
  obtain ⟨rfl, hlast⟩ := List.append_inj hnames hlength
  obtain rfl : last = last' := List.singleton_inj.1 hlast
  exact ⟨rfl, rfl⟩

end Path

/-- A path, or a function of a term with integers as further arguments. -/
inductive Term where
  | path (p : Path)
  | call (name : String) (argument : Term) (integers : List (Word 64))

namespace Term

/-- The tokens of the term. -/
def tokens : Term → List Token
  | path p => p.tokens
  | call name argument integers =>
    .identifier name :: .symbol .leftParen ::
      (argument.tokens ++ (behind .comma (integers.map Token.integer) ++ [.symbol .rightParen]))

/-- How deep functions are nested. -/
def nesting : Term → Nat
  | path _ => 0
  | call _ argument _ => argument.nesting + 1

/-- The term that is written. -/
def term : Term → Language.Term
  | path p => .path p.path
  | call name argument integers =>
    .call .blank (.nowhere name) argument.term (integers.map Located.nowhere)

theorem eq_of_tokens {t t' : Term} {r r' : List Token} (hterm : t.term = t'.term)
    (h : t.tokens ++ r = t'.tokens ++ r') : t = t' ∧ r = r' := by
  induction t generalizing t' r r' with
  | path p =>
    cases t' with
    | path p' =>
      obtain ⟨rfl, rfl⟩ := Path.eq_of_tokens (Language.Term.path.inj hterm) h
      exact ⟨rfl, rfl⟩
    | call name' argument' integers' => cases hterm
  | call name argument integers ih =>
    cases t' with
    | path p' => cases hterm
    | call name' argument' integers' =>
      obtain ⟨-, -, hargument, hintegers⟩ := Language.Term.call.inj hterm
      have hinjective : Function.Injective (Located.nowhere (α := Word 64)) :=
        fun n n' h => congrArg Located.value h
      obtain rfl := hinjective.list_map hintegers
      simp only [tokens, List.cons_append, List.append_assoc, List.cons.injEq, true_and,
        Token.identifier.injEq] at h
      obtain ⟨rfl, h⟩ := h
      obtain ⟨rfl, hrest⟩ := ih hargument h
      exact ⟨rfl, (List.cons.inj (List.append_cancel_left hrest)).2⟩

end Term

/-! ## Expressions -/

mutual

/-- Conjunctions with `|` between them. -/
inductive Composite where
  | one (first : Conjunction)
  | more (first : Conjunction) (others : Composite)

/-- Operands with `&` between them. -/
inductive Conjunction where
  | one (first : Primary)
  | more (first : Primary) (others : Conjunction)

/-- An operand of a conjunction. -/
inductive Primary where
  | all
  | none
  | group (inner : Composite)
  | existence (navigation : Path) (test : Test)
  | unary (operand : Term) (operator : Spelling unaryOperators)
  | binary (operand : Term) (operator : Spelling binaryOperators) (parameter : Parameter)

/-- What stands behind the path of an existence test. -/
inductive Test where
  | present
  | absent
  | absentWith (filter : Composite)
  | method (existence : Existence)
  | methodWith (existence : Existence) (filter : Composite)

end

mutual

/-- The tokens of a composite. -/
def Composite.tokens : Composite → List Token
  | .one first => first.tokens
  | .more first others => first.tokens ++ .symbol .pipe :: others.tokens

/-- The tokens of a conjunction. -/
def Conjunction.tokens : Conjunction → List Token
  | .one first => first.tokens
  | .more first others => first.tokens ++ .symbol .ampersand :: others.tokens

/-- The tokens of an operand. -/
def Primary.tokens : Primary → List Token
  | .all => [.keyword .allWord]
  | .none => [.keyword .noneWord]
  | .group inner => .symbol .leftParen :: (inner.tokens ++ [.symbol .rightParen])
  | .existence navigation test => navigation.tokens ++ test.tokens
  | .unary operand operator => operand.tokens ++ operator.tokens
  | .binary operand operator parameter =>
    operand.tokens ++ (operator.tokens ++ parameter.tokens)

/-- The tokens of an existence test. -/
def Test.tokens : Test → List Token
  | .present => [.identifier "exists"]
  | .absent => [.keyword .notWord, .identifier "exists"]
  | .absentWith filter =>
    .keyword .notWord :: .identifier "exists" :: .symbol .leftBrace ::
      (filter.tokens ++ [.symbol .rightBrace])
  | .method existence =>
    [.symbol .dot, .identifier existence.method, .symbol .leftParen, .symbol .rightParen]
  | .methodWith existence filter =>
    .symbol .dot :: .identifier existence.method :: .symbol .leftParen ::
      (filter.tokens ++ [.symbol .rightParen])

end

mutual

/-- How deep brackets are nested, those of lists apart. -/
def Composite.nesting : Composite → Nat
  | .one first => first.nesting
  | .more first others => max first.nesting others.nesting

/-- How deep brackets are nested in a conjunction. -/
def Conjunction.nesting : Conjunction → Nat
  | .one first => first.nesting
  | .more first others => max first.nesting others.nesting

/-- How deep brackets are nested in an operand. -/
def Primary.nesting : Primary → Nat
  | .all => 0
  | .none => 0
  | .group inner => inner.nesting + 1
  | .existence _ test => test.nesting
  | .unary operand _ => operand.nesting
  | .binary operand _ _ => operand.nesting

/-- How deep brackets are nested in an existence test. -/
def Test.nesting : Test → Nat
  | .present => 0
  | .absent => 0
  | .absentWith filter => filter.nesting + 1
  | .method _ => 1
  | .methodWith _ filter => filter.nesting + 1

end

/-- What is asked of the entities at the end of the path. -/
def Test.existence : Test → Existence
  | .present => .present
  | .absent => .absent
  | .absentWith _ => .absent
  | .method existence => existence
  | .methodWith existence _ => existence

/-- One operand as it is, several combined. -/
def joined (combination : Extent → Expression → List Expression → Expression) :
    Expression × List Expression → Expression
  | (first, []) => first
  | (first, others) => combination .blank first others

mutual

/-- The first operand of a disjunction and the others. -/
def Composite.operands : Composite → Expression × List Expression
  | .one first => (joined .conjunction first.operands, [])
  | .more first others =>
    (joined .conjunction first.operands, others.operands.1 :: others.operands.2)

/-- The first operand of a conjunction and the others. -/
def Conjunction.operands : Conjunction → Expression × List Expression
  | .one first => (first.expression, [])
  | .more first others => (first.expression, others.operands.1 :: others.operands.2)

/-- The expression that an operand stands for. -/
def Primary.expression : Primary → Expression
  | .all => .all .blank
  | .none => .none .blank
  | .group inner => .group .blank (joined .disjunction inner.operands)
  | .existence navigation test => .existence .blank navigation.path test.existence test.filter
  | .unary operand operator => .unary .blank operand.term operator.comparator
  | .binary operand operator parameter =>
    .binary .blank operand.term operator.comparator (.nowhere parameter.literal)

/-- The filter of an existence test. -/
def Test.filter : Test → Option Expression
  | .present => none
  | .absent => none
  | .absentWith filter => some (joined .disjunction filter.operands)
  | .method _ => none
  | .methodWith _ filter => some (joined .disjunction filter.operands)

end

/-- The expression that a conjunction stands for. -/
def Conjunction.expression (c : Conjunction) : Expression := joined .conjunction c.operands

/-- The expression that a composite stands for. -/
def Composite.expression (c : Composite) : Expression := joined .disjunction c.operands

/-! ## Phrases of the same tokens -/

/-- Operands are known from what they are joined to if none is such a combination itself. -/
theorem joined_inj {combination : Extent → Expression → List Expression → Expression}
    (hinj : ∀ {e f : Expression} {es fs : List Expression},
      combination .blank e es = combination .blank f fs → e = f ∧ es = fs)
    {a a' : Expression × List Expression}
    (ha : ∀ e es, a.1 ≠ combination .blank e es) (ha' : ∀ e es, a'.1 ≠ combination .blank e es)
    (h : joined combination a = joined combination a') : a = a' := by
  obtain ⟨e, es⟩ := a
  obtain ⟨e', es'⟩ := a'
  cases es with
  | nil =>
    cases es' with
    | nil =>
      have he : e = e' := h
      rw [he]
    | cons f' fs' => exact absurd h (ha _ _)
  | cons f fs =>
    cases es' with
    | nil => exact absurd h.symm (ha' _ _)
    | cons f' fs' =>
      obtain ⟨rfl, hes⟩ := hinj h
      rw [hes]

theorem Primary.expression_ne_conjunction (p : Primary) (e : Expression) (es : List Expression) :
    p.expression ≠ .conjunction .blank e es := by
  cases p <;> exact Expression.noConfusion

theorem Primary.expression_ne_disjunction (p : Primary) (e : Expression) (es : List Expression) :
    p.expression ≠ .disjunction .blank e es := by
  cases p <;> exact Expression.noConfusion

theorem Conjunction.operands_ne_conjunction (c : Conjunction) (e : Expression)
    (es : List Expression) : c.operands.1 ≠ .conjunction .blank e es := by
  cases c with
  | one first => exact first.expression_ne_conjunction e es
  | more first others => exact first.expression_ne_conjunction e es

theorem Conjunction.expression_ne_disjunction (c : Conjunction) (e : Expression)
    (es : List Expression) : c.expression ≠ .disjunction .blank e es := by
  cases c with
  | one first => exact first.expression_ne_disjunction e es
  | more first others => exact Expression.noConfusion

theorem Composite.operands_ne_disjunction (c : Composite) (e : Expression)
    (es : List Expression) : c.operands.1 ≠ .disjunction .blank e es := by
  cases c with
  | one first => exact first.expression_ne_disjunction e es
  | more first others => exact first.expression_ne_disjunction e es

theorem Conjunction.operands_eq {c c' : Conjunction} (h : c.expression = c'.expression) :
    c.operands = c'.operands :=
  joined_inj (fun h => (Expression.conjunction.inj h).2) c.operands_ne_conjunction
    c'.operands_ne_conjunction h

theorem Composite.operands_eq {c c' : Composite} (h : c.expression = c'.expression) :
    c.operands = c'.operands :=
  joined_inj (fun h => (Expression.disjunction.inj h).2) c.operands_ne_disjunction
    c'.operands_ne_disjunction h

mutual

/-- Composites that stand for the same operands and start the same tokens are the same. -/
theorem Composite.eq_of_operands {c c' : Composite} {r r' : List Token}
    (hoperands : c.operands = c'.operands) (h : c.tokens ++ r = c'.tokens ++ r') :
    c = c' ∧ r = r' := by
  cases c with
  | one first =>
    cases c' with
    | one first' =>
      have hfirst := Conjunction.operands_eq (Prod.mk.inj hoperands).1
      obtain ⟨rfl, rfl⟩ := Conjunction.eq_of_operands hfirst h
      exact ⟨rfl, rfl⟩
    | more first' others' => cases (Prod.mk.inj hoperands).2
  | more first others =>
    cases c' with
    | one first' => cases (Prod.mk.inj hoperands).2
    | more first' others' =>
      obtain ⟨hfirst, hothers⟩ := Prod.mk.inj hoperands
      obtain ⟨hsecond, hothers⟩ := List.cons.inj hothers
      simp only [Composite.tokens, List.append_assoc, List.cons_append] at h
      obtain ⟨rfl, hrest⟩ := Conjunction.eq_of_operands (Conjunction.operands_eq hfirst) h
      obtain ⟨rfl, rfl⟩ :=
        Composite.eq_of_operands (Prod.ext hsecond hothers) (List.cons.inj hrest).2
      exact ⟨rfl, rfl⟩
termination_by structural c

theorem Conjunction.eq_of_operands {c c' : Conjunction} {r r' : List Token}
    (hoperands : c.operands = c'.operands) (h : c.tokens ++ r = c'.tokens ++ r') :
    c = c' ∧ r = r' := by
  cases c with
  | one first =>
    cases c' with
    | one first' =>
      obtain ⟨rfl, rfl⟩ := Primary.eq_of_expression (Prod.mk.inj hoperands).1 h
      exact ⟨rfl, rfl⟩
    | more first' others' => cases (Prod.mk.inj hoperands).2
  | more first others =>
    cases c' with
    | one first' => cases (Prod.mk.inj hoperands).2
    | more first' others' =>
      obtain ⟨hfirst, hothers⟩ := Prod.mk.inj hoperands
      obtain ⟨hsecond, hothers⟩ := List.cons.inj hothers
      simp only [Conjunction.tokens, List.append_assoc, List.cons_append] at h
      obtain ⟨rfl, hrest⟩ := Primary.eq_of_expression hfirst h
      obtain ⟨rfl, rfl⟩ :=
        Conjunction.eq_of_operands (Prod.ext hsecond hothers) (List.cons.inj hrest).2
      exact ⟨rfl, rfl⟩
termination_by structural c

theorem Primary.eq_of_expression {p p' : Primary} {r r' : List Token}
    (hexpression : p.expression = p'.expression) (h : p.tokens ++ r = p'.tokens ++ r') :
    p = p' ∧ r = r' := by
  cases p with
  | all =>
    cases p' with
    | all => exact ⟨rfl, (List.cons.inj h).2⟩
    | _ => cases hexpression
  | none =>
    cases p' with
    | none => exact ⟨rfl, (List.cons.inj h).2⟩
    | _ => cases hexpression
  | group inner =>
    cases p' with
    | group inner' =>
      have hinner := Composite.operands_eq (Expression.group.inj hexpression).2
      simp only [Primary.tokens, List.cons_append, List.append_assoc, List.cons.injEq,
        true_and] at h
      obtain ⟨rfl, hrest⟩ := Composite.eq_of_operands hinner h
      exact ⟨rfl, (List.cons.inj hrest).2⟩
    | _ => cases hexpression
  | existence navigation test =>
    cases p' with
    | existence navigation' test' =>
      obtain ⟨-, hnavigation, hexistence, hfilter⟩ := Expression.existence.inj hexpression
      simp only [Primary.tokens, List.append_assoc] at h
      obtain ⟨rfl, hrest⟩ := Path.eq_of_tokens hnavigation h
      obtain ⟨rfl, rfl⟩ := Test.eq_of_tokens hexistence hfilter hrest
      exact ⟨rfl, rfl⟩
    | _ => cases hexpression
  | unary operand operator =>
    cases p' with
    | unary operand' operator' =>
      obtain ⟨-, hoperand, hoperator⟩ := Expression.unary.inj hexpression
      simp only [Primary.tokens, List.append_assoc] at h
      obtain ⟨rfl, hrest⟩ := Term.eq_of_tokens hoperand h
      obtain ⟨rfl, rfl⟩ := Spelling.eq_of_tokens unaryOperators_length hoperator hrest
      exact ⟨rfl, rfl⟩
    | _ => cases hexpression
  | binary operand operator parameter =>
    cases p' with
    | binary operand' operator' parameter' =>
      obtain ⟨-, hoperand, hoperator, hparameter⟩ := Expression.binary.inj hexpression
      obtain rfl := Parameter.literal_injective (congrArg Located.value hparameter)
      simp only [Primary.tokens, List.append_assoc] at h
      obtain ⟨rfl, hrest⟩ := Term.eq_of_tokens hoperand h
      obtain ⟨rfl, hrest'⟩ := Spelling.eq_of_tokens binaryOperators_length hoperator hrest
      exact ⟨rfl, List.append_cancel_left hrest'⟩
    | _ => cases hexpression
termination_by structural p

/-- A test and a method that ask the same differ in their first token. -/
theorem Test.eq_of_tokens {t t' : Test} {r r' : List Token}
    (hexistence : t.existence = t'.existence) (hfilter : t.filter = t'.filter)
    (h : t.tokens ++ r = t'.tokens ++ r') : t = t' ∧ r = r' := by
  cases t with
  | present =>
    cases t' with
    | present => exact ⟨rfl, (List.cons.inj h).2⟩
    | method existence' => cases (List.cons.inj h).1
    | absent => cases hexistence
    | _ => cases hfilter
  | absent =>
    cases t' with
    | absent => exact ⟨rfl, (List.cons.inj (List.cons.inj h).2).2⟩
    | method existence' => cases (List.cons.inj h).1
    | present => cases hexistence
    | _ => cases hfilter
  | absentWith filter =>
    cases t' with
    | absentWith filter' =>
      have hoperands := Composite.operands_eq (Option.some.inj hfilter)
      simp only [Test.tokens, List.cons_append, List.append_assoc, List.cons.injEq, true_and] at h
      obtain ⟨rfl, hrest⟩ := Composite.eq_of_operands hoperands h
      exact ⟨rfl, (List.cons.inj hrest).2⟩
    | methodWith existence' filter' => cases (List.cons.inj h).1
    | _ => cases hfilter
  | method existence =>
    cases t' with
    | method existence' =>
      obtain rfl : existence = existence' := hexistence
      exact ⟨rfl, List.append_cancel_left h⟩
    | present => cases (List.cons.inj h).1
    | absent => cases (List.cons.inj h).1
    | _ => cases hfilter
  | methodWith existence filter =>
    cases t' with
    | methodWith existence' filter' =>
      obtain rfl : existence = existence' := hexistence
      have hoperands := Composite.operands_eq (Option.some.inj hfilter)
      simp only [Test.tokens, List.cons_append, List.append_assoc, List.cons.injEq, true_and] at h
      obtain ⟨rfl, hrest⟩ := Composite.eq_of_operands hoperands h
      exact ⟨rfl, (List.cons.inj hrest).2⟩
    | absentWith filter' => cases (List.cons.inj h).1
    | _ => cases hfilter
termination_by structural t

end

/-- Phrases of the same expression that start the same tokens are the same. -/
theorem Composite.eq_of_tokens {c c' : Composite} {r r' : List Token}
    (hexpression : c.expression = c'.expression) (h : c.tokens ++ r = c'.tokens ++ r') :
    c = c' ∧ r = r' :=
  Composite.eq_of_operands (Composite.operands_eq hexpression) h

end Phrase

end Criteria.Language
