import Criteria.Language.Expression
import Criteria.Language.Lexeme
import Criteria.Text.Basic

/-! # From tokens to expressions

The grammar, with `&` binding tighter than `|`:

    expression  = conjunction { "|" conjunction }
    conjunction = primary { "&" primary }
    primary     = "all" | "none" | "(" expression ")" | leaf
    leaf        = path "." method "(" [ expression ] ")"
                | path "exists"
                | path "not" "exists" [ "{" expression "}" ]
                | term "is" [ "not" ] "null"
                | term "equalsEdgePoint"
                | term operator parameter
    term        = path | identifier "(" term { "," integer } ")"
    path        = ( "this" | identifier ) "." name { "." name }
    parameter   = literal | "(" literal { "," literal } ")"

Every bracket that is opened, that of a list apart, uses up one level of the nesting allowed.
The levels left are what the reading of nested parts recurs on; along a chain of operands the
tokens become fewer.
-/

set_option autoImplicit false

namespace Criteria.Language

open Number

/-- The tokens still to be read. -/
abbrev Tokens : Type := List (Located Token)

/-- Something read from the front of the tokens, and the tokens behind it. -/
abbrev Reading (α : Type) (ts : Tokens) : Type := Except ParseError (α × Rest ts)

/-- What reading depends on beside the tokens: where the source ends and how deep it may be
nested. -/
structure Bounds where
  length : Nat
  maxDepth : Nat

namespace Grammar

variable (b : Bounds)

/-- The error of finding the tokens in place of what was expected. -/
def unexpected (expected : Expected) : Tokens → ParseError
  | [] => .unexpectedEnd expected b.length
  | t :: _ => .unexpectedToken t.value expected t.extent

/-- A token that has to stand next. -/
def require (token : Token) (expected : Expected) : (ts : Tokens) → Reading Extent ts
  | [] => .error (unexpected b expected [])
  | t :: r =>
    if t.value = token then .ok (t.extent, .tail t r) else .error (unexpected b expected (t :: r))

/-- Items with a symbol between them, at least one. -/
def chain {α : Type} (separator : Symbol) (item : (ts : Tokens) → Reading α ts) (ts : Tokens) :
    Reading (α × List α) ts := do
  let (first, ⟨rest, h⟩) ← item ts
  match rest, h with
  | t :: r, h =>
    if t.value = .symbol separator then
      let ((second, others), ⟨s, hs⟩) ← chain separator item r
      .ok ((first, second :: others), ⟨s, by simp only [List.length_cons] at h; omega⟩)
    else .ok ((first, []), ⟨t :: r, h⟩)
  | [], h => .ok ((first, []), ⟨[], h⟩)
termination_by ts.length
decreasing_by simp only [List.length_cons] at h; omega

/-! ## Literals and operators -/

/-- The literal that a token writes. -/
def literalOf? : Token → Option Literal
  | .string s => some (.string s)
  | .integer n => some (.integer n)
  | .float x => some (.float x)
  | .keyword .trueWord => some (.boolean true)
  | .keyword .falseWord => some (.boolean false)
  | .keyword .nullWord => some .null
  | _ => none

/-- A literal. -/
def literal : (ts : Tokens) → Reading (Located Literal) ts
  | [] => .error (unexpected b .literal [])
  | t :: r =>
    match literalOf? t.value with
    | some l => .ok (⟨l, t.extent⟩, .tail t r)
    | none => .error (unexpected b .literal (t :: r))

/-- A literal or a list of literals in parentheses. -/
def parameter : (ts : Tokens) → Reading (Located Literal) ts
  | [] => literal b []
  | t :: r =>
    if t.value = .symbol .leftParen then do
      let ((first, others), ⟨s, h⟩) ← chain .comma (literal b) r
      let (closing, ⟨rest, h'⟩) ← require b (.symbol .rightParen) .listContinuation s
      .ok (⟨.list ((first :: others).map (·.value)), ⟨t.extent.start, closing.stop⟩⟩,
        ⟨rest, by simp only [List.length_cons]; omega⟩)
    else literal b (t :: r)

/-- The operator that a token writes. -/
def comparatorOf? : Token → Option Comparator
  | .symbol .equal => some .eq
  | .symbol .assign => some .eq
  | .symbol .notEqual => some .notEq
  | .symbol .greater => some .greaterThan
  | .symbol .greaterEqual => some .greaterThanEquals
  | .symbol .less => some .lessThan
  | .symbol .lessEqual => some .lessThanEquals
  | .keyword .inWord => some .isIn
  | .identifier "startsWith" => some .startsWith
  | .identifier "endsWith" => some .endsWith
  | .identifier "contains" => some .contains
  | .identifier "wildCardEquals" => some .wildCardEquals
  | .identifier "wildCardIn" => some .wildCardIn
  | _ => none

/-- The operator that a token writes behind `not`. -/
def negatedOf? : Token → Option Comparator
  | .keyword .inWord => some .notIn
  | .identifier "startsWith" => some .notStartsWith
  | .identifier "endsWith" => some .notEndsWith
  | .identifier "contains" => some .notContains
  | .identifier "wildCardEquals" => some .wildCardNotEquals
  | _ => none

/-- An operator that takes a parameter. -/
def comparator : (ts : Tokens) → Reading Comparator ts
  | [] => .error (unexpected b .operator [])
  | t :: r =>
    match comparatorOf? t.value with
    | some c => .ok (c, .tail t r)
    | none =>
      if t.value = .keyword .notWord then
        match r with
        | [] => .error (unexpected b .operator [])
        | u :: s =>
          match negatedOf? u.value with
          | some c => .ok (c, ⟨s, by simp only [List.length_cons]; omega⟩)
          | none => .error (unexpected b .operator (u :: s))
      else .error (unexpected b .operator (t :: r))

/-- An operator without parameter, if one stands next, and the end of its range. -/
def unaryComparator? : (ts : Tokens) → Except ParseError (Option ((Comparator × Nat) × Rest ts))
  | ⟨.keyword .isWord, _⟩ :: ⟨.keyword .notWord, _⟩ :: r => do
    let (extent, ⟨rest, h⟩) ← require b (.keyword .nullWord) .nullWord r
    .ok (some ((.isNotNull, extent.stop), ⟨rest, by simp only [List.length_cons]; omega⟩))
  | ⟨.keyword .isWord, _⟩ :: r => do
    let (extent, ⟨rest, h⟩) ← require b (.keyword .nullWord) .nullWord r
    .ok (some ((.isNull, extent.stop), ⟨rest, by simp only [List.length_cons]; omega⟩))
  | ⟨.identifier "equalsEdgePoint", extent⟩ :: r =>
    .ok (some ((.equalsEdgePoint, extent.stop), .tail _ r))
  | _ => .ok none

/-! ## Paths and terms -/

/-- The names behind a root, each behind a dot. -/
def names : (ts : Tokens) →
    Except ParseError (List (Located String) × { r : Tokens // r.length ≤ ts.length })
  | ⟨.symbol .dot, _⟩ :: t :: r =>
    match t.value.name? with
    | some name => do
      let (others, ⟨rest, h⟩) ← names r
      .ok (⟨name, t.extent⟩ :: others, ⟨rest, by simp only [List.length_cons]; omega⟩)
    | none => .error (unexpected b .member (t :: r))
  | [⟨.symbol .dot, _⟩] => .error (unexpected b .member [])
  | ts => .ok ([], ⟨ts, Nat.le_refl _⟩)

/-- The root that a token writes. -/
def rootOf? : Token → Option Root
  | .keyword .thisWord => some .this
  | .identifier name => some (.named name)
  | _ => none

/-- A path. -/
def path : (ts : Tokens) → Reading Path ts
  | [] => .error (unexpected b .root [])
  | t :: r =>
    match rootOf? t.value with
    | none => .error (unexpected b .root (t :: r))
    | some root => do
      let (segments, ⟨rest, h⟩) ← names b r
      match Path.ofSegments? ⟨root, t.extent⟩ segments with
      | some p => .ok (p, ⟨rest, by simp only [List.length_cons]; omega⟩)
      | none => .error (unexpected b .dot rest)

/-- The integers behind the first argument of a function, each behind a comma. -/
def integers : (ts : Tokens) →
    Except ParseError (List (Located (Word 64)) × { r : Tokens // r.length ≤ ts.length })
  | ⟨.symbol .comma, _⟩ :: ⟨.integer n, extent⟩ :: r => do
    let (others, ⟨rest, h⟩) ← integers r
    .ok (⟨n, extent⟩ :: others, ⟨rest, by simp only [List.length_cons]; omega⟩)
  | ⟨.symbol .comma, _⟩ :: r => .error (unexpected b .integer r)
  | ts => .ok ([], ⟨ts, Nat.le_refl _⟩)

/-- A term, with the given levels of nesting left. -/
def term : (levels : Nat) → (ts : Tokens) → Reading Term ts
  | 0, ⟨.identifier _, extent⟩ :: ⟨.symbol .leftParen, _⟩ :: _ =>
    .error (.nestingTooDeep b.maxDepth extent.start)
  | levels + 1, ⟨.identifier name, extent⟩ :: ⟨.symbol .leftParen, _⟩ :: r => do
    let (argument, ⟨s, h⟩) ← term levels r
    let (others, ⟨s', h'⟩) ← integers b s
    let (closing, ⟨rest, h''⟩) ← require b (.symbol .rightParen) .listContinuation s'
    .ok (.call ⟨extent.start, closing.stop⟩ ⟨name, extent⟩ argument others,
      ⟨rest, by simp only [List.length_cons]; omega⟩)
  | _, ts => do
    let (p, rest) ← path b ts
    .ok (.path p, rest)

/-! ## Leaves -/

/-- The reader of what stands inside a bracket, unless no level of nesting is left. -/
abbrev Inside : Type := Option ((ts : Tokens) → Reading Expression ts)

/-- What stands behind a bracket that was opened at `position`, through the closing one. -/
def bracketed (inside : Inside) (position : Nat) (closing : Symbol) (expected : Expected)
    (ts : Tokens) : Reading (Expression × Extent) ts :=
  match inside with
  | none => .error (.nestingTooDeep b.maxDepth position)
  | some expression => do
    let (e, ⟨s, h⟩) ← expression ts
    let (extent, ⟨rest, h'⟩) ← require b (.symbol closing) expected s
    .ok ((e, extent), ⟨rest, Nat.lt_trans h' h⟩)

/-- The operator behind a term, and its parameter if it takes one. -/
def comparison (operand : Term) (ts : Tokens) : Reading Expression ts := do
  let start := operand.extent.start
  match ← unaryComparator? b ts with
  | some ((c, stop), rest) => .ok (.unary ⟨start, stop⟩ operand c, rest)
  | none =>
    let (c, ⟨s, h⟩) ← comparator b ts
    let (l, ⟨rest, h'⟩) ← parameter b s
    .ok (.binary ⟨start, l.extent.stop⟩ operand c l, ⟨rest, Nat.lt_trans h' h⟩)

/-- What stands behind the parenthesis of a method on a relationship, through the closing one. -/
def methodFilter (inside : Inside) (position : Nat) :
    (ts : Tokens) → Reading (Option Expression × Extent) ts
  | ⟨.symbol .rightParen, extent⟩ :: r =>
    match inside with
    | none => .error (.nestingTooDeep b.maxDepth position)
    | some _ => .ok ((none, extent), .tail _ r)
  | ts => do
    let ((e, extent), rest) ← bracketed b inside position .rightParen .closingParen ts
    .ok ((some e, extent), rest)

/-- What stands behind a path: an existence test or a comparison. -/
def behindPath (inside : Inside) (p : Path) : (ts : Tokens) → Reading Expression ts
  | ⟨.symbol .leftParen, paren⟩ :: r =>
    match Existence.ofMethod? p.last.value with
    | none => comparison b (.path p) (⟨.symbol .leftParen, paren⟩ :: r)
    | some test =>
      match p.parent? with
      | none => .error (.unexpectedToken (.identifier test.method) .relationship p.last.extent)
      | some navigation => do
        let ((filter, closing), ⟨rest, h⟩) ← methodFilter b inside p.last.extent.start r
        .ok (.existence ⟨p.extent.start, closing.stop⟩ navigation test filter,
          ⟨rest, by simp only [List.length_cons]; omega⟩)
  | ⟨.identifier "exists", extent⟩ :: r =>
    .ok (.existence ⟨p.extent.start, extent.stop⟩ p .present none, .tail _ r)
  | ⟨.keyword .notWord, _⟩ :: ⟨.identifier "exists", extent⟩ :: ⟨.symbol .leftBrace, _⟩ :: r => do
    let ((filter, closing), ⟨rest, h⟩) ←
      bracketed b inside extent.stop .rightBrace .closingBrace r
    .ok (.existence ⟨p.extent.start, closing.stop⟩ p .absent (some filter),
      ⟨rest, by simp only [List.length_cons]; omega⟩)
  | ⟨.keyword .notWord, _⟩ :: ⟨.identifier "exists", extent⟩ :: r =>
    .ok (.existence ⟨p.extent.start, extent.stop⟩ p .absent none,
      ⟨r, by simp only [List.length_cons]; omega⟩)
  | ts => comparison b (.path p) ts

/-- A comparison or an existence test, with the given levels of nesting left. -/
def leaf (levels : Nat) (inside : Inside) : (ts : Tokens) → Reading Expression ts
  | ⟨.identifier name, extent⟩ :: ⟨.symbol .leftParen, paren⟩ :: r => do
    let (operand, ⟨s, h⟩) ←
      term b levels (⟨.identifier name, extent⟩ :: ⟨.symbol .leftParen, paren⟩ :: r)
    let (e, ⟨rest, h'⟩) ← comparison b operand s
    .ok (e, ⟨rest, Nat.lt_trans h' h⟩)
  | ts => do
    let (p, ⟨s, h⟩) ← path b ts
    let (e, ⟨rest, h'⟩) ← behindPath b inside p s
    .ok (e, ⟨rest, Nat.lt_trans h' h⟩)

/-! ## Expressions -/

/-- An operand of a conjunction. -/
def primary (levels : Nat) (inside : Inside) : (ts : Tokens) → Reading Expression ts
  | ⟨.keyword .allWord, extent⟩ :: r => .ok (.all extent, .tail _ r)
  | ⟨.keyword .noneWord, extent⟩ :: r => .ok (.none extent, .tail _ r)
  | ⟨.symbol .leftParen, extent⟩ :: r => do
    let ((inner, closing), ⟨rest, h⟩) ←
      bracketed b inside extent.start .rightParen .closingParen r
    .ok (.group ⟨extent.start, closing.stop⟩ inner,
      ⟨rest, by simp only [List.length_cons]; omega⟩)
  | ⟨.keyword .thisWord, extent⟩ :: r => leaf b levels inside (⟨.keyword .thisWord, extent⟩ :: r)
  | ⟨.identifier name, extent⟩ :: r => leaf b levels inside (⟨.identifier name, extent⟩ :: r)
  | ts => .error (unexpected b .operation ts)

/-- One operand as it is, several as a combination over their whole range. -/
def combine (combination : Extent → Expression → List Expression → Expression)
    (first : Expression) (others : List Expression) : Expression :=
  match others.getLast? with
  | none => first
  | some last => combination ⟨first.extent.start, last.extent.stop⟩ first others

/-- Operands with `&` between them. -/
def conjunction (levels : Nat) (inside : Inside) (ts : Tokens) : Reading Expression ts := do
  let ((first, others), rest) ← chain .ampersand (primary b levels inside) ts
  .ok (combine .conjunction first others, rest)

/-- Conjunctions with `|` between them. -/
def disjunction (levels : Nat) (inside : Inside) (ts : Tokens) : Reading Expression ts := do
  let ((first, others), rest) ← chain .pipe (conjunction b levels inside) ts
  .ok (combine .disjunction first others, rest)

/-- An expression, with the given levels of nesting left. -/
def expression : (levels : Nat) → (ts : Tokens) → Reading Expression ts
  | 0, ts => disjunction b 0 none ts
  | levels + 1, ts => disjunction b (levels + 1) (some (expression levels)) ts

end Grammar

/-- The expression that tokens make up, with nothing behind it. -/
def Expression.ofTokens (b : Bounds) (ts : Tokens) : Except ParseError Expression := do
  let (e, ⟨rest, _⟩) ← Grammar.expression b b.maxDepth ts
  match rest with
  | [] => .ok e
  | _ => .error (Grammar.unexpected b .continuation rest)

/-- The expression that a text writes, nested at most `maxDepth` deep. -/
def Expression.parse (maxDepth : Nat) (source : String) : Except ParseError Expression := do
  let tokens ← tokenize source
  Expression.ofTokens ⟨Text.utf8Length source.toList, maxDepth⟩ tokens

end Criteria.Language
