import Criteria.Language.Grammar
import Criteria.Operators.Application
import Criteria.Report.CompileError
import Criteria.Scope

/-! # From expressions to predicates

Names are resolved and operators applied from the leaves up. A leaf that is rejected rejects the
whole text, and the error shows exactly that leaf.
-/

set_option autoImplicit false

namespace Criteria.Language

open Number

/-- A rejection and the range of bytes it is about. -/
structure Fault where
  rejection : Rejection
  extent : Extent

/-- A result whose rejection is about the given range. -/
def atExtent {α : Type} (extent : Extent) (r : Except Rejection α) : Except Fault α :=
  match r with
  | .ok a => .ok a
  | .error rejection => .error ⟨rejection, extent⟩

/-- The function that a call writes. -/
def functionOfCall (name : String) (integers : List (Word 64)) :
    Except Rejection AttributeFunction :=
  let wrongCount (function : FunctionName) (expected : Nat) : Except Rejection AttributeFunction :=
    .error (.functionArguments function expected integers.length)
  match Operator.ofName? name with
  | some (.function function) =>
    match function, integers with
    | .substring, [start, stop] =>
      match Word.ofInt? 32 start.toInt, Word.ofInt? 32 stop.toInt with
      | some start, some stop => .ok (.substring start stop)
      | _, _ => .error (.substringRange start.toInt stop.toInt)
    | .substring, _ => wrongCount .substring 2
    | .toLowerCase, [] => .ok .toLowerCase
    | .absoluteValue, [] => .ok .absoluteValue
    | .year, [] => .ok .year
    | .month, [] => .ok .month
    | .dayOfMonth, [] => .ok .dayOfMonth
    | function, _ => wrongCount function 0
  | _ => .error (.unknownFunction name)

namespace Path

/-- Whether the root of the path is that of the scope. -/
def checkRoot (s : Scope) (p : Path) : Except Rejection Unit :=
  match p.root.value with
  | .this => .ok ()
  | .named name => Catalog.checkRoot s name

/-- The scope behind all names of the path. -/
def navigate (c : Catalog) (s : Scope) (p : Path) : Except Rejection Scope := do
  p.checkRoot s
  c.navigateAll s (p.segments.map (·.value))

/-- The attribute at the end of the path. -/
def resolve (c : Catalog) (s : Scope) (p : Path) : Except Rejection AttributeRef := do
  p.checkRoot s
  let target ← c.navigateAll s (p.hops.map (·.value))
  c.attributeRef target p.last.value

end Path

/-- The attribute or function that a term writes. -/
def Term.resolve (c : Catalog) (s : Scope) : Term → Except Rejection AttributeRef
  | path p => p.resolve c s
  | call _ name argument integers => do
    let source ← argument.resolve c s
    let function ← functionOfCall name.value (integers.map (·.value))
    source.apply function

namespace Expression

mutual

/-- The predicate of an expression in a scope. -/
def toPredicate (c : Catalog) (limits : Limits) (s : Scope) : Expression → Except Fault Predicate
  | all _ => .ok .all
  | none _ => .ok .none
  | conjunction _ first others => do
    let p ← first.toPredicate c limits s
    foldOthers c limits s Predicate.and p others
  | disjunction _ first others => do
    let p ← first.toPredicate c limits s
    foldOthers c limits s Predicate.or p others
  | group _ inner => inner.toPredicate c limits s
  | unary extent operand comparator => atExtent extent do
    let a ← operand.resolve c s
    a.compare limits comparator .empty
  | binary extent operand comparator parameter => atExtent extent do
    let a ← operand.resolve c s
    a.compare limits comparator (.value parameter.value)
  | existence _ navigation test filter => do
    let target ← atExtent navigation.extent (navigation.navigate c s)
    let relationship : RelationshipPath := ⟨target.rootType, target.navigation, target.currentType⟩
    let inner ← toFilter c limits target.rebase filter
    .ok (.existence test relationship inner)

/-- The operands of a combination joined to what is in front of them. -/
def foldOthers (c : Catalog) (limits : Limits) (s : Scope)
    (join : Predicate → Predicate → Predicate) (p : Predicate) :
    List Expression → Except Fault Predicate
  | [] => .ok p
  | e :: es => do
    let q ← e.toPredicate c limits s
    foldOthers c limits s join (join p q) es

/-- The predicate of a filter, if there is one. -/
def toFilter (c : Catalog) (limits : Limits) (s : Scope) :
    Option Expression → Except Fault (Option Predicate)
  | .none => .ok .none
  | some e => do
    let p ← e.toPredicate c limits s
    .ok (some p)

end

end Expression

/-- The predicate that a text writes about the entities of a type. A text that does not parse is
refused before the type is looked up. -/
def compile (c : Catalog) (limits : Limits) (rootType source : String) :
    Except CompileError Predicate :=
  let chars := source.toList
  match Expression.parse limits.maxDepth source with
  | .error e => .error (e.inSource chars)
  | .ok expression =>
    match c.root rootType with
    | .error r => .error (r.inSource chars ⟨0, Text.utf8Length chars⟩)
    | .ok scope =>
      match expression.toPredicate c limits scope with
      | .error fault => .error (fault.rejection.inSource chars fault.extent)
      | .ok p => .ok p

end Criteria.Language
