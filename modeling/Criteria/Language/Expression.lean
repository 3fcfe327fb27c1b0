import Criteria.Language.Token
import Criteria.Literal
import Criteria.Predicate.Basic

/-! # Expressions

The tree of a text of the language. Every node knows the range of bytes it was read from, so
what is wrong with it can be shown in the source.
-/

set_option autoImplicit false

namespace Criteria.Language

open Number

/-- The start of a path: the current entity, or the name of its type. -/
inductive Root where
  | this
  | named (typeName : String)
  deriving DecidableEq

/-- A root and at least one name behind it. -/
structure Path where
  root : Located Root
  hops : List (Located String)
  last : Located String
  deriving DecidableEq

namespace Path

/-- The path of a root and the names behind it, if there is a name. -/
def ofSegments? (root : Located Root) (segments : List (Located String)) : Option Path :=
  segments.getLast?.map fun last => ⟨root, segments.dropLast, last⟩

/-- All names behind the root. -/
def segments (p : Path) : List (Located String) := p.hops ++ [p.last]

/-- The range of the path. -/
def extent (p : Path) : Extent := ⟨p.root.extent.start, p.last.extent.stop⟩

/-- The path without its last name, if a name is left. -/
def parent? (p : Path) : Option Path := ofSegments? p.root p.hops

end Path

/-- What a comparison looks at: a path, or a function of a term with integers as further
arguments. -/
inductive Term where
  | path (p : Path)
  | call (extent : Extent) (name : Located String) (argument : Term)
      (integers : List (Located (Word 64)))

/-- The range of a term. -/
def Term.extent : Term → Extent
  | path p => p.extent
  | call extent _ _ _ => extent

/-- The tree of a text. A conjunction or disjunction has a first operand and at least one
more. -/
inductive Expression where
  | all (extent : Extent)
  | none (extent : Extent)
  | conjunction (extent : Extent) (first : Expression) (others : List Expression)
  | disjunction (extent : Extent) (first : Expression) (others : List Expression)
  | group (extent : Extent) (inner : Expression)
  | unary (extent : Extent) (operand : Term) (comparator : Comparator)
  | binary (extent : Extent) (operand : Term) (comparator : Comparator)
      (parameter : Located Literal)
  | existence (extent : Extent) (navigation : Path) (test : Existence)
      (filter : Option Expression)

/-- The range of an expression. -/
def Expression.extent : Expression → Extent
  | all extent => extent
  | none extent => extent
  | conjunction extent _ _ => extent
  | disjunction extent _ _ => extent
  | group extent _ => extent
  | unary extent _ _ => extent
  | binary extent _ _ _ => extent
  | existence extent _ _ _ => extent

end Criteria.Language
