import Criteria.Json.Reader
import Criteria.Operators.Application
import Criteria.Report.CompileError
import Criteria.Scope

/-! # From structural criteria to predicates

Criteria are nested objects. A key is a combinator with a list of criteria, an existence test
with a filter, or a member of the current type; below an attribute the keys are operators and
functions. All entries of an object have to hold.
-/

set_option autoImplicit false

namespace Criteria.Structural

open Number

/-- How a key combines the criteria in its list. -/
inductive Combinator where
  | conjunction
  | disjunction
  deriving DecidableEq

namespace Combinator

/-- The key. -/
def key : Combinator → String
  | conjunction => "AND"
  | disjunction => "OR"

/-- The combinator of a key. -/
def ofKey? : String → Option Combinator
  | "AND" => some conjunction
  | "OR" => some disjunction
  | _ => none

/-- Two predicates combined. -/
def join : Combinator → Predicate → Predicate → Predicate
  | conjunction => Predicate.and
  | disjunction => Predicate.or

end Combinator

/-- What a key of criteria stands for. -/
inductive Key where
  | combinator (combinator : Combinator)
  | existence (test : Existence)
  | field (name : String)
  deriving DecidableEq

/-- What a key stands for: combinators and existence tests have names of their own. -/
def Key.ofText (key : String) : Key :=
  match Combinator.ofKey? key, Existence.ofMethod? key with
  | some found, _ => .combinator found
  | none, some test => .existence test
  | none, none => .field key

/-- Whether a combinator stands beside other keys. -/
def mixesCombinators (members : List (String × Json)) : Bool :=
  1 < members.length && members.any fun m => (Combinator.ofKey? m.1).isSome

/-- The argument that a JSON value is to an operator. -/
def argumentOf (parameter : Json) : Argument :=
  match parameter with
  | .object [] => .empty
  | _ => match Literal.ofJson? parameter with
    | some l => .value l
    | none => .unsupported parameter.compact

/-- The keys of the bounds of a substring. -/
def boundKeys : List String := ["start", "end"]

/-- A bound of a substring among the members of its object. -/
def bound? (members : List (String × Json)) (key : String) : Option (Word 32) :=
  match members.lookup key with
  | some (.number (.integer n)) => Word.ofInt? 32 n
  | _ => none

/-- The function that an object of criteria applies, and the keys that belong to the function
itself. -/
def functionOf (name : FunctionName) (members : List (String × Json)) (found : Json) :
    Except Rejection (AttributeFunction × List String) :=
  match name with
  | .substring =>
    match bound? members "start", bound? members "end" with
    | some start, some stop =>
      if members.all (·.1 ∈ boundKeys) then .error .emptyNode
      else .ok (.substring start stop, boundKeys)
    | _, _ => .error (.substringBounds found)
  | .toLowerCase => .ok (.toLowerCase, [])
  | .absoluteValue => .ok (.absoluteValue, [])
  | .year => .ok (.year, [])
  | .month => .ok (.month, [])
  | .dayOfMonth => .ok (.dayOfMonth, [])

/-- A result whose rejection lies within the given context. -/
def within {α : Type} (context : ContextPath) (r : Except Rejection α) : Except CompileError α :=
  match r with
  | .ok a => .ok a
  | .error rejection => .error (rejection.within context)

/-- Refuses criteria at a depth beyond the limit. -/
def checkDepth (limits : Limits) (context : ContextPath) (depth : Nat) :
    Except CompileError Unit :=
  if limits.maxDepth < depth then .error ((Rejection.tooDeep limits.maxDepth).within context)
  else .ok ()

section

variable (c : Catalog) (limits : Limits)

mutual

/-- Operators and functions on an attribute, all of which have to hold. Keys that belong to the
function around them are passed over. -/
def ofOperators (a : AttributeRef) (context : ContextPath) (depth : Nat) (skipped : List String)
    (p : Predicate) : List (String × Json) → Except CompileError Predicate
  | [] => .ok p
  | (name, parameter) :: members =>
    if name ∈ skipped then ofOperators a context depth skipped p members
    else do
      let (operator, _) ← within context (a.valueType.resolveOperator name)
      let q ← match operator with
        | .compare comparator =>
          within context (a.compare limits comparator (argumentOf parameter))
        | .function function => ofFunction a context depth function parameter
      ofOperators a context depth skipped (p.and q) members
termination_by structural members => members

/-- A function of an attribute and the criteria on what it derives. -/
def ofFunction (a : AttributeRef) (context : ContextPath) (depth : Nat) (name : FunctionName)
    (parameter : Json) : Except CompileError Predicate :=
  match parameter with
  | .object members =>
    if members.isEmpty then .error (Rejection.emptyNode.within context)
    else do
      let (function, skipped) ← within context (functionOf name members (.object members))
      let derived ← within context (a.apply function)
      checkDepth limits context (depth + 1)
      ofOperators derived context (depth + 1) skipped .all members
  | .array [] => .error (Rejection.emptyNode.within context)
  | found => .error ((Rejection.functionNeedsObject name found).within context)
termination_by structural parameter

end

/-- Why the value of an entry has the wrong shape for its key. -/
def shapeError (scope : Scope) (context : ContextPath) (key : Key) (value : Json) : CompileError :=
  match key with
  | .combinator combinator =>
    let rejection : Rejection :=
      match value with
      | .array [] => .emptyNode
      | found => .combinatorNeedsList combinator.key found
    rejection.within (context.push combinator.key)
  | .existence test =>
    let rejection : Rejection :=
      if scope.isRoot then .existenceAtRoot test.method
      else .existenceNeedsObject test.method value
    rejection.within context
  | .field name =>
    let rejection : Rejection :=
      if value.isEmptyNode then .emptyNode else .fieldNeedsObject name value
    rejection.within (context.push name)

/-- Refuses criteria that are nested too deep or mix combinators with other keys. -/
def checkMembers (context : ContextPath) (depth : Nat) (members : List (String × Json)) :
    Except CompileError Unit := do
  checkDepth limits context depth
  if mixesCombinators members then .error (Rejection.mixedCombinators.within context) else .ok ()

mutual

/-- The entries of an object, all of which have to hold. -/
def ofMembers (scope : Scope) (context : ContextPath) (depth : Nat) (p : Predicate) :
    List (String × Json) → Except CompileError Predicate
  | [] => .ok p
  | (key, value) :: members => do
    let q ← ofEntry scope context depth (.ofText key) value
    ofMembers scope context depth (p.and q) members
termination_by structural members => members

/-- The entry of a key. An existence test is about the chain of relationships that leads here,
and its filter is read in a scope and a context of its own. -/
def ofEntry (scope : Scope) (context : ContextPath) (depth : Nat) (key : Key) (value : Json) :
    Except CompileError Predicate :=
  match value with
  | .array (item :: items) =>
    match key with
    | .combinator combinator => do
      let p ← ofItem scope context depth combinator 0 item
      ofItems scope context depth combinator 1 p items
    | _ => .error (shapeError scope context key (.array (item :: items)))
  | .object members =>
    match key with
    | .combinator _ => .error (shapeError scope context key (.object members))
    | .existence test =>
      match scope.relationshipPath? with
      | none => .error (shapeError scope context key (.object members))
      | some relationship =>
        if members.isEmpty then .ok (.existence test relationship none)
        else do
          checkMembers limits {} (depth + 1) members
          let filter ← ofMembers scope.rebase {} (depth + 1) .all members
          .ok (.existence test relationship (some filter))
    | .field name =>
      if members.isEmpty then .error (shapeError scope context key (.object members))
      else do
        let inner := context.push name
        match ← within inner (c.field scope name) with
        | .attr a =>
          checkDepth limits inner (depth + 1)
          ofOperators limits a inner (depth + 1) [] .all members
        | .relationship target =>
          checkMembers limits inner (depth + 1) members
          ofMembers target inner (depth + 1) .all members
  | found => .error (shapeError scope context key found)
termination_by structural value

/-- The item of a combinator at an index. -/
def ofItem (scope : Scope) (context : ContextPath) (depth : Nat) (combinator : Combinator)
    (index : Nat) (item : Json) : Except CompileError Predicate :=
  let inner := context.push s!"{combinator.key}[{index}]"
  match item with
  | .object members => do
    checkMembers limits inner (depth + 1) members
    ofMembers scope inner (depth + 1) .all members
  | found => .error ((Rejection.itemNeedsObject found).within inner)
termination_by structural item

/-- The items of a combinator from an index on, joined to what is in front of them. -/
def ofItems (scope : Scope) (context : ContextPath) (depth : Nat) (combinator : Combinator)
    (index : Nat) (p : Predicate) : List Json → Except CompileError Predicate
  | [] => .ok p
  | item :: items => do
    let q ← ofItem scope context depth combinator index item
    ofItems scope context depth combinator (index + 1) (combinator.join p q) items
termination_by structural items => items

end

/-- The predicate that criteria write about the entities of a type. -/
def convert (rootType : String) (criteria : List (String × Json)) :
    Except CompileError Predicate := do
  let context : ContextPath := {}
  let scope ← within context (c.root rootType)
  checkMembers limits context 0 criteria
  ofMembers c limits scope context 0 .all criteria

end

end Criteria.Structural
