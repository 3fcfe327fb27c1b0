import Criteria.Proofs.Structural.Places
import Criteria.Proofs.Structural.WellFormed

/-! # Faults of structural criteria

The first fault of criteria in the order of the document, stated without the conversion: everything
in front of it is well formed. A fault has a site and a reason; the number of levels bounds how deep
objects of criteria are nested, the object itself included.
-/

set_option autoImplicit false

namespace Criteria.Structural

/-! ## Faults of operators -/

section

variable (c : Catalog) (limits : Limits)

/-- An operator on an attribute is rejected itself: its name means nothing for the attribute, its
parameter is refused, or the object of a function is not what the function takes. -/
inductive OperatorRejected (a : AttributeRef) (name : String) : Json → Rejection → Prop
  | unknown {parameter : Json} {r : Rejection} (h : a.valueType.resolveOperator name = .error r) :
      OperatorRejected a name parameter r
  | compared {parameter : Json} {comparator : Comparator} {arity : Arity} {r : Rejection}
      (offered : a.valueType.resolveOperator name = .ok (.compare comparator, arity))
      (h : a.compare limits comparator (argumentOf parameter) = .error r) :
      OperatorRejected a name parameter r
  | empty {parameter : Json} {function : FunctionName} {arity : Arity}
      (offered : a.valueType.resolveOperator name = .ok (.function function, arity))
      (h : parameter.isEmptyNode = true) : OperatorRejected a name parameter .emptyNode
  | shape {parameter : Json} {function : FunctionName} {arity : Arity}
      (offered : a.valueType.resolveOperator name = .ok (.function function, arity))
      (nonempty : parameter.isEmptyNode = false) (h : ∀ members, parameter ≠ .object members) :
      OperatorRejected a name parameter (.functionNeedsObject function parameter)
  | taken {members : List (String × Json)} {function : FunctionName} {arity : Arity}
      {r : Rejection} (offered : a.valueType.resolveOperator name = .ok (.function function, arity))
      (nonempty : members ≠ []) (h : functionOf function members (.object members) = .error r) :
      OperatorRejected a name (.object members) r
  | applied {members : List (String × Json)} {function : FunctionName} {arity : Arity}
      {applied : AttributeFunction} {own : List String} {r : Rejection}
      (offered : a.valueType.resolveOperator name = .ok (.function function, arity))
      (nonempty : members ≠ [])
      (takes : functionOf function members (.object members) = .ok (applied, own))
      (h : a.apply applied = .error r) : OperatorRejected a name (.object members) r

mutual

/-- An object of operators has a fault: no level is left for it, or one of its operators has one and
those in front are well formed. -/
inductive FaultyOperators :
    Nat → AttributeRef → List String → List (String × Json) → Site → Rejection → Prop
  | tooDeep {a : AttributeRef} {skipped : List String} {members : List (String × Json)} :
      FaultyOperators 0 a skipped members (.here [] (.object members)) (.tooDeep limits.maxDepth)
  | operator {levels : Nat} {a : AttributeRef} {skipped : List String}
      {front back : List (String × Json)} {name : String} {parameter : Json} {site : Site}
      {r : Rejection}
      (first : ∀ m ∈ front, m.1 ∉ skipped → WellFormedOperator limits levels a m.1 m.2)
      (kept : name ∉ skipped) (h : FaultyOperator levels a name parameter site r) :
      FaultyOperators (levels + 1) a skipped (front ++ (name, parameter) :: back)
        (site.behind (.operator name)) r

/-- An operator has a fault: it is rejected itself, or there is a fault in the criteria on what its
function derives. -/
inductive FaultyOperator : Nat → AttributeRef → String → Json → Site → Rejection → Prop
  | rejected {levels : Nat} {a : AttributeRef} {name : String} {parameter : Json} {r : Rejection}
      (h : OperatorRejected limits a name parameter r) :
      FaultyOperator levels a name parameter (.here [] parameter) r
  | function {levels : Nat} {a derived : AttributeRef} {name : String}
      {members : List (String × Json)} {function : FunctionName} {arity : Arity}
      {applied : AttributeFunction} {own : List String} {site : Site} {r : Rejection}
      (offered : a.valueType.resolveOperator name = .ok (.function function, arity))
      (nonempty : members ≠ [])
      (takes : functionOf function members (.object members) = .ok (applied, own))
      (derives : a.apply applied = .ok derived)
      (h : FaultyOperators levels derived own members site r) :
      FaultyOperator levels a name (.object members) site r

end

/-! ## Faults of criteria -/

/-- An entry of an object of criteria is rejected itself: its value has the wrong shape for its key,
or the key means nothing where it stands. -/
inductive EntryRejected (scope : Scope) : String → Json → Rejection → Prop
  | emptyList (combinator : Combinator) :
      EntryRejected scope combinator.key (.array []) .emptyNode
  | noList {value : Json} (combinator : Combinator) (h : ∀ items, value ≠ .array items) :
      EntryRejected scope combinator.key value (.combinatorNeedsList combinator.key value)
  | atRoot {value : Json} (test : Existence) (h : scope.navigation = []) :
      EntryRejected scope test.method value (.existenceAtRoot test.method)
  | noFilter {value : Json} (test : Existence) (navigated : scope.navigation ≠ [])
      (h : ∀ members, value ≠ .object members) :
      EntryRejected scope test.method value (.existenceNeedsObject test.method value)
  | emptyField {key : String} {value : Json} (field : IsField key)
      (h : value.isEmptyNode = true) : EntryRejected scope key value .emptyNode
  | noCriteria {key : String} {value : Json} (field : IsField key)
      (nonempty : value.isEmptyNode = false) (h : ∀ members, value ≠ .object members) :
      EntryRejected scope key value (.fieldNeedsObject key value)
  | unknown {key : String} {members : List (String × Json)} {r : Rejection} (field : IsField key)
      (nonempty : members ≠ []) (h : c.field scope key = .error r) :
      EntryRejected scope key (.object members) r

mutual

/-- An object of criteria has a fault: no level is left for it, it mixes combinators with other
keys, or one of its entries has one and those in front are well formed. -/
inductive FaultyObject :
    Nat → Scope → List (String × Json) → Site → Rejection → Prop
  | tooDeep {scope : Scope} {members : List (String × Json)} :
      FaultyObject 0 scope members (.here [] (.object members)) (.tooDeep limits.maxDepth)
  | mixed {levels : Nat} {scope : Scope} {members : List (String × Json)}
      (h : mixesCombinators members = true) :
      FaultyObject (levels + 1) scope members (.here [] (.object members)) .mixedCombinators
  | entry {levels : Nat} {scope : Scope} {front back : List (String × Json)} {key : String}
      {value : Json} {site : Site} {r : Rejection}
      (pure : mixesCombinators (front ++ (key, value) :: back) = false)
      (first : ∀ m ∈ front, WellFormedEntry c limits levels scope m.1 m.2)
      (h : FaultyEntry levels scope key value site r) :
      FaultyObject (levels + 1) scope (front ++ (key, value) :: back)
        (site.behind (.key key)) r

/-- An entry has a fault: it is rejected itself, or there is a fault in an item of its list, in its
filter, or in its criteria on a member. -/
inductive FaultyEntry : Nat → Scope → String → Json → Site → Rejection → Prop
  | rejected {levels : Nat} {scope : Scope} {key : String} {value : Json} {r : Rejection}
      (h : EntryRejected c scope key value r) :
      FaultyEntry levels scope key value (.here [] value) r
  | item {levels : Nat} {scope : Scope} {front back : List Json} {item : Json} {site : Site}
      {r : Rejection} (combinator : Combinator)
      (first : ∀ item ∈ front, WellFormedItem c limits levels scope item)
      (h : FaultyItem levels scope item site r) :
      FaultyEntry levels scope combinator.key (.array (front ++ item :: back))
        (site.behind (.item front.length)) r
  | filter {levels : Nat} {scope : Scope} {members : List (String × Json)} {site : Site}
      {r : Rejection} (test : Existence) (navigated : scope.navigation ≠ [])
      (nonempty : members ≠ []) (h : FaultyObject levels scope.rebase members site r) :
      FaultyEntry levels scope test.method (.object members) (site.within members) r
  | attr {levels : Nat} {scope : Scope} {key : String} {members : List (String × Json)}
      {a : AttributeRef} {site : Site} {r : Rejection} (field : IsField key)
      (nonempty : members ≠ []) (found : c.field scope key = .ok (.attr a))
      (h : FaultyOperators limits levels a [] members site r) :
      FaultyEntry levels scope key (.object members) site r
  | relationship {levels : Nat} {scope target : Scope} {key : String}
      {members : List (String × Json)} {site : Site} {r : Rejection} (field : IsField key)
      (nonempty : members ≠ []) (found : c.field scope key = .ok (.relationship target))
      (h : FaultyObject levels target members site r) :
      FaultyEntry levels scope key (.object members) site r

/-- An item of a list of criteria has a fault: it is no object, or the object has one. -/
inductive FaultyItem : Nat → Scope → Json → Site → Rejection → Prop
  | rejected {levels : Nat} {scope : Scope} {item : Json} (h : ∀ members, item ≠ .object members) :
      FaultyItem levels scope item (.here [] item) (.itemNeedsObject item)
  | object {levels : Nat} {scope : Scope} {members : List (String × Json)} {site : Site}
      {r : Rejection} (h : FaultyObject levels scope members site r) :
      FaultyItem levels scope (.object members) site r

end

end

end Criteria.Structural
