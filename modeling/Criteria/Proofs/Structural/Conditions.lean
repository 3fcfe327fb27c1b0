import Criteria.Proofs.Condition
import Criteria.Proofs.Predicate.Shape
import Criteria.Proofs.Schema.Loading
import Criteria.Proofs.Structural.Depth
import Criteria.Proofs.Structural.WellFormed

/-! # Conditions as criteria

The criteria of a condition convert to the verdict on the condition (`Condition.convert_verdict`):
relationships and the attribute are entered from the outside in, and so are the functions, each of
which is applied before what stands inside it is looked at.
-/

set_option autoImplicit false

namespace Criteria

open Number

/-- A comparison that the type does not offer is refused, whatever it is with. -/
theorem AttributeRef.compare_of_not_offered {a : AttributeRef} {comparator : Comparator}
    (h : a.valueType.arity? (.compare comparator) = none) (limits : Limits)
    (argument : Argument) :
    a.compare limits comparator argument =
      .error (.unknownOperation a.valueType comparator.name) := by
  unfold compare
  rw [h]

namespace Structural

theorem within_bind {α β : Type} (context : ContextPath) (r : Except Rejection α)
    (f : α → Except Rejection β) :
    within context (r >>= f) = within context r >>= fun a => within context (f a) := by
  cases r <;> rfl

/-- Every operator is found under its own name. -/
theorem ofName?_name (o : Operator) : Operator.ofName? o.name = some o := by
  rcases o with comparator | function
  · cases comparator <;> rfl
  · cases function <;> rfl

theorem name_not_mem_boundKeys (o : Operator) : o.name ∉ boundKeys := by
  rcases o with comparator | function
  · cases comparator <;> decide
  · cases function <;> decide

/-- A name resolves to the operator that bears it, if the type offers the operator. -/
theorem resolveOperator_name {t : ValueType} {o : Operator} {arity : Arity}
    (h : t.arity? o = some arity) : t.resolveOperator o.name = .ok (o, arity) :=
  resolveOperator_eq_ok.2 ⟨ofName?_name o, h⟩

theorem resolveOperator_name_of_not_offered {t : ValueType} {o : Operator}
    (h : t.arity? o = none) : t.resolveOperator o.name = .error (.unknownOperation t o.name) := by
  rw [ValueType.resolveOperator, ofName?_name, Option.bind_some, h]
  rfl

section

variable {c : Catalog} {limits : Limits} {scope : Scope} {a : AttributeRef}
  {context : ContextPath} {depth : Nat}

/-! ## Operators -/

theorem ofOperators_skipped {p : Predicate} {skipped : List String}
    {members others : List (String × Json)} (h : ∀ m ∈ members, m.1 ∈ skipped) :
    ofOperators limits a context depth skipped p (members ++ others) =
      ofOperators limits a context depth skipped p others := by
  induction members with
  | nil => rfl
  | cons m members ih =>
    rw [List.cons_append, ofOperators, if_pos (h m List.mem_cons_self)]
    exact ih fun n hn => h n (List.mem_cons_of_mem m hn)

theorem ofOperators_of_not_mem {p : Predicate} {skipped : List String} {entry : String × Json}
    (h : entry.1 ∉ skipped) :
    ofOperators limits a context depth skipped p [entry] =
      ofOperators limits a context depth [] p [entry] := by
  obtain ⟨name, parameter⟩ := entry
  simp only [ofOperators, if_neg h, if_neg List.not_mem_nil]

/-- Under any name of a comparison operator that the type offers stands its parameter. -/
theorem ofOperators_resolved {key : String} {comparator : Comparator} {arity : Arity}
    (h : a.valueType.resolveOperator key = .ok (.compare comparator, arity)) (parameter : Json) :
    ofOperators limits a context depth [] .all [(key, parameter)] =
      within context (a.compare limits comparator (argumentOf parameter)) := by
  rw [ofOperators, if_neg List.not_mem_nil, h]
  show within context (a.compare limits comparator (argumentOf parameter)) >>= _ = _
  cases a.compare limits comparator (argumentOf parameter) <;> rfl

/-- An operator that the type does not offer is refused by its name, and a comparison with it is
refused in the same words. -/
theorem ofOperators_comparator (comparator : Comparator) (parameter : Json) :
    ofOperators limits a context depth [] .all [(comparator.name, parameter)] =
      within context (a.compare limits comparator (argumentOf parameter)) := by
  cases harity : a.valueType.arity? (.compare comparator) with
  | none =>
    have hoperator : a.valueType.resolveOperator comparator.name = _ :=
      resolveOperator_name_of_not_offered harity
    rw [ofOperators, if_neg List.not_mem_nil, hoperator,
      AttributeRef.compare_of_not_offered harity]
    rfl
  | some arity =>
    have hoperator : a.valueType.resolveOperator comparator.name = _ := resolveOperator_name harity
    exact ofOperators_resolved hoperator parameter

/-- The members of a call give the function back, and with it the names of its bounds. -/
theorem functionOf_call (f : Call) {entry : String × Json} (hentry : entry.1 ∉ boundKeys)
    (found : Json) :
    functionOf f.name (f.bounds ++ [entry]) found =
      (f.function fun _ _ => .substringBounds found).map fun function =>
        (function, f.bounds.map (·.1)) := by
  cases f with
  | substring start stop =>
    have hmore : ¬(((Call.substring start stop).bounds ++ [entry]).all
        (·.1 ∈ boundKeys) = true) := by
      simp [hentry]
    have hfirst : bound? ((Call.substring start stop).bounds ++ [entry]) "start" =
        Word.ofInt? 32 start.toInt := by
      rfl
    have hlast : bound? ((Call.substring start stop).bounds ++ [entry]) "end" =
        Word.ofInt? 32 stop.toInt := by
      rfl
    cases hstart : Word.ofInt? 32 start.toInt with
    | none =>
      simp only [functionOf, Call.name, Call.function, hfirst, hstart, Except.map]
    | some first =>
      cases hstop : Word.ofInt? 32 stop.toInt with
      | none =>
        simp only [functionOf, Call.name, Call.function, hfirst, hlast, hstart, hstop, Except.map]
      | some last =>
        have hkeys : (Call.substring start stop).bounds.map (·.1) = boundKeys := by
          rfl
        simp only [functionOf, Call.name, Call.function, hfirst, hlast, hstart, hstop, if_neg hmore,
          Except.map, hkeys]
  | plain function h =>
    cases function with
    | substring start stop => exact absurd rfl h
    | _ => rfl

theorem bounds_subset_boundKeys (f : Call) : f.bounds.map (·.1) ⊆ boundKeys := by
  cases f with
  | substring start stop => exact List.Subset.refl _
  | plain function h => exact List.nil_subset _

/-- A function that the type offers is applied if its bounds fit, and what stands inside is about
what it yields. -/
theorem ofOperators_call {f : Call} (hoffered : ⟨.function f.name, .derive⟩ ∈ a.valueType.operators)
    (hdepth : depth + 1 ≤ limits.maxDepth) {entry : String × Json}
    (hentry : entry.1 ∉ boundKeys) :
    ofOperators limits a context depth [] .all [f.entry entry] =
      within context (f.function (fun _ _ => .substringBounds (f.entry entry).2) >>= a.apply) >>=
        fun b => ofOperators limits b context (depth + 1) [] .all [entry] := by
  have harity := ValueType.arity?_eq_some.2 hoffered
  have hchecked : checkDepth limits context (depth + 1) = .ok () := checkDepth_eq_ok.2 hdepth
  have hbounds : ∀ m ∈ f.bounds, m.1 ∈ f.bounds.map (·.1) := fun m hm => List.mem_map_of_mem hm
  have hskipped : entry.1 ∉ f.bounds.map (·.1) := fun h => hentry (bounds_subset_boundKeys f h)
  have hinside : ofFunction limits a context depth f.name (f.entry entry).2 =
      within context (f.function (fun _ _ => .substringBounds (f.entry entry).2) >>= a.apply) >>=
        fun b => ofOperators limits b context (depth + 1) [] .all [entry] := by
    rw [Call.entry, ofFunction, if_neg (by simp), functionOf_call f hentry]
    cases f.function fun _ _ => .substringBounds (.object (f.bounds ++ [entry])) with
    | error r => rfl
    | ok function =>
      show within context (a.apply function) >>= _ = within context (a.apply function) >>= _
      congr 1
      funext b
      rw [hchecked]
      show ofOperators limits b context (depth + 1) (f.bounds.map (·.1)) .all
        (f.bounds ++ [entry]) = _
      rw [ofOperators_skipped hbounds, ofOperators_of_not_mem hskipped]
  have hoperator : a.valueType.resolveOperator f.name.text = _ := resolveOperator_name harity
  show ofOperators limits a context depth [] .all [(f.name.text, (f.entry entry).2)] = _
  rw [ofOperators, if_neg List.not_mem_nil, hoperator]
  show ofFunction limits a context depth f.name (f.entry entry).2 >>= _ = _
  rw [hinside]
  cases within context (f.function (fun _ _ => .substringBounds (f.entry entry).2) >>= a.apply) >>=
    fun b => ofOperators limits b context (depth + 1) [] .all [entry] <;> rfl

/-! ## Members -/

theorem ofMembers_single {key : String} (hkey : IsField key) (value : Json) :
    ofMembers c limits scope context depth .all [(key, value)] =
      ofEntry c limits scope context depth (.field key) value := by
  rw [ofMembers, ofText_field hkey]
  cases ofEntry c limits scope context depth (.field key) value <;> rfl

/-- Nothing stands beside a combinator where there is one member only. -/
theorem checkMembers_single (hdepth : depth ≤ limits.maxDepth) (entry : String × Json) :
    checkMembers limits context depth [entry] = .ok () :=
  checkMembers_eq_ok.2 ⟨hdepth, mixesCombinators_eq_false.2 (.inr rfl)⟩

/-- A relationship is entered if no attribute has its name. -/
theorem ofMembers_relationship {name : String} (hname : IsField name) {r : Relationship}
    (hother : c.attribute? scope.currentType name = none)
    (hfound : c.relationship? scope.currentType name = some r)
    (hdepth : depth + 1 ≤ limits.maxDepth) (entry : String × Json) :
    ofMembers c limits scope context depth .all [(name, .object [entry])] =
      ofMembers c limits (scope.enter name r.target) (context.push name) (depth + 1) .all
        [entry] := by
  have hfield : c.field scope name = .ok (.relationship (scope.enter name r.target)) :=
    Catalog.field_iff.2 (.inr ⟨hother, r, hfound, rfl⟩)
  rw [ofMembers_single hname, ofEntry, if_neg (by simp), hfield]
  show checkMembers limits (context.push name) (depth + 1) [entry] >>= _ = _
  rw [checkMembers_single hdepth]
  rfl

theorem ofMembers_attribute {name : String} (hname : IsField name) {found : Attribute}
    (hfound : c.attribute? scope.currentType name = some found)
    (hdepth : depth + 1 ≤ limits.maxDepth) (entry : String × Json) :
    ofMembers c limits scope context depth .all [(name, .object [entry])] =
      ofOperators limits (scope.reference found) (context.push name) (depth + 1) [] .all
        [entry] := by
  have hfield : c.field scope name = .ok (.attr (scope.reference found)) :=
    Catalog.field_iff.2 (.inl ⟨found, hfound, rfl⟩)
  rw [ofMembers_single hname, ofEntry, if_neg (by simp), hfield]
  have hchecked : checkDepth limits (context.push name) (depth + 1) = .ok () :=
    checkDepth_eq_ok.2 hdepth
  show checkDepth limits (context.push name) (depth + 1) >>= _ = _
  rw [hchecked]
  rfl

/-- Along the relationships, the scope and the context move on, and each takes a level. -/
theorem ofMembers_chain {names : List String} {owner : String}
    (hnames : ∀ name ∈ names, IsField name)
    (hdistinct : ∀ typeName name, c.attribute? typeName name = none ∨
      c.relationship? typeName name = none)
    (htarget : c.target? scope.currentType names = some owner)
    (hdepth : depth + names.length ≤ limits.maxDepth) (entry : String × Json) :
    ofMembers c limits scope context depth .all
        [names.foldr (fun hop below => (hop, .object [below])) entry] =
      ofMembers c limits ⟨scope.rootType, scope.navigation ++ names, owner⟩
        ⟨context.labels ++ names⟩ (depth + names.length) .all [entry] := by
  induction names generalizing scope context depth with
  | nil =>
    cases htarget
    rw [List.append_nil, List.append_nil]
    rfl
  | cons name names ih =>
    obtain ⟨r, hr, htarget⟩ := Option.bind_eq_some_iff.1 htarget
    have hother : c.attribute? scope.currentType name = none := by
      rcases hdistinct scope.currentType name with h | h
      · exact h
      · cases hr.symm.trans h
    rw [List.length_cons] at hdepth
    rw [List.foldr_cons, ofMembers_relationship (hnames name List.mem_cons_self) hother hr
      (by omega), ih (fun n hn => hnames n (List.mem_cons_of_mem name hn)) htarget (by omega)]
    simp [Scope.enter, ContextPath.push, Nat.add_assoc, Nat.add_comm 1]

/-! ## Operands -/

/-- Where criteria speak of the attribute at the end of a path. -/
def contextOf (p : AttributePath) : ContextPath := ⟨p.navigation ++ [p.name]⟩

theorem convert_path {d : SchemaDocument} (hloaded : d.toSchema = .ok c.schema)
    {p : AttributePath} (hresolves : p.Resolves c)
    (hnamed : (AttributeRef.simple p).Named IsField)
    (hdepth : p.navigation.length + 1 ≤ limits.maxDepth) (entry : String × Json) :
    convert c limits p.rootType [p.entry entry] =
      ofOperators limits (.simple p) (contextOf p) (p.navigation.length + 1) [] .all [entry] := by
  have hhops : ∀ hop ∈ p.navigation, IsField hop := hnamed.1
  have hname : IsField p.name := hnamed.2
  obtain ⟨owner, htarget, hattribute⟩ := id hresolves
  let target : Scope := ⟨p.rootType, p.navigation, owner⟩
  calc convert c limits p.rootType [p.entry entry]
      = ofMembers c limits (Scope.root p.rootType) {} 0 .all [p.entry entry] := by
        rw [convert, hresolves.root_eq_ok, checkMembers_single (Nat.zero_le _)]
        rfl
    _ = ofMembers c limits target ⟨p.navigation⟩ (0 + p.navigation.length) .all
          [(p.name, .object [entry])] :=
        ofMembers_chain hhops
          (Catalog.attribute?_eq_none_or_relationship?_eq_none
            (SchemaDocument.loadable_of_toSchema hloaded))
          htarget (by omega) _
    _ = ofOperators limits (.simple p) (contextOf p) (p.navigation.length + 1) [] .all
          [entry] := by
        have hfound : c.attribute? target.currentType p.name = _ := hattribute
        rw [Nat.zero_add, ofMembers_attribute hname hfound hdepth]
        rfl

/-- The criteria of an operand convert to what stands inside of them, about what the functions of
the operand yield. -/
theorem convert_operand {d : SchemaDocument} (hloaded : d.toSchema = .ok c.schema)
    {o : Operand} (hresolves : o.attributePath.Resolves c) (hoffered : o.Offered)
    (hnamed : o.Named IsField) (hdepth : o.levels + 1 ≤ limits.maxDepth)
    {entry : String × Json} (hentry : entry.1 ∉ boundKeys) :
    convert c limits o.attributePath.rootType [o.entry entry] =
      within (contextOf o.attributePath) (o.outcome Operand.boundsRefusal entry) >>= fun b =>
        ofOperators limits b (contextOf o.attributePath) (o.levels + 1) [] .all [entry] := by
  induction o generalizing entry with
  | path p => exact convert_path hloaded hresolves hnamed hdepth entry
  | call f source ih =>
    obtain ⟨hsource, hfunction⟩ := hoffered
    have hlevels : (Operand.call f source).levels = source.levels + 1 := rfl
    rw [hlevels] at hdepth
    have hname : (f.entry entry).1 ∉ boundKeys := name_not_mem_boundKeys (.function f.name)
    rw [Operand.entry, Operand.attributePath, ih hresolves hsource hnamed (by omega) hname,
      Operand.outcome, within_bind]
    cases houtcome : source.outcome Operand.boundsRefusal (f.entry entry) with
    | error r => rfl
    | ok b =>
      -- What the functions inside yield has the type that they are written for.
      obtain ⟨-, htype⟩ := Operand.applies_of_outcome houtcome
      rw [← htype] at hfunction
      exact ofOperators_call hfunction hdepth hentry

end

end Structural

namespace Condition

open Structural

variable {c : Catalog} {limits : Limits} {root : String} {k : Condition}

/-- What stands behind the operator is read as the argument of the condition. -/
theorem argumentOf_value (k : Condition) : argumentOf k.value = k.argument := by
  unfold value argument
  cases k.parameter with
  | none => rfl
  | some p =>
    have hliteral := p.ofJson?_json
    -- Objects write no literal.
    have hne : p.json ≠ .object [] := by
      intro hempty
      rw [hempty] at hliteral
      cases hliteral
    show argumentOf p.json = .value p.literal
    rw [argumentOf_of_ne hne, hliteral]

/-- The criteria of a condition convert to the verdict on the condition, with the object quoted that
bounds are refused in, where criteria may be nested as deep as its relationships and functions. -/
theorem convert_verdict {d : SchemaDocument} (hloaded : d.toSchema = .ok c.schema)
    (h : k.Resolves c root) (hnamed : k.operand.Named IsField)
    (hdepth : k.operand.levels + 1 ≤ limits.maxDepth) :
    convert c limits root [k.entry] =
      within (contextOf k.operand.attributePath) (k.verdict Operand.boundsRefusal limits) := by
  have hname := name_not_mem_boundKeys (.compare k.comparator)
  obtain rfl := h.rootType
  rw [Condition.entry, convert_operand hloaded h.path h.offered hnamed hdepth hname, verdict,
    within_bind]
  congr 1
  funext a
  rw [ofOperators_comparator, argumentOf_value]

end Condition

end Criteria
