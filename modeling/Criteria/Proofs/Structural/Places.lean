import Criteria.Report.CompileError
import Criteria.Structural.Convert
import Mathlib

/-! # Places in structural criteria

A place in a document is a way into it, edge by edge (`Leads`). Context paths are coarser: a label
is a key, or stands for a combinator together with the index of one of its items (`Reads`), and
operators and existence tests have none. An error points at a fault if its labels lead to the node
that is left of the way to the fault once the edges without labels are taken off (`Points`).
-/

set_option autoImplicit false

namespace Criteria.Structural

/-! ## Ways into documents -/

/-- From an object of criteria to the value of a key, from the criteria on an attribute to the
parameter of an operator, or from a list to one of its items. -/
inductive Edge where
  | key (name : String)
  | operator (name : String)
  | item (index : Nat)

/-- The edges lead from the first value to the second. -/
inductive Leads : Json → List Edge → Json → Prop
  | done {value : Json} : Leads value [] value
  | key {members : List (String × Json)} {name : String} {value target : Json}
      {edges : List Edge} (member : (name, value) ∈ members) (rest : Leads value edges target) :
      Leads (.object members) (.key name :: edges) target
  | operator {members : List (String × Json)} {name : String} {value target : Json}
      {edges : List Edge} (member : (name, value) ∈ members) (rest : Leads value edges target) :
      Leads (.object members) (.operator name :: edges) target
  | item {items : List Json} {index : Nat} {value target : Json} {edges : List Edge}
      (member : items[index]? = some value) (rest : Leads value edges target) :
      Leads (.array items) (.item index :: edges) target

/-- Operators and existence tests have no labels. -/
def Edge.Unlabelled : Edge → Prop
  | key name => ∃ test : Existence, name = test.method
  | operator _ => True
  | item _ => False

/-! ## Labels -/

/-- The label of an item of a combinator. -/
def Combinator.itemLabel (combinator : Combinator) (index : Nat) : String :=
  s!"{combinator.key}[{index}]"

/-- No label of an item. -/
def NoItemLabel (_ : List (String × Json)) (label : String) : Prop :=
  ∀ (combinator : Combinator) (index : Nat), label ≠ combinator.itemLabel index

/-- A key of the object. -/
def IsKeyOf (members : List (String × Json)) (label : String) : Prop :=
  ∃ value, (label, value) ∈ members

/-- Labels, read from the first value on, follow the edges to the second. Which labels of an object
are read as keys is a parameter; others are read as items of a combinator. -/
inductive Reads (AsKey : List (String × Json) → String → Prop) :
    Json → List String → List Edge → Json → Prop
  | done {value : Json} : Reads AsKey value [] [] value
  | key {members : List (String × Json)} {label : String} {labels : List String}
      {value node : Json} {edges : List Edge} (asKey : AsKey members label)
      (member : (label, value) ∈ members) (rest : Reads AsKey value labels edges node) :
      Reads AsKey (.object members) (label :: labels) (.key label :: edges) node
  | item {members : List (String × Json)} {combinator : Combinator} {index : Nat}
      {items : List Json} {labels : List String} {value node : Json} {edges : List Edge}
      (other : ¬AsKey members (combinator.itemLabel index))
      (list : (combinator.key, .array items) ∈ members) (member : items[index]? = some value)
      (rest : Reads AsKey value labels edges node) :
      Reads AsKey (.object members) (combinator.itemLabel index :: labels)
        (.key combinator.key :: .item index :: edges) node

/-- Item labels have a bracket, and keys of combinators have none. -/
theorem Combinator.itemLabel_ne_key (combinator other : Combinator) (index : Nat) :
    combinator.itemLabel index ≠ other.key := by
  have hbracket : '[' ∈ (combinator.itemLabel index).toList := by
    simp [itemLabel, ToString.toString]
  have hkey : '[' ∉ other.key.toList := by
    cases other <;> decide
  intro h
  rw [h] at hbracket
  exact hkey hbracket

/-! ## Sites of faults -/

/-- Where a fault is found, with the value that is found there: some edges below the criteria
themselves, or some edges below the filter of an existence test, the innermost one around it. -/
inductive Site where
  | here (edges : List Edge) (value : Json)
  | inFilter (filter : List (String × Json)) (edges : List Edge) (value : Json)

namespace Site

/-- The site seen from in front of an edge. What is in a filter is only seen from there. -/
def behind (edge : Edge) : Site → Site
  | here edges value => here (edge :: edges) value
  | inFilter filter edges value => inFilter filter edges value

/-- The site seen from outside of a filter. -/
def within (filter : List (String × Json)) : Site → Site
  | here edges value => inFilter filter edges value
  | inFilter inner edges value => inFilter inner edges value

end Site

/-- The labels of an error are read to a node that the site of its fault is at, or below by edges
without labels: those behind the context of the start, or all of them where the site is in a
filter. -/
inductive Points (start : Json) (context : ContextPath) (r : Rejection) :
    Site → CompileError → Prop
  | here {labels : List String} {front back : List Edge} {node value : Json}
      (reads : Reads IsKeyOf start labels front node) (leads : Leads node back value)
      (unlabelled : ∀ edge ∈ back, edge.Unlabelled) :
      Points start context r (.here (front ++ back) value) (r.within ⟨context.labels ++ labels⟩)
  | inFilter {filter : List (String × Json)} {labels : List String} {front back : List Edge}
      {node value : Json} (reads : Reads IsKeyOf (.object filter) labels front node)
      (leads : Leads node back value) (unlabelled : ∀ edge ∈ back, edge.Unlabelled) :
      Points start context r (.inFilter filter (front ++ back) value) (r.within ⟨labels⟩)

namespace Points

variable {context : ContextPath} {r : Rejection} {site : Site} {e : CompileError}
  {members : List (String × Json)} {value : Json}

/-- An error that is reported some edges above where it is found. -/
theorem above {edges : List Edge} {start : Json} (h : Leads start edges value)
    (unlabelled : ∀ edge ∈ edges, edge.Unlabelled) :
    Points start context r (.here edges value) (r.within context) := by
  have hpoints : Points start context r (.here ([] ++ edges) value)
      (r.within ⟨context.labels ++ []⟩) := .here .done h unlabelled
  rw [List.append_nil] at hpoints
  exact hpoints

/-- An error that is reported where it is found. -/
theorem self : Points value context r (.here [] value) (r.within context) :=
  above .done (List.forall_mem_nil _)

/-- The label of a key. -/
theorem key {name : String} (member : (name, value) ∈ members)
    (h : Points value (context.push name) r site e) :
    Points (.object members) context r (site.behind (.key name)) e := by
  cases h with
  | here reads leads unlabelled =>
    rw [ContextPath.push, List.append_assoc]
    exact .here (.key ⟨value, member⟩ member reads) leads unlabelled
  | inFilter reads leads unlabelled => exact .inFilter reads leads unlabelled

/-- The label of an item. -/
theorem item {combinator : Combinator} {index : Nat} {items : List Json}
    (other : ¬IsKeyOf members (combinator.itemLabel index))
    (list : (combinator.key, .array items) ∈ members) (member : items[index]? = some value)
    (h : Points value (context.push (combinator.itemLabel index)) r site e) :
    Points (.object members) context r
      ((site.behind (.item index)).behind (.key combinator.key)) e := by
  cases h with
  | here reads leads unlabelled =>
    rw [ContextPath.push, List.append_assoc]
    exact .here (.item other list member reads) leads unlabelled
  | inFilter reads leads unlabelled => exact .inFilter reads leads unlabelled

/-- Filters have a context of their own. -/
theorem filter {filter : List (String × Json)} {start : Json}
    (h : Points (.object filter) {} r site e) : Points start context r (site.within filter) e := by
  cases h with
  | here reads leads unlabelled => exact .inFilter reads leads unlabelled
  | inFilter reads leads unlabelled => exact .inFilter reads leads unlabelled

end Points

/-- The error reports one of the faults and points at it. -/
def Reports (Fault : Site → Rejection → Prop) (start : Json) (context : ContextPath)
    (e : CompileError) : Prop :=
  ∃ site r, Fault site r ∧ Points start context r site e

/-- The error reports one of the faults in the context of the start, as there are no labels for the
way to the fault. -/
def ReportsHere (Fault : Site → Rejection → Prop) (start : Json) (context : ContextPath)
    (e : CompileError) : Prop :=
  ∃ edges value r, Fault (.here edges value) r ∧ Leads start edges value ∧
    (∀ edge ∈ edges, edge.Unlabelled) ∧ e = r.within context

namespace ReportsHere

variable {Fault Fault' : Site → Rejection → Prop} {start : Json} {context : ContextPath}
  {e : CompileError}

/-- The fault is that of the start itself. -/
theorem self {r : Rejection} (h : Fault (.here [] start) r) :
    ReportsHere Fault start context (r.within context) :=
  ⟨[], start, r, h, .done, List.forall_mem_nil _, rfl⟩

theorem imp (hfault : ∀ site r, Fault site r → Fault' site r)
    (h : ReportsHere Fault start context e) : ReportsHere Fault' start context e := by
  obtain ⟨edges, value, r, h, hleads, hedges, he⟩ := h
  exact ⟨edges, value, r, hfault _ r h, hleads, hedges, he⟩

theorem reports (h : ReportsHere Fault start context e) : Reports Fault start context e := by
  obtain ⟨edges, value, r, h, hleads, hedges, rfl⟩ := h
  exact ⟨_, r, h, .above hleads hedges⟩

end ReportsHere

end Criteria.Structural
