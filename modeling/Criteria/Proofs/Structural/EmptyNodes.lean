import Criteria.Proofs.Json.Distinct
import Criteria.Proofs.Soundness
import Criteria.Proofs.Structural.Places
import Criteria.Proofs.Structural.WellFormed

/-! # Empty nodes of criteria

Criteria that are converted hold no empty list, and empty objects only in three places: as the value
of an existence test, as the parameter of an operator that takes none, and as an item of a list of
criteria (`convert_empty_nodes`). The last of these is not refused like the others: an empty item
holds of everything (`emptyItem_converted`).
-/

set_option autoImplicit false

namespace Criteria.Structural

/-! ## Ways to arguments that may be empty -/

/-- The name behind which an edge leads on, out of an object. -/
def Edge.name? : Edge → Option String
  | key name => some name
  | operator name => some name
  | item _ => none

/-- From operators on an attribute, through functions, to the parameter of an operator that takes
none. -/
inductive ToUnary : List Edge → Prop
  | operator {edge : Edge} {name : String} {comparator : Comparator}
      (along : edge.name? = some name)
      (named : Operator.ofName? name = some (.compare comparator))
      (unary : comparator.cardinality? = none) : ToUnary [edge]
  | function {edge : Edge} {way : List Edge} {name : String} {function : FunctionName}
      (along : edge.name? = some name)
      (named : Operator.ofName? name = some (.function function)) (rest : ToUnary way) :
      ToUnary (edge :: way)

/-- From an object of criteria, through lists, filters and members, to the value of an existence
test, or to the parameter of an operator that takes none. -/
inductive ToBare (c : Catalog) : Scope → List Edge → Prop
  | test {scope : Scope} {edge : Edge} (test : Existence)
      (along : edge.name? = some test.method) : ToBare c scope [edge]
  | item {scope : Scope} {edge : Edge} {way : List Edge} {index : Nat} (combinator : Combinator)
      (along : edge.name? = some combinator.key) (rest : ToBare c scope way) :
      ToBare c scope (edge :: .item index :: way)
  | filter {scope : Scope} {edge : Edge} {way : List Edge} (test : Existence)
      (along : edge.name? = some test.method) (rest : ToBare c scope.rebase way) :
      ToBare c scope (edge :: way)
  | attr {scope : Scope} {edge : Edge} {way : List Edge} {name : String} {a : AttributeRef}
      (along : edge.name? = some name) (field : IsField name)
      (found : c.field scope name = .ok (.attr a)) (rest : ToUnary way) :
      ToBare c scope (edge :: way)
  | relationship {scope target : Scope} {edge : Edge} {way : List Edge} {name : String}
      (along : edge.name? = some name) (field : IsField name)
      (found : c.field scope name = .ok (.relationship target)) (rest : ToBare c target way) :
      ToBare c scope (edge :: way)

/-- To an item of a list of criteria. -/
def ToItem (way : List Edge) : Prop :=
  ∃ (front : List Edge) (edge : Edge) (index : Nat) (combinator : Combinator),
    way = front ++ [edge, .item index] ∧ edge.name? = some combinator.key

theorem ToItem.cons {way : List Edge} (h : ToItem way) (edge : Edge) : ToItem (edge :: way) := by
  obtain ⟨front, last, index, combinator, rfl, hlast⟩ := h
  exact ⟨edge :: front, last, index, combinator, rfl, hlast⟩

/-! ## Steps of ways -/

/-- Out of an object a way leads through a member. -/
theorem Leads.exists_member {members : List (String × Json)} {edge : Edge} {way : List Edge}
    {value : Json} (h : Leads (.object members) (edge :: way) value) :
    ∃ name found, edge.name? = some name ∧ (name, found) ∈ members ∧ Leads found way value := by
  cases h with
  | key member rest => exact ⟨_, _, rfl, member, rest⟩
  | operator member rest => exact ⟨_, _, rfl, member, rest⟩

/-- From an object with members a way to an empty node leads through one of them. -/
theorem Leads.exists_member_of_empty {members : List (String × Json)} {way : List Edge}
    {value : Json} (h : Leads (.object members) way value) (hmembers : members ≠ [])
    (hempty : value.isEmptyNode = true) :
    ∃ edge rest name found, way = edge :: rest ∧ edge.name? = some name ∧
      (name, found) ∈ members ∧ Leads found rest value := by
  cases way with
  | nil =>
    cases h
    exact absurd (List.isEmpty_iff.1 hempty) hmembers
  | cons edge rest =>
    obtain ⟨name, found, hname, hmem, hrest⟩ := h.exists_member
    exact ⟨edge, rest, name, found, rfl, hname, hmem, hrest⟩

/-- Out of a list a way leads through an item. -/
theorem Leads.exists_item {items : List Json} {edge : Edge} {way : List Edge} {value : Json}
    (h : Leads (.array items) (edge :: way) value) :
    ∃ index item, edge = .item index ∧ item ∈ items ∧ Leads item way value := by
  cases h with
  | item member rest => exact ⟨_, _, rfl, List.mem_of_getElem? member, rest⟩

/-! ## Arguments of operators -/

/-- No way leads from a value that is no list to an empty node. -/
theorem Leads.nonempty_of_scalar {value target : Json} {way : List Edge} {l : Literal}
    (h : Leads value way target) (hl : Literal.ofJson? value = some l) (hlist : l.isList = false) :
    target.isEmptyNode = false := by
  cases value with
  | array items =>
    obtain ⟨literals, -, rfl⟩ := Option.map_eq_some_iff.1 hl
    cases hlist
  | object members => cases hl
  | _ =>
    cases h
    rfl

/-- Only lists write lists. -/
theorem Literal.isList_of_ofJson? {value : Json} {l : Literal} (h : Literal.ofJson? value = some l)
    (hvalue : ∀ items, value ≠ .array items) : l.isList = false := by
  cases value with
  | array items => exact absurd rfl (hvalue items)
  | number n =>
    cases h
    cases n with
    | integer n =>
      unfold Literal.ofNumeric
      dsimp only
      split <;> rfl
    | _ => rfl
  | object members => cases h
  | _ =>
    cases h
    rfl

/-- Every item of a list writes one of its literals. -/
theorem Literal.ofItems?_eq_some {items : List Json} {literals : List Literal}
    (h : Literal.ofItems? items = some literals) :
    literals.length = items.length ∧
      ∀ item ∈ items, ∃ l ∈ literals, Literal.ofJson? item = some l := by
  induction items generalizing literals with
  | nil =>
    cases h
    exact ⟨rfl, List.forall_mem_nil _⟩
  | cons item items ih =>
    simp only [Literal.ofItems?, Option.bind_eq_bind, Option.bind_eq_some_iff] at h
    obtain ⟨first, hfirst, others, hothers, heq⟩ := h
    cases heq
    obtain ⟨hlength, heach⟩ := ih hothers
    refine ⟨congrArg Nat.succ hlength, List.forall_mem_cons.2 ⟨?_, ?_⟩⟩
    · exact ⟨first, List.mem_cons_self, hfirst⟩
    · intro other hother
      obtain ⟨l, hl, hwritten⟩ := heach other hother
      exact ⟨l, List.mem_cons_of_mem first hl, hwritten⟩

/-- An argument of values: a value that is no list, or a list with values in it. -/
inductive Valued : Literal → Prop
  | one {l : Literal} (h : l.isList = false) : Valued l
  | many {items : List Literal} (nonempty : items ≠ []) (each : ∀ l ∈ items, l.isList = false) :
      Valued (.list items)

/-- No way leads from a value that writes an argument of values to an empty node. -/
theorem Leads.nonempty_of_valued {value target : Json} {way : List Edge} {l : Literal}
    (h : Leads value way target) (hl : Literal.ofJson? value = some l) (hvalued : Valued l) :
    target.isEmptyNode = false := by
  cases hvalued with
  | one hlist => exact h.nonempty_of_scalar hl hlist
  | @many literals hnonempty heach =>
    cases value with
    | array items =>
      obtain ⟨found, hitems, heq⟩ := Option.map_eq_some_iff.1 hl
      cases heq
      obtain ⟨hlength, hwritten⟩ := Literal.ofItems?_eq_some hitems
      cases way with
      | nil =>
        cases h
        cases items with
        | nil => exact absurd (List.length_eq_zero_iff.1 hlength) hnonempty
        | cons item items => rfl
      | cons edge way =>
        obtain ⟨index, item, -, hitem, hleads⟩ := h.exists_item
        obtain ⟨l, hl, hitem⟩ := hwritten item hitem
        exact hleads.nonempty_of_scalar hitem (heach l hl)
    | _ => exact h.nonempty_of_scalar hl (Literal.isList_of_ofJson? hl nofun)

section

variable {c : Catalog} {limits : Limits}

/-- A comparison takes nothing where its operator takes no parameter, and values elsewhere. -/
theorem compare_argument {a : AttributeRef} {comparator : Comparator} {argument : Argument}
    {p : Predicate} (h : a.compare limits comparator argument = .ok p) :
    argument = .empty ∧ comparator.cardinality? = none ∨
      ∃ l, argument = .value l ∧ Valued l := by
  obtain ⟨arity, hentry, haccepts⟩ := AttributeRef.compare_accepts.1 ⟨p, h⟩
  obtain ⟨-, hcardinality⟩ := ValueType.cardinality_of_mem hentry
  cases arity with
  | unary => exact .inl ⟨haccepts, hcardinality.symm⟩
  | one =>
    rcases haccepts with ⟨rfl, -⟩ | ⟨-, v, l, rfl, hl⟩
    · exact .inr ⟨.null, rfl, .one rfl⟩
    · exact .inr ⟨l, rfl, .one hl.2.2⟩
  | many =>
    obtain ⟨items, rfl, hne, -, hitems⟩ := haccepts
    refine .inr ⟨.list items, rfl, .many (List.length_pos_iff.1 hne) ?_⟩
    intro l hl
    obtain ⟨v, hv⟩ := hitems l hl
    exact hv.2.2
  | derive => exact haccepts.elim

theorem argumentOf_eq_empty {value : Json} (h : argumentOf value = .empty) :
    value = .object [] := by
  unfold argumentOf at h
  split at h
  · rfl
  · split at h <;> cases h

theorem argumentOf_eq_value {value : Json} {l : Literal} (h : argumentOf value = .value l) :
    Literal.ofJson? value = some l := by
  unfold argumentOf at h
  split at h
  · cases h
  · split at h
    · rename_i hl
      cases h
      exact hl
    · cases h

/-- Nothing is empty in the parameter of a comparison, unless its operator takes none. -/
theorem compare_empty_argument {a : AttributeRef} {comparator : Comparator} {parameter value : Json}
    {way : List Edge} {p : Predicate}
    (h : a.compare limits comparator (argumentOf parameter) = .ok p)
    (hleads : Leads parameter way value) (hempty : value.isEmptyNode = true) :
    way = [] ∧ value = .object [] ∧ comparator.cardinality? = none := by
  rcases compare_argument h with ⟨hnone, hunary⟩ | ⟨l, hl, hvalued⟩
  · rw [argumentOf_eq_empty hnone] at hleads
    cases way with
    | nil =>
      cases hleads
      exact ⟨rfl, rfl, hunary⟩
    | cons edge way =>
      obtain ⟨name, found, -, hmem, -⟩ := hleads.exists_member
      cases hmem
  · have hfull := hleads.nonempty_of_valued (argumentOf_eq_value hl) hvalued
    rw [hempty] at hfull
    cases hfull

/-! ## Operators -/

/-- The keys of a function itself stand for numbers. -/
theorem Takes.exists_number {members : List (String × Json)} {function : AttributeFunction}
    {own : List String} (h : Takes members function own) (hnames : (members.map (·.1)).Nodup)
    {key : String} {found : Json} (hmem : (key, found) ∈ members) (hown : key ∈ own) :
    ∃ n, found = .number n := by
  have hfound : members.lookup key = some found := Json.lookup_of_mem hnames hmem
  cases h with
  | nothing hname => cases hown
  | bounds start_eq stop_eq nonneg ordered more =>
    rcases List.mem_pair.1 hown with rfl | rfl
    · exact ⟨_, Option.some.inj (hfound.symm.trans start_eq)⟩
    · exact ⟨_, Option.some.inj (hfound.symm.trans stop_eq)⟩

/-- Below an operator on an attribute, only the parameter of one that takes none is empty. -/
theorem WellFormedOperator.empty (way : List Edge) {levels : Nat} {a : AttributeRef}
    {name : String} {edge : Edge} {parameter value : Json}
    (h : WellFormedOperator limits levels a name parameter) (along : edge.name? = some name)
    (hdistinct : parameter.Distinct) (hleads : Leads parameter way value)
    (hempty : value.isEmptyNode = true) : value = .object [] ∧ ToUnary (edge :: way) := by
  cases h with
  | compare named offered accepted =>
    obtain ⟨p, hp⟩ := accepted
    obtain ⟨rfl, hvalue, hunary⟩ := compare_empty_argument hp hleads hempty
    exact ⟨hvalue, .operator along named hunary⟩
  | @function levels _ _ members function own named offered nonempty takes inner =>
    obtain ⟨next, rest, key, found, rfl, hkey, hmem, hrest⟩ :=
      hleads.exists_member_of_empty nonempty hempty
    obtain ⟨hnames, hinner⟩ := hdistinct.of_object
    by_cases hown : key ∈ own
    · obtain ⟨n, rfl⟩ := takes.exists_number hnames hmem hown
      cases hrest
      cases hempty
    · have hnext := WellFormedOperator.empty rest (inner _ hmem hown) hkey (hinner _ hmem) hrest
        hempty
      exact ⟨hnext.1, .function along named hnext.2⟩
termination_by way.length

/-! ## Criteria -/

/-- Below the entry of an object, only values of existence tests, parameters of operators that take
none, and items are empty. -/
theorem WellFormedEntry.empty (way : List Edge) {levels : Nat} {scope : Scope} {key : String}
    {edge : Edge} {found value : Json} (h : WellFormedEntry c limits levels scope key found)
    (along : edge.name? = some key) (hdistinct : found.Distinct)
    (hleads : Leads found way value) (hempty : value.isEmptyNode = true) :
    value = .object [] ∧ (ToBare c scope (edge :: way) ∨ ToItem (edge :: way)) := by
  cases h with
  | combinator combinator nonempty each =>
    cases way with
    | nil =>
      cases hleads
      exact absurd (List.isEmpty_iff.1 hempty) nonempty
    | cons next way =>
      obtain ⟨index, item, rfl, hitem, hrest⟩ := hleads.exists_item
      obtain ⟨⟨alone, each⟩⟩ := each item hitem
      obtain ⟨hnames, hinner⟩ := (hdistinct.of_array _ hitem).of_object
      cases way with
      | nil =>
        cases hrest
        exact ⟨congrArg Json.object (List.isEmpty_iff.1 hempty),
          .inr ⟨[], edge, index, combinator, rfl, along⟩⟩
      | cons next rest =>
        obtain ⟨key, found, hkey, hmem, hrest⟩ := hrest.exists_member
        have hnext := WellFormedEntry.empty rest (each _ hmem) hkey (hinner _ hmem) hrest hempty
        refine ⟨hnext.1, hnext.2.imp (.item combinator along) fun hitem => ?_⟩
        exact (hitem.cons (.item index)).cons edge
  | bare test navigated =>
    cases way with
    | nil =>
      cases hleads
      exact ⟨rfl, .inl (.test test along)⟩
    | cons next way =>
      obtain ⟨name, found, -, hmem, -⟩ := hleads.exists_member
      cases hmem
  | filtered test navigated nonempty inner =>
    obtain ⟨next, rest, key, found, rfl, hkey, hmem, hrest⟩ :=
      hleads.exists_member_of_empty nonempty hempty
    obtain ⟨alone, each⟩ := inner
    obtain ⟨hnames, hinner⟩ := hdistinct.of_object
    have hnext := WellFormedEntry.empty rest (each _ hmem) hkey (hinner _ hmem) hrest hempty
    exact ⟨hnext.1, hnext.2.imp (.filter test along) fun hitem => hitem.cons edge⟩
  | @attr levels _ _ members a field found nonempty inner =>
    obtain ⟨next, rest, name, parameter, rfl, hname, hmem, hrest⟩ :=
      hleads.exists_member_of_empty nonempty hempty
    obtain ⟨hnames, hinner⟩ := hdistinct.of_object
    have hfound := Catalog.field_iff.2 (.inl ⟨a, found, rfl⟩)
    have hnext := (inner _ hmem).empty rest hname (hinner _ hmem) hrest hempty
    exact ⟨hnext.1, .inl (.attr along field hfound hnext.2)⟩
  | @relationship levels _ _ members r field other found nonempty inner =>
    obtain ⟨next, rest, key, found', rfl, hkey, hmem, hrest⟩ :=
      hleads.exists_member_of_empty nonempty hempty
    obtain ⟨alone, each⟩ := inner
    obtain ⟨hnames, hinner⟩ := hdistinct.of_object
    have hfound := Catalog.field_iff.2 (.inr ⟨other, r, found, rfl⟩)
    have hnext := WellFormedEntry.empty rest (each _ hmem) hkey (hinner _ hmem) hrest hempty
    exact ⟨hnext.1, hnext.2.imp (.relationship along field hfound) fun hitem => hitem.cons edge⟩
termination_by way.length

/-- In criteria that are converted, a list is never empty, and an object only as the value of an
existence test, as the parameter of an operator that takes none, or as an item. -/
theorem convert_empty_nodes {rootType : String} {criteria : List (String × Json)} {p : Predicate}
    {way : List Edge} {value : Json} (h : convert c limits rootType criteria = .ok p)
    (hdistinct : (Json.object criteria).Distinct) (hway : way ≠ [])
    (hleads : Leads (.object criteria) way value) (hempty : value.isEmptyNode = true) :
    value = .object [] ∧ (ToBare c (Scope.root rootType) way ∨ ToItem way) := by
  obtain ⟨-, -, hmembers⟩ := convert_eq_ok.1 h
  have heach := (ofMembers_ok_iff criteria (Nat.zero_add limits.maxDepth)).1 ⟨p, hmembers⟩
  obtain ⟨hnames, hinner⟩ := hdistinct.of_object
  obtain ⟨edge, way, rfl⟩ := List.exists_cons_of_ne_nil hway
  obtain ⟨key, found, hkey, hmem, hrest⟩ := hleads.exists_member
  exact (heach _ hmem).empty way hkey (hinner _ hmem) hrest hempty

end

/-- The criteria for a manager, or for no name. -/
def managedOrUnnamedCriteria : List (String × Json) :=
  [("OR", .array [.object [("manager", .object [("exists", .object [])])],
    .object [("name", .object [("isNull", .object [])])]])]

theorem distinct_managedOrUnnamedCriteria : (Json.object managedOrUnnamedCriteria).Distinct := by
  have hempty : (Json.object []).Distinct := .object List.nodup_nil (List.forall_mem_nil _)
  have hsingle : ∀ (name : String) {value : Json}, value.Distinct →
      (Json.object [(name, value)]).Distinct := by
    intro name value hvalue
    refine .object (List.nodup_singleton name) ?_
    intro m hm
    obtain rfl := List.mem_singleton.1 hm
    exact hvalue
  refine hsingle "OR" (.array ?_)
  intro item hitem
  rcases List.mem_pair.1 hitem with rfl | rfl
  · exact hsingle "manager" (hsingle "exists" hempty)
  · exact hsingle "name" (hsingle "isNull" hempty)

theorem convert_managedOrUnnamed :
    convert staff {} "Person" managedOrUnnamedCriteria = .ok (.disjunction [
      .existence .present ⟨"Person", ["manager"], "Person"⟩ none,
      .comparison ⟨.simple ⟨"Person", [], "name", .string, true⟩, .isNull, .none⟩]) := by
  rfl

/-- The parameter of a check for null is empty. -/
theorem isNull_empty_node :
    ToBare staff (Scope.root "Person") [.key "OR", .item 1, .key "name", .operator "isNull"] ∨
      ToItem [.key "OR", .item 1, .key "name", .operator "isNull"] := by
  have hleads : Leads (.object managedOrUnnamedCriteria)
      [.key "OR", .item 1, .key "name", .operator "isNull"] (.object []) :=
    .key (List.mem_singleton_self _) (.item rfl (.key (List.mem_singleton_self _)
      (.operator (List.mem_singleton_self _) .done)))
  exact (convert_empty_nodes convert_managedOrUnnamed distinct_managedOrUnnamedCriteria
    (List.cons_ne_nil _ _) hleads rfl).2

/-- The list of a conjunction may hold an empty object, which is neither the value of an existence
test nor a parameter. The criteria are converted to what holds of everything. -/
theorem emptyItem_converted :
    convert staff {} "Person" [("AND", .array [.object []])] = .ok .all ∧
      Leads (.object [("AND", .array [.object []])]) [.key "AND", .item 0] (.object []) ∧
      ¬ToBare staff (Scope.root "Person") [.key "AND", .item 0] := by
  refine ⟨rfl, .key (List.mem_singleton_self _) (.item rfl .done), ?_⟩
  intro h
  cases h with
  | item combinator along rest => cases rest
  | filter test along rest =>
    revert along
    cases test <;> decide
  | attr along field found rest =>
    cases along
    exact field.1 .conjunction rfl
  | relationship along field found rest =>
    cases along
    exact field.1 .conjunction rfl

end Criteria.Structural
