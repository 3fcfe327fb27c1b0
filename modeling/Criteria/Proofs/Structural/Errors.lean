import Criteria.Proofs.Soundness
import Criteria.Proofs.Structural.Faults

/-! # Where structural criteria fail

Criteria of a known type that do not convert have a fault, and the context path of the error leads
to a node at or above it (`convert_error_points`).
-/

set_option autoImplicit false

namespace Criteria.Structural

/-! ## The first of a list -/

/-- The first element that is not good, at its index. -/
def FirstBad {α : Type} (Good : α → Prop) (Bad : Nat → α → Prop) (xs : List α) : Prop :=
  ∃ front x back, xs = front ++ x :: back ∧ (∀ y ∈ front, Good y) ∧ Bad front.length x

namespace FirstBad

variable {α : Type} {Good : α → Prop} {Bad : Nat → α → Prop} {x : α} {xs : List α}

theorem head (h : Bad 0 x) : FirstBad Good Bad (x :: xs) :=
  ⟨[], x, xs, rfl, List.forall_mem_nil _, h⟩

theorem cons (hx : Good x) (h : FirstBad Good (fun index => Bad (index + 1)) xs) :
    FirstBad Good Bad (x :: xs) := by
  obtain ⟨front, y, back, rfl, hfront, hy⟩ := h
  exact ⟨x :: front, y, back, rfl, List.forall_mem_cons.2 ⟨hx, hfront⟩, hy⟩

end FirstBad

/-! ## Errors of checks -/

section

variable {c : Catalog} {limits : Limits} {scope : Scope} {a : AttributeRef}
  {context : ContextPath} {depth levels : Nat} {p : Predicate} {e : CompileError}

theorem within_eq_error {α : Type} {x : Except Rejection α} :
    within context x = .error e ↔ ∃ r, x = .error r ∧ e = r.within context := by
  cases x <;> simp [within, eq_comm]

theorem checkDepth_eq_error :
    checkDepth limits context depth = .error e ↔
      limits.maxDepth < depth ∧ e = (Rejection.tooDeep limits.maxDepth).within context := by
  unfold checkDepth
  by_cases h : limits.maxDepth < depth
  · simp [h, eq_comm]
  · simp [h]

theorem checkMembers_eq_error {members : List (String × Json)} :
    checkMembers limits context depth members = .error e ↔
      limits.maxDepth < depth ∧ e = (Rejection.tooDeep limits.maxDepth).within context ∨
        depth ≤ limits.maxDepth ∧ mixesCombinators members = true ∧
          e = Rejection.mixedCombinators.within context := by
  simp only [checkMembers, bind_eq_error, checkDepth_eq_error, checkDepth_eq_ok]
  refine or_congr_right ?_
  constructor
  · rintro ⟨-, hdepth, h⟩
    split at h
    · rename_i hmixed
      cases h
      exact ⟨hdepth, hmixed, rfl⟩
    · cases h
  · rintro ⟨hdepth, hmixed, rfl⟩
    exact ⟨(), hdepth, by rw [hmixed]; rfl⟩

/-! ## Errors of operators -/

/-- A converted operator is well formed. -/
theorem Operates.wellFormed {name : String} {parameter : Json}
    (h : Operates limits a context depth name parameter p)
    (hdepth : depth + levels = limits.maxDepth) :
    WellFormedOperator limits levels a name parameter := by
  cases h with
  | compare offered compared =>
    obtain ⟨hnamed, harity⟩ := resolveOperator_eq_ok.1 offered
    exact .compare hnamed (ValueType.arity?_eq_some.1 harity) ⟨_, compared⟩
  | function offered applied =>
    obtain ⟨hnamed, -⟩ := resolveOperator_eq_ok.1 offered
    exact (ofFunction_ok_iff parameter hdepth hnamed).1 ⟨_, applied⟩

/-- The error reports a fault of the operator, in the context of the attribute. -/
abbrev OperatorReports (limits : Limits) (levels : Nat) (a : AttributeRef) (context : ContextPath)
    (e : CompileError) (name : String) (parameter : Json) : Prop :=
  ReportsHere (FaultyOperator limits levels a name parameter) parameter context e

theorem OperatorRejected.reports {name : String} {parameter : Json} {r : Rejection}
    (h : OperatorRejected limits a name parameter r) :
    OperatorReports limits levels a context (r.within context) name parameter :=
  .self (.rejected h)

/-- The first operator that is not converted, and what is in front of it. -/
abbrev FirstOperator (limits : Limits) (levels : Nat) (a : AttributeRef) (context : ContextPath)
    (skipped : List String) (e : CompileError) : List (String × Json) → Prop :=
  FirstBad (fun m => m.1 ∉ skipped → WellFormedOperator limits levels a m.1 m.2) fun _ m =>
    m.1 ∉ skipped ∧ OperatorReports limits levels a context e m.1 m.2

/-- The first operator with a fault makes the object faulty. -/
theorem FirstOperator.reports {skipped : List String} {members : List (String × Json)}
    (h : FirstOperator limits levels a context skipped e members) :
    ReportsHere (FaultyOperators limits (levels + 1) a skipped members) (.object members) context
      e := by
  obtain ⟨front, ⟨name, parameter⟩, back, rfl, hfront, hname, hreports⟩ := h
  obtain ⟨edges, value, r, hfault, hleads, hedges, he⟩ := hreports
  have hmember : (name, parameter) ∈ front ++ (name, parameter) :: back := by simp
  exact ⟨.operator name :: edges, value, r, .operator hfront hname hfault,
    .operator hmember hleads, List.forall_mem_cons.2 ⟨trivial, hedges⟩, he⟩

mutual

/-- The error of operators that do not convert is that of the first of them with a fault. -/
theorem ofOperators_faulty (members : List (String × Json)) {a : AttributeRef}
    {context : ContextPath} {depth levels : Nat} {skipped : List String} {p : Predicate}
    {e : CompileError} (hdepth : depth + levels = limits.maxDepth)
    (h : ofOperators limits a context depth skipped p members = .error e) :
    FirstOperator limits levels a context skipped e members := by
  cases members with
  | nil =>
    rw [ofOperators] at h
    cases h
  | cons m members =>
    obtain ⟨name, parameter⟩ := m
    rw [ofOperators] at h
    by_cases hskipped : name ∈ skipped
    · rw [if_pos hskipped] at h
      exact .cons (fun hname => absurd hskipped hname) (ofOperators_faulty members hdepth h)
    · rw [if_neg hskipped] at h
      rcases bind_eq_error.1 h with h | ⟨⟨operator, arity⟩, hoperator, h⟩
      · obtain ⟨r, hr, rfl⟩ := within_eq_error.1 h
        exact .head ⟨hskipped, (OperatorRejected.unknown hr).reports⟩
      · rw [within_eq_ok] at hoperator
        cases operator with
        | compare comparator =>
          rcases bind_eq_error.1 h with h | ⟨q, hq, h⟩
          · obtain ⟨r, hr, rfl⟩ := within_eq_error.1 h
            exact .head ⟨hskipped, (OperatorRejected.compared hoperator hr).reports⟩
          · have hoperates : Operates limits a context depth name parameter q :=
              .compare hoperator (within_eq_ok.1 hq)
            exact .cons (fun _ => hoperates.wellFormed hdepth)
              (ofOperators_faulty members hdepth h)
        | function function =>
          rcases bind_eq_error.1 h with h | ⟨q, hq, h⟩
          · exact .head ⟨hskipped, ofFunction_faulty parameter hdepth hoperator h⟩
          · have hoperates : Operates limits a context depth name parameter q :=
              .function hoperator hq
            exact .cons (fun _ => hoperates.wellFormed hdepth)
              (ofOperators_faulty members hdepth h)
termination_by structural members

theorem ofFunction_faulty (parameter : Json) {a : AttributeRef} {context : ContextPath}
    {depth levels : Nat} {name : String} {function : FunctionName} {arity : Arity}
    {e : CompileError} (hdepth : depth + levels = limits.maxDepth)
    (offered : a.valueType.resolveOperator name = .ok (.function function, arity))
    (h : ofFunction limits a context depth function parameter = .error e) :
    OperatorReports limits levels a context e name parameter := by
  rw [ofFunction.eq_def] at h
  cases parameter with
  | object members =>
    dsimp only at h
    by_cases hempty : members = []
    · rw [hempty] at h ⊢
      cases h
      exact (OperatorRejected.empty offered rfl).reports
    · rw [if_neg (by simpa using hempty)] at h
      rcases bind_eq_error.1 h with h | ⟨⟨applied, own⟩, htakes, h⟩
      · obtain ⟨r, hr, rfl⟩ := within_eq_error.1 h
        exact (OperatorRejected.taken offered hempty hr).reports
      rw [within_eq_ok] at htakes
      rcases bind_eq_error.1 h with h | ⟨derived, hderived, h⟩
      · obtain ⟨r, hr, rfl⟩ := within_eq_error.1 h
        exact (OperatorRejected.applied offered hempty htakes hr).reports
      rw [within_eq_ok] at hderived
      rcases bind_eq_error.1 h with h | ⟨_, hle, h⟩
      · obtain ⟨hdeep, rfl⟩ := checkDepth_eq_error.1 h
        obtain rfl : levels = 0 := by omega
        exact .self (.function offered hempty htakes hderived .tooDeep)
      · rw [checkDepth_eq_ok] at hle
        obtain ⟨levels, rfl, hinner⟩ := exists_inner_levels hdepth hle
        exact (ofOperators_faulty members hinner h).reports.imp fun _ _ hfault =>
          .function offered hempty htakes hderived hfault
  | array items =>
    cases items with
    | nil =>
      cases h
      exact (OperatorRejected.empty offered rfl).reports
    | cons item items =>
      cases h
      exact (OperatorRejected.shape offered rfl (by simp)).reports
  | _ =>
    cases h
    exact (OperatorRejected.shape offered rfl (by simp)).reports
termination_by structural parameter

end

/-! ## Errors of entries -/

/-- The error reports a fault of the object. -/
abbrev ObjectReports (c : Catalog) (limits : Limits) (levels : Nat) (scope : Scope)
    (context : ContextPath) (e : CompileError) (members : List (String × Json)) : Prop :=
  Reports (FaultyObject c limits levels scope members) (.object members) context e

/-- The error reports a fault of the item. -/
abbrev ItemReports (c : Catalog) (limits : Limits) (levels : Nat) (scope : Scope)
    (context : ContextPath) (e : CompileError) (item : Json) : Prop :=
  Reports (FaultyItem c limits levels scope item) item context e

/-- The error reports a fault of an entry and is seen from the object of the entry. -/
def EntryReports (c : Catalog) (limits : Limits) (levels : Nat) (scope : Scope)
    (outer : List (String × Json)) (context : ContextPath) (e : CompileError) (key : String)
    (value : Json) : Prop :=
  ∃ site r, FaultyEntry c limits levels scope key value site r ∧
    Points (.object outer) context r (site.behind (.key key)) e

/-- The first entry that is not converted, and what is in front of it. -/
abbrev FirstEntry (c : Catalog) (limits : Limits) (levels : Nat) (scope : Scope)
    (outer : List (String × Json)) (context : ContextPath) (e : CompileError) :
    List (String × Json) → Prop :=
  FirstBad (fun m => WellFormedEntry c limits levels scope m.1 m.2) fun _ m =>
    EntryReports c limits levels scope outer context e m.1 m.2

/-- The first item that is not converted, from an index on, and what is in front of it. -/
abbrev FirstItem (c : Catalog) (limits : Limits) (levels : Nat) (scope : Scope)
    (context : ContextPath) (combinator : Combinator) (index : Nat) (e : CompileError) :
    List Json → Prop :=
  FirstBad (WellFormedItem c limits levels scope) fun i item =>
    ItemReports c limits levels scope (context.push (combinator.itemLabel (index + i))) e item

/-- Beside a combinator there are no other keys, so no label of its items is a key. -/
theorem not_isKeyOf_itemLabel {outer : List (String × Json)} {combinator : Combinator}
    {value : Json} (pure : mixesCombinators outer = false)
    (member : (combinator.key, value) ∈ outer) (index : Nat) :
    ¬IsKeyOf outer (combinator.itemLabel index) := by
  rintro ⟨other, hother⟩
  rcases mixesCombinators_eq_false.1 pure with hnone | hlength
  · exact hnone _ member combinator rfl
  · obtain ⟨m, rfl⟩ := List.length_eq_one_iff.1 hlength
    have hm := List.mem_singleton.1 member
    have hm' := List.mem_singleton.1 hother
    exact combinator.itemLabel_ne_key combinator index (congrArg Prod.fst (hm'.trans hm.symm))

section

variable {outer : List (String × Json)} {key : String} {value : Json}

/-- A rejected entry whose error has its key for a label. -/
theorem EntryRejected.reports_key {r : Rejection} (member : (key, value) ∈ outer)
    (h : EntryRejected c scope key value r) :
    EntryReports c limits levels scope outer context (r.within (context.push key)) key value :=
  ⟨.here [] value, r, .rejected h, Points.self.key member⟩

/-- A rejected existence test, whose error has no label for it. -/
theorem EntryRejected.reports_test {test : Existence} {r : Rejection}
    (member : (test.method, value) ∈ outer) (h : EntryRejected c scope test.method value r) :
    EntryReports c limits levels scope outer context (r.within context) test.method value :=
  have unlabelled : ∀ edge ∈ [Edge.key test.method], edge.Unlabelled :=
    List.forall_mem_singleton.2 ⟨test, rfl⟩
  ⟨.here [] value, r, .rejected h, .above (.key member .done) unlabelled⟩

theorem shapeError_combinator {combinator : Combinator} (member : (combinator.key, value) ∈ outer)
    (hvalue : ∀ item items, value ≠ .array (item :: items)) :
    EntryReports c limits levels scope outer context
      (shapeError scope context (.combinator combinator) value) combinator.key value := by
  cases value with
  | array items =>
    cases items with
    | nil => exact (EntryRejected.emptyList combinator).reports_key member
    | cons item items => exact absurd rfl (hvalue item items)
  | _ => exact (EntryRejected.noList combinator (by simp)).reports_key member

theorem shapeError_existence {test : Existence} (member : (test.method, value) ∈ outer)
    (hvalue : scope.navigation = [] ∨ ∀ members, value ≠ .object members) :
    EntryReports c limits levels scope outer context
      (shapeError scope context (.existence test) value) test.method value := by
  unfold shapeError
  dsimp only
  split
  · rename_i hroot
    have hnavigation : scope.navigation = [] := by simpa [Scope.isRoot] using hroot
    exact (EntryRejected.atRoot test hnavigation).reports_test member
  · rename_i hroot
    have hnavigation : scope.navigation ≠ [] := by simpa [Scope.isRoot] using hroot
    have hshape := hvalue.resolve_left hnavigation
    exact (EntryRejected.noFilter test hnavigation hshape).reports_test member

theorem shapeError_field (field : IsField key) (member : (key, value) ∈ outer)
    (hvalue : value.isEmptyNode = true ∨ ∀ members, value ≠ .object members) :
    EntryReports c limits levels scope outer context
      (shapeError scope context (.field key) value) key value := by
  unfold shapeError
  dsimp only
  split
  · rename_i hempty
    exact (EntryRejected.emptyField field hempty).reports_key member
  · rename_i hnonempty
    have hshape := hvalue.resolve_left hnonempty
    exact (EntryRejected.noCriteria field (by simpa using hnonempty) hshape).reports_key member

end

/-- Only objects are values of other keys than combinators. -/
theorem ofEntry_eq_shapeError {key : Key} {value : Json}
    (hkey : ∀ combinator, key ≠ .combinator combinator)
    (hvalue : ∀ members, value ≠ .object members) :
    ofEntry c limits scope context depth key value =
      .error (shapeError scope context key value) := by
  rw [ofEntry.eq_def]
  cases value with
  | object members => exact absurd rfl (hvalue members)
  | array items =>
    cases items with
    | nil => rfl
    | cons item items =>
      cases key with
      | combinator combinator => exact absurd rfl (hkey combinator)
      | _ => rfl
  | _ => rfl

/-- The first item with a fault makes the entry of its list faulty. -/
theorem FirstItem.reports {outer : List (String × Json)} {combinator : Combinator}
    {items : List Json} (pure : mixesCombinators outer = false)
    (member : (combinator.key, .array items) ∈ outer)
    (h : FirstItem c limits levels scope context combinator 0 e items) :
    EntryReports c limits levels scope outer context e combinator.key (.array items) := by
  obtain ⟨front, item, back, rfl, hfront, site, r, hfault, hpoints⟩ := h
  rw [Nat.zero_add] at hpoints
  exact ⟨_, r, .item combinator hfront hfault,
    hpoints.item (not_isKeyOf_itemLabel pure member _) member (by simp)⟩

section

variable {members : List (String × Json)}

/-- The error of an object that does not convert is that of a check, or that of its first entry with
a fault. -/
theorem ofObject_faulty (hdepth : depth + levels = limits.maxDepth + 1)
    (hmembers : ∀ {levels : Nat}, depth + levels = limits.maxDepth →
      mixesCombinators members = false →
        ofMembers c limits scope context depth .all members = .error e →
          FirstEntry c limits levels scope members context e members)
    (h : (do
      checkMembers limits context depth members
      ofMembers c limits scope context depth .all members) = .error e) :
    ObjectReports c limits levels scope context e members := by
  rcases bind_eq_error.1 h with h | ⟨_, hchecked, h⟩
  · rcases checkMembers_eq_error.1 h with ⟨hdeep, rfl⟩ | ⟨hle, hmixed, rfl⟩
    · obtain rfl : levels = 0 := by omega
      exact ⟨_, _, .tooDeep, .self⟩
    · obtain ⟨inner, rfl⟩ : ∃ inner, levels = inner + 1 := ⟨levels - 1, by omega⟩
      exact ⟨_, _, .mixed hmixed, .self⟩
  · obtain ⟨hle, hpure⟩ := checkMembers_eq_ok.1 hchecked
    obtain ⟨inner, rfl⟩ : ∃ inner, levels = inner + 1 := ⟨levels - 1, by omega⟩
    have hinner : depth + inner = limits.maxDepth := by omega
    obtain ⟨front, ⟨key, value⟩, back, rfl, hfront, site, r, hfault, hpoints⟩ :=
      hmembers hinner hpure h
    exact ⟨_, r, .entry hpure hfront hfault, hpoints⟩

variable {outer : List (String × Json)} (hdepth : depth + levels = limits.maxDepth)
  (hmembers : ∀ {scope : Scope} {context : ContextPath} {levels : Nat} {e : CompileError},
    depth + 1 + levels = limits.maxDepth → mixesCombinators members = false →
      ofMembers c limits scope context (depth + 1) .all members = .error e →
        FirstEntry c limits levels scope members context e members)

include hdepth hmembers

theorem ofItem_object_faulty {combinator : Combinator} {index : Nat}
    (h : ofItem c limits scope context depth combinator index (.object members) = .error e) :
    ItemReports c limits levels scope (context.push (combinator.itemLabel index)) e
      (.object members) := by
  rw [ofItem.eq_def] at h
  have hinner : depth + 1 + levels = limits.maxDepth + 1 := by omega
  obtain ⟨site, r, hfault, hpoints⟩ := ofObject_faulty hinner hmembers h
  exact ⟨site, r, .object hfault, hpoints⟩

theorem ofEntry_existence_faulty {test : Existence}
    (member : (test.method, .object members) ∈ outer)
    (h : ofEntry c limits scope context depth (.existence test) (.object members) = .error e) :
    EntryReports c limits levels scope outer context e test.method (.object members) := by
  have hinner : depth + 1 + levels = limits.maxDepth + 1 := by omega
  rw [ofEntry.eq_def] at h
  dsimp only at h
  split at h
  · rename_i hchain
    cases h
    refine shapeError_existence member (.inl ?_)
    by_contra hnavigated
    have hsome := Scope.relationshipPath?_eq_some.2 ⟨hnavigated, rfl⟩
    rw [hchain] at hsome
    cases hsome
  · rename_i relationship hchain
    obtain ⟨hnavigated, -⟩ := Scope.relationshipPath?_eq_some.1 hchain
    split at h
    · cases h
    · rename_i hnonempty
      have hfilter : (do
          checkMembers limits {} (depth + 1) members
          ofMembers c limits scope.rebase {} (depth + 1) .all members) = .error e := by
        rcases bind_eq_error.1 h with h | ⟨_, hchecked, h⟩
        · exact bind_eq_error.2 (.inl h)
        · rcases bind_eq_error.1 h with h | ⟨_, -, h⟩
          · exact bind_eq_error.2 (.inr ⟨_, hchecked, h⟩)
          · cases h
      obtain ⟨site, r, hfault, hpoints⟩ := ofObject_faulty hinner hmembers hfilter
      refine ⟨_, r, .filter test hnavigated (by simpa using hnonempty) hfault, ?_⟩
      -- What is in the filter is not seen from in front of the key either.
      have hbehind : (site.within members).behind (.key test.method) = site.within members := by
        cases site <;> rfl
      rw [hbehind]
      exact hpoints.filter

theorem ofEntry_field_faulty {key : String} (field : IsField key)
    (member : (key, .object members) ∈ outer)
    (h : ofEntry c limits scope context depth (.field key) (.object members) = .error e) :
    EntryReports c limits levels scope outer context e key (.object members) := by
  rw [ofEntry.eq_def] at h
  dsimp only at h
  by_cases hempty : members = []
  · rw [hempty] at h member ⊢
    cases h
    exact shapeError_field field member (.inl rfl)
  · rw [if_neg (by simpa using hempty)] at h
    rcases bind_eq_error.1 h with h | ⟨found, hfound, h⟩
    · obtain ⟨r, hr, rfl⟩ := within_eq_error.1 h
      exact (EntryRejected.unknown field hempty hr).reports_key member
    rw [within_eq_ok] at hfound
    cases found with
    | attr a =>
      dsimp only at h
      rcases bind_eq_error.1 h with h | ⟨_, hle, h⟩
      · obtain ⟨hdeep, rfl⟩ := checkDepth_eq_error.1 h
        obtain rfl : levels = 0 := by omega
        exact ⟨_, _, .attr field hempty hfound .tooDeep, Points.self.key member⟩
      · rw [checkDepth_eq_ok] at hle
        obtain ⟨inner, rfl, hinner⟩ := exists_inner_levels hdepth hle
        obtain ⟨site, r, hfault, hpoints⟩ :=
          (ofOperators_faulty members hinner h).reports.reports
        exact ⟨site, r, .attr field hempty hfound hfault, hpoints.key member⟩
    | relationship target =>
      have hinner : depth + 1 + levels = limits.maxDepth + 1 := by omega
      obtain ⟨site, r, hfault, hpoints⟩ := ofObject_faulty hinner hmembers h
      exact ⟨site, r, .relationship field hempty hfound hfault, hpoints.key member⟩

end

mutual

/-- The error of entries that do not convert is that of the first of them with a fault. -/
theorem ofMembers_faulty (members : List (String × Json)) {outer : List (String × Json)}
    {scope : Scope} {context : ContextPath} {depth levels : Nat} {p : Predicate}
    {e : CompileError} (hdepth : depth + levels = limits.maxDepth)
    (hpure : mixesCombinators outer = false) (houter : ∀ m ∈ members, m ∈ outer)
    (h : ofMembers c limits scope context depth p members = .error e) :
    FirstEntry c limits levels scope outer context e members := by
  cases members with
  | nil =>
    rw [ofMembers] at h
    cases h
  | cons m members =>
    obtain ⟨key, value⟩ := m
    obtain ⟨hmember, houter⟩ := List.forall_mem_cons.1 houter
    rw [ofMembers] at h
    rcases bind_eq_error.1 h with h | ⟨q, hq, h⟩
    · exact .head (ofEntry_faulty value hdepth hpure hmember h)
    · exact .cons ((ofEntry_ok_iff value hdepth).1 ⟨q, hq⟩)
        (ofMembers_faulty members hdepth hpure houter h)
termination_by structural members

theorem ofEntry_faulty (value : Json) {outer : List (String × Json)} {scope : Scope}
    {context : ContextPath} {depth levels : Nat} {key : String} {e : CompileError}
    (hdepth : depth + levels = limits.maxDepth) (hpure : mixesCombinators outer = false)
    (hmember : (key, value) ∈ outer)
    (h : ofEntry c limits scope context depth (.ofText key) value = .error e) :
    EntryReports c limits levels scope outer context e key value := by
  rcases ofText_cases key with ⟨combinator, rfl, hk⟩ | ⟨test, rfl, hk⟩ | ⟨hfield, hk⟩
  · rw [hk] at h
    cases value with
    | array items =>
      cases items with
      | nil =>
        rw [ofEntry.eq_def] at h
        cases h
        exact shapeError_combinator hmember (by simp)
      | cons item items =>
        rw [ofEntry.eq_def] at h
        refine FirstItem.reports hpure hmember ?_
        rcases bind_eq_error.1 h with h | ⟨q, hq, h⟩
        · exact .head (ofItem_faulty item hdepth h)
        · have hothers := ofItems_faulty items hdepth h
          simp only [FirstItem, Nat.add_comm 1] at hothers
          refine .cons ((ofItem_ok_iff item hdepth).1 ⟨q, hq⟩) ?_
          simp only [Nat.zero_add]
          exact hothers
    | _ =>
      rw [ofEntry.eq_def] at h
      cases h
      exact shapeError_combinator hmember (by simp)
  · rw [hk] at h
    cases value with
    | object members =>
      exact ofEntry_existence_faulty hdepth
        (fun hinner hpure h => ofMembers_faulty members hinner hpure (fun _ hm => hm) h) hmember h
    | _ =>
      rw [ofEntry_eq_shapeError (by simp) (by simp)] at h
      cases h
      exact shapeError_existence hmember (.inr (by simp))
  · rw [hk] at h
    cases value with
    | object members =>
      exact ofEntry_field_faulty hdepth
        (fun hinner hpure h => ofMembers_faulty members hinner hpure (fun _ hm => hm) h) hfield
        hmember h
    | _ =>
      rw [ofEntry_eq_shapeError (by simp) (by simp)] at h
      cases h
      exact shapeError_field hfield hmember (.inr (by simp))
termination_by structural value

theorem ofItem_faulty (item : Json) {scope : Scope} {context : ContextPath} {depth levels : Nat}
    {combinator : Combinator} {index : Nat} {e : CompileError}
    (hdepth : depth + levels = limits.maxDepth)
    (h : ofItem c limits scope context depth combinator index item = .error e) :
    ItemReports c limits levels scope (context.push (combinator.itemLabel index)) e item := by
  cases item with
  | object members =>
    exact ofItem_object_faulty hdepth
      (fun hinner hpure h => ofMembers_faulty members hinner hpure (fun _ hm => hm) h) h
  | _ =>
    rw [ofItem.eq_def] at h
    cases h
    exact ⟨_, _, .rejected (by simp), .self⟩
termination_by structural item

theorem ofItems_faulty (items : List Json) {scope : Scope} {context : ContextPath}
    {depth levels : Nat} {combinator : Combinator} {index : Nat} {p : Predicate}
    {e : CompileError} (hdepth : depth + levels = limits.maxDepth)
    (h : ofItems c limits scope context depth combinator index p items = .error e) :
    FirstItem c limits levels scope context combinator index e items := by
  cases items with
  | nil =>
    rw [ofItems] at h
    cases h
  | cons item items =>
    rw [ofItems] at h
    rcases bind_eq_error.1 h with h | ⟨q, hq, h⟩
    · exact .head (ofItem_faulty item hdepth h)
    · have hothers := ofItems_faulty items hdepth h
      simp only [FirstItem, Nat.add_right_comm index 1] at hothers
      exact .cons ((ofItem_ok_iff item hdepth).1 ⟨q, hq⟩) hothers
termination_by structural items

end

/-- Criteria of a known type that do not convert have a fault that the error is about, and the
context path of the error leads to a node of the criteria, or of the innermost filter around the
fault, at or above the fault. A label is a key where the object has such a key, and otherwise stands
for an item. -/
theorem convert_error_points {rootType : String} {criteria : List (String × Json)}
    (hentity : ∃ entity, c.entity? rootType = some entity)
    (h : convert c limits rootType criteria = .error e) :
    Reports
      (FaultyObject c limits (limits.maxDepth + 1) (Scope.root rootType) criteria)
      (.object criteria) {} e := by
  rw [convert, Catalog.root_iff.2 ⟨hentity, rfl⟩] at h
  refine ofObject_faulty (Nat.zero_add _) ?_ h
  intro levels hdepth hpure h
  exact ofMembers_faulty criteria hdepth hpure (fun _ hm => hm) h

end

/-! ## Persons, their managers, and brackets -/

/-- Criteria on the manager of a person, whose age is compared with a text. -/
def wordyAge : List (String × Json) :=
  [("manager", .object [("exists", .object [("AND", .array [
    .object [("name", .object [("eq", .string "a")])],
    .object [("age", .object [("eq", .string "old")])]])])])]

/-- The error of the criteria on an age. Its labels start at the filter. -/
def wordyAgeError : CompileError :=
  (Rejection.wrongLiteral .integer (.string "old")).within ⟨["AND[1]", "age"]⟩

theorem convert_wordyAge : convert staff {} "Person" wordyAge = .error wordyAgeError := by
  rfl

theorem wordyAgeError_points :
    Reports (FaultyObject staff {} 65 (Scope.root "Person") wordyAge) (.object wordyAge) {}
      wordyAgeError :=
  convert_error_points ⟨_, rfl⟩ convert_wordyAge

/-- Criteria with a key that looks like the label of an item. -/
def bracketedKey : List (String × Json) := [("AND[0]", .object [])]

/-- No filter is entered on the way to the fault of the criteria with such a key. -/
theorem site_of_bracketedKey {c : Catalog} {limits : Limits} {levels : Nat} {scope : Scope}
    {site : Site} {r : Rejection} (h : FaultyObject c limits levels scope bracketedKey site r) :
    ∃ edges value, site = .here edges value := by
  generalize hmembers : bracketedKey = members at h
  cases h with
  | tooDeep => exact ⟨_, _, rfl⟩
  | mixed h => exact ⟨_, _, rfl⟩
  | @entry _ _ front back key value site _ pure first h =>
    have hmember : (key, value) ∈ bracketedKey := by simp [hmembers]
    obtain ⟨-, hvalue⟩ := Prod.mk.inj (List.mem_singleton.1 hmember)
    cases h with
    | rejected h => exact ⟨_, _, rfl⟩
    | item combinator first h => cases hvalue
    | filter test navigated nonempty h =>
      cases hvalue
      exact absurd rfl nonempty
    | attr field nonempty found h =>
      cases hvalue
      exact absurd rfl nonempty
    | relationship field nonempty found h =>
      cases hvalue
      exact absurd rfl nonempty

/-- No label reads as an item of a list that is not there. -/
theorem not_reads_bracketedKey {edges : List Edge} {node : Json} :
    ¬Reads NoItemLabel (.object bracketedKey) ["AND[0]"] edges node := by
  intro h
  generalize hlabels : ["AND[0]"] = labels at h
  cases h with
  | done => cases hlabels
  | key asKey member rest =>
    cases hlabels
    exact asKey .conjunction 0 rfl
  | item other list member rest =>
    obtain ⟨-, hvalue⟩ := Prod.mk.inj (List.mem_singleton.1 list)
    cases hvalue

/-- Where labels of items are always read as such, a key that looks like one leads nowhere, and
there is no filter to start from either. -/
theorem bracketedKeyError_leads_nowhere :
    (∃ entity, staff.entity? "Person" = some entity) ∧
      convert staff {} "Person" bracketedKey =
        .error (Rejection.emptyNode.within ⟨["AND[0]"]⟩) ∧
      (∀ site r, FaultyObject staff {} 65 (Scope.root "Person") bracketedKey site r →
        ∃ edges value, site = .here edges value) ∧
      ∀ edges node, ¬Reads NoItemLabel (.object bracketedKey) ["AND[0]"] edges node :=
  ⟨⟨_, rfl⟩, rfl, fun _ _ => site_of_bracketedKey, fun _ _ => not_reads_bracketedKey⟩

end Criteria.Structural
