import Criteria.Proofs.Json.Reordering
import Criteria.Proofs.Predicate.Reordering
import Criteria.Proofs.Results
import Criteria.Proofs.Structural.EmptyNodes

/-! # Criteria up to the order of keys

Criteria that are equal but for the order of their keys are converted alike: both to predicates that
are equal but for the order of conjuncts, or both to none (`convert_reordered`). All entries of an
object are joined by `and`, so a run on them may take them in any order (`conjoin_perm`), and what
is read beside the entries, such as the bounds of a substring, is looked up by its key.
-/

set_option autoImplicit false

namespace Criteria.Structural

open Predicate (Reordered)

/-! ## Results of two runs -/

/-- Two results that are both errors, or values that are related. -/
inductive Alike {ε α : Type} (R : α → α → Prop) : Except ε α → Except ε α → Prop
  | ok {a b : α} (h : R a b) : Alike R (.ok a) (.ok b)
  | error {e e' : ε} : Alike R (.error e) (.error e')

namespace Alike

variable {ε α β : Type} {R : α → α → Prop} {S : β → β → Prop}

theorem refl (hrefl : ∀ a, R a a) (r : Except ε α) : Alike R r r := by
  cases r with
  | ok a => exact .ok (hrefl a)
  | error e => exact .error

theorem trans (htrans : ∀ {a b c}, R a b → R b c → R a c) {r r' r'' : Except ε α}
    (h : Alike R r r') (h' : Alike R r' r'') : Alike R r r'' := by
  cases h with
  | ok h =>
    cases h' with
    | ok h' => exact .ok (htrans h h')
  | error =>
    cases h' with
    | error => exact .error

theorem bind {r r' : Except ε α} {f g : α → Except ε β} (h : Alike R r r')
    (next : ∀ a b, R a b → Alike S (f a) (g b)) : Alike S (r >>= f) (r' >>= g) := by
  cases h with
  | ok h => exact next _ _ h
  | error => exact .error

/-- A step that both runs share. -/
theorem bind_same (r : Except ε α) {f g : α → Except ε β} (next : ∀ a, Alike S (f a) (g a)) :
    Alike S (r >>= f) (r >>= g) := by
  cases r with
  | ok a => exact next a
  | error e => exact .error

theorem iff_ok {r r' : Except ε α} :
    Alike R r r' ↔
      ((∃ a, r = .ok a) ↔ ∃ b, r' = .ok b) ∧ ∀ a b, r = .ok a → r' = .ok b → R a b := by
  constructor
  · rintro (h | _)
    · exact ⟨iff_of_true ⟨_, rfl⟩ ⟨_, rfl⟩, by rintro _ _ ⟨⟩ ⟨⟩; exact h⟩
    · exact ⟨iff_of_false nofun nofun, nofun⟩
  · rintro ⟨hok, hrelated⟩
    cases r with
    | ok a =>
      obtain ⟨b, rfl⟩ := hok.1 ⟨a, rfl⟩
      exact .ok (hrelated a b rfl rfl)
    | error e =>
      cases r' with
      | ok b =>
        obtain ⟨a, ha⟩ := hok.2 ⟨b, rfl⟩
        cases ha
      | error e' => exact .error

end Alike

/-- Predicates that are equal but for the order of conjuncts, or no predicate from both runs. -/
abbrev AlikeInOrder : Except CompileError Predicate → Except CompileError Predicate → Prop :=
  Alike Reordered

theorem AlikeInOrder.refl (r : Except CompileError Predicate) : AlikeInOrder r r :=
  Alike.refl .refl r

theorem AlikeInOrder.trans {r r' r'' : Except CompileError Predicate} (h : AlikeInOrder r r')
    (h' : AlikeInOrder r' r'') : AlikeInOrder r r'' :=
  Alike.trans .trans h h'

/-! ## Entries joined by `and` -/

section

variable {α : Type}

/-- What the steps yield joined to what is in front of them. -/
def conjoin (step : α → Except CompileError Predicate) (p : Predicate) :
    List α → Except CompileError Predicate
  | [] => .ok p
  | m :: ms => do
    let q ← step m
    conjoin step (p.and q) ms

variable {step step' : α → Except CompileError Predicate} {ms ns : List α} {p p' : Predicate}

theorem conjoin_alike (h : List.Forall₂ (fun m n => AlikeInOrder (step m) (step' n)) ms ns)
    (hp : p.Reordered p') : AlikeInOrder (conjoin step p ms) (conjoin step' p' ns) := by
  induction h generalizing p p' with
  | nil => exact .ok hp
  | cons hfirst _ ih => exact hfirst.bind fun q q' hq => ih (hp.and hq)

theorem conjoin_same (hp : p.Reordered p') :
    AlikeInOrder (conjoin step p ms) (conjoin step p' ms) :=
  conjoin_alike (List.forall₂_same.2 fun _ _ => .refl _) hp

/-- The steps may be taken in any order. -/
theorem conjoin_perm (perm : ms.Perm ns) (hp : p.Reordered p') :
    AlikeInOrder (conjoin step p ms) (conjoin step p' ns) := by
  induction perm generalizing p p' with
  | nil => exact .ok hp
  | cons m _ ih => exact (AlikeInOrder.refl _).bind fun q q' hq => ih (hp.and hq)
  | swap m n ms =>
    simp only [conjoin]
    cases step m with
    | error e => cases step n <;> exact .error
    | ok q =>
      cases step n with
      | error e => exact .error
      | ok r =>
        have hswap := Predicate.and_right_comm_reordered p r q
        exact conjoin_same (hswap.trans ((hp.and (.refl q)).and (.refl r)))
  | trans _ _ hfirst hsecond => exact (hfirst (.refl p)).trans (hsecond hp)

end

/-! ## Runs on two objects -/

theorem Alike.within {α : Type} {R : α → α → Prop} {r r' : Except Rejection α}
    (h : Alike R r r') (context : ContextPath) :
    Alike R (within context r) (within context r') := by
  cases h with
  | ok h => exact .ok h
  | error => exact .error

variable {c : Catalog} {limits : Limits}

/-- What one entry below an attribute yields. The keys of the function around it are passed over. -/
def ofOperator (limits : Limits) (a : AttributeRef) (context : ContextPath) (depth : Nat)
    (skipped : List String) (m : String × Json) : Except CompileError Predicate :=
  if m.1 ∈ skipped then .ok .all
  else do
    let (operator, _) ← within context (a.valueType.resolveOperator m.1)
    match operator with
    | .compare comparator => within context (a.compare limits comparator (argumentOf m.2))
    | .function function => ofFunction limits a context depth function m.2

theorem ofOperators_eq_conjoin (a : AttributeRef) (context : ContextPath) (depth : Nat)
    (skipped : List String) (p : Predicate) (members : List (String × Json)) :
    ofOperators limits a context depth skipped p members =
      conjoin (ofOperator limits a context depth skipped) p members := by
  induction members generalizing p with
  | nil => rw [ofOperators, conjoin]
  | cons m members ih =>
    obtain ⟨name, parameter⟩ := m
    rw [ofOperators, conjoin, ofOperator]
    by_cases hskipped : name ∈ skipped
    · rw [if_pos hskipped, if_pos hskipped, ih]
      show _ = conjoin _ (p.and .all) members
      rw [Predicate.and_all]
    · rw [if_neg hskipped, if_neg hskipped]
      cases a.valueType.resolveOperator name with
      | error r => rfl
      | ok found =>
        obtain ⟨operator, arity⟩ := found
        cases operator <;> simp only [ih] <;> rfl

theorem ofMembers_eq_conjoin (scope : Scope) (context : ContextPath) (depth : Nat)
    (p : Predicate) (members : List (String × Json)) :
    ofMembers c limits scope context depth p members =
      conjoin (fun m => ofEntry c limits scope context depth (.ofText m.1) m.2) p members := by
  induction members generalizing p with
  | nil => rw [ofMembers, conjoin]
  | cons m members ih =>
    rw [ofMembers, conjoin]
    simp only [ih]

/-- Objects of which every run reads the same, and whose entries it converts alike. -/
structure EntriesAlike (c : Catalog) (limits : Limits) (members others : List (String × Json)) :
    Prop where
  empty : members.isEmpty = others.isEmpty
  mixes : mixesCombinators members = mixesCombinators others
  bounds : ∀ key, bound? members key = bound? others key
  own : members.all (·.1 ∈ boundKeys) = others.all (·.1 ∈ boundKeys)
  operators : ∀ a context depth skipped, AlikeInOrder
    (ofOperators limits a context depth skipped .all members)
    (ofOperators limits a context depth skipped .all others)
  entries : ∀ scope context depth, AlikeInOrder
    (ofMembers c limits scope context depth .all members)
    (ofMembers c limits scope context depth .all others)

namespace EntriesAlike

variable {members others more : List (String × Json)}

theorem refl (members : List (String × Json)) : EntriesAlike c limits members members where
  empty := rfl
  mixes := rfl
  bounds _ := rfl
  own := rfl
  operators _ _ _ _ := .refl _
  entries _ _ _ := .refl _

theorem trans (h : EntriesAlike c limits members others) (h' : EntriesAlike c limits others more) :
    EntriesAlike c limits members more where
  empty := h.empty.trans h'.empty
  mixes := h.mixes.trans h'.mixes
  bounds key := (h.bounds key).trans (h'.bounds key)
  own := h.own.trans h'.own
  operators a context depth skipped :=
    (h.operators a context depth skipped).trans (h'.operators a context depth skipped)
  entries scope context depth :=
    (h.entries scope context depth).trans (h'.entries scope context depth)

theorem functionOf (h : EntriesAlike c limits members others) (name : FunctionName)
    (found found' : Json) :
    Alike Eq (functionOf name members found) (functionOf name others found') := by
  cases name with
  | substring =>
    unfold Structural.functionOf
    dsimp only
    rw [h.bounds, h.bounds, h.own]
    cases bound? others "start" with
    | none => exact .error
    | some start =>
      cases bound? others "end" with
      | none => exact .error
      | some stop =>
        dsimp only
        split
        · exact .error
        · exact .ok rfl
  | _ => exact .ok rfl

theorem checkMembers (h : EntriesAlike c limits members others) (context : ContextPath)
    (depth : Nat) :
    checkMembers limits context depth members = checkMembers limits context depth others := by
  unfold Structural.checkMembers
  rw [h.mixes]

theorem function (h : EntriesAlike c limits members others) (a : AttributeRef)
    (context : ContextPath) (depth : Nat) (name : FunctionName) :
    AlikeInOrder (ofFunction limits a context depth name (.object members))
      (ofFunction limits a context depth name (.object others)) := by
  rw [ofFunction, ofFunction, h.empty]
  split
  · exact .error
  · apply ((h.functionOf name _ _).within context).bind
    rintro ⟨function, skipped⟩ _ rfl
    apply Alike.bind_same
    intro derived
    apply Alike.bind_same
    intro _
    exact h.operators derived context (depth + 1) skipped

/-- An object of criteria at a depth, converted after its checks. -/
theorem object (h : EntriesAlike c limits members others) (scope : Scope) (context : ContextPath)
    (depth : Nat) :
    AlikeInOrder
      (Structural.checkMembers limits context depth members >>= fun _ =>
        ofMembers c limits scope context depth .all members)
      (Structural.checkMembers limits context depth others >>= fun _ =>
        ofMembers c limits scope context depth .all others) := by
  rw [h.checkMembers]
  exact Alike.bind_same _ fun _ => h.entries scope context depth

theorem entry (h : EntriesAlike c limits members others) (scope : Scope) (context : ContextPath)
    (depth : Nat) (key : Key) :
    AlikeInOrder (ofEntry c limits scope context depth key (.object members))
      (ofEntry c limits scope context depth key (.object others)) := by
  rw [ofEntry.eq_def, ofEntry.eq_def]
  dsimp only
  cases key with
  | combinator combinator => exact .error
  | existence test =>
    dsimp only
    cases scope.relationshipPath? with
    | none => exact .error
    | some relationship =>
      dsimp only
      rw [h.empty]
      split
      · exact .refl _
      · rw [h.checkMembers]
        apply Alike.bind_same
        intro _
        apply (h.entries scope.rebase {} (depth + 1)).bind
        intro p q hpq
        exact .ok (.filter hpq)
  | field name =>
    dsimp only
    rw [h.empty]
    split
    · exact .error
    · apply Alike.bind_same
      intro found
      cases found with
      | attr a => exact Alike.bind_same _ fun _ => h.operators a _ (depth + 1) []
      | relationship target => exact h.object target _ (depth + 1)

theorem item (h : EntriesAlike c limits members others) (scope : Scope) (context : ContextPath)
    (depth : Nat) (combinator : Combinator) (index : Nat) :
    AlikeInOrder (ofItem c limits scope context depth combinator index (.object members))
      (ofItem c limits scope context depth combinator index (.object others)) := by
  rw [ofItem, ofItem]
  exact h.object scope _ (depth + 1)

/-- The order of the keys of one object is no matter. -/
theorem of_perm (perm : members.Perm others) (hnames : (members.map (·.1)).Nodup) :
    EntriesAlike c limits members others where
  empty := by rw [Bool.eq_iff_iff, List.isEmpty_iff_length_eq_zero, List.isEmpty_iff_length_eq_zero,
    perm.length_eq]
  mixes := by rw [mixesCombinators, mixesCombinators, perm.length_eq, perm.any_eq]
  bounds key := by rw [bound?, bound?, Json.lookup_perm perm hnames]
  own := perm.all_eq
  operators a context depth skipped := by
    rw [ofOperators_eq_conjoin, ofOperators_eq_conjoin]
    exact conjoin_perm perm (.refl _)
  entries scope context depth := by
    rw [ofMembers_eq_conjoin, ofMembers_eq_conjoin]
    exact conjoin_perm perm (.refl _)

end EntriesAlike

/-! ## Values in the place of one another -/

/-- Values that are converted alike wherever they stand. -/
structure Interchangeable (c : Catalog) (limits : Limits) (v w : Json) : Prop where
  reordered : v.Reordered w
  function : ∀ a context depth name, AlikeInOrder (ofFunction limits a context depth name v)
    (ofFunction limits a context depth name w)
  entry : ∀ scope context depth key, AlikeInOrder (ofEntry c limits scope context depth key v)
    (ofEntry c limits scope context depth key w)
  item : ∀ scope context depth combinator index, AlikeInOrder
    (ofItem c limits scope context depth combinator index v)
    (ofItem c limits scope context depth combinator index w)
  object : ∀ members, v = .object members →
    ∃ others, w = .object others ∧ EntriesAlike c limits members others

namespace Interchangeable

variable {v w x : Json}

theorem refl (v : Json) : Interchangeable c limits v v where
  reordered := .refl v
  function _ _ _ _ := .refl _
  entry _ _ _ _ := .refl _
  item _ _ _ _ _ := .refl _
  object members h := ⟨members, h, .refl members⟩

theorem trans (h : Interchangeable c limits v w) (h' : Interchangeable c limits w x) :
    Interchangeable c limits v x where
  reordered := h.reordered.trans h'.reordered
  function a context depth name := (h.function a context depth name).trans
    (h'.function a context depth name)
  entry scope context depth key := (h.entry scope context depth key).trans
    (h'.entry scope context depth key)
  item scope context depth combinator index := (h.item scope context depth combinator index).trans
    (h'.item scope context depth combinator index)
  object members hv := by
    obtain ⟨others, hw, hothers⟩ := h.object members hv
    obtain ⟨more, hx, hmore⟩ := h'.object others hw
    exact ⟨more, hx, hothers.trans hmore⟩

/-- Objects whose entries are converted alike are interchangeable. -/
theorem of_entriesAlike {members others : List (String × Json)}
    (hreordered : (Json.object members).Reordered (.object others))
    (h : EntriesAlike c limits members others) :
    Interchangeable c limits (.object members) (.object others) where
  reordered := hreordered
  function := h.function
  entry := h.entry
  item := h.item
  object _ hmembers := by
    cases hmembers
    exact ⟨others, rfl, h⟩

end Interchangeable

/-! ## One value in the place of another -/

theorem compare_unsupported (a : AttributeRef) (comparator : Comparator) (text : String) :
    ∃ r, a.compare limits comparator (.unsupported text) = .error r := by
  cases hresult : a.compare limits comparator (.unsupported text) with
  | error r => exact ⟨r, rfl⟩
  | ok p =>
    rcases compare_argument hresult with ⟨hempty, -⟩ | ⟨l, hl, -⟩
    · cases hempty
    · cases hl

/-- As arguments, values are the same but for the text that no operator takes. -/
theorem compare_reordered {v w : Json} (h : v.Reordered w) (a : AttributeRef)
    (comparator : Comparator) :
    Alike Reordered (a.compare limits comparator (argumentOf v))
      (a.compare limits comparator (argumentOf w)) := by
  by_cases hv : v = .object []
  · rw [hv, h.emptyObject_iff.1 hv]
    exact Alike.refl .refl _
  · rw [argumentOf_of_ne hv, argumentOf_of_ne (h.emptyObject_iff.not.1 hv), h.ofJson?]
    cases Literal.ofJson? w with
    | some l => exact Alike.refl .refl _
    | none =>
      obtain ⟨r, hr⟩ := compare_unsupported a comparator v.compact
      obtain ⟨r', hr'⟩ := compare_unsupported a comparator w.compact
      dsimp only
      rw [hr, hr']
      exact .error

/-- Entries of one key whose values are interchangeable. -/
def EntryAlike (c : Catalog) (limits : Limits) (m n : String × Json) : Prop :=
  m.1 = n.1 ∧ Interchangeable c limits m.2 n.2

theorem EntryAlike.refl (m : String × Json) : EntryAlike c limits m m := ⟨rfl, .refl m.2⟩

theorem EntryAlike.ofOperator {m n : String × Json} (h : EntryAlike c limits m n)
    (a : AttributeRef) (context : ContextPath) (depth : Nat) (skipped : List String) :
    AlikeInOrder (ofOperator limits a context depth skipped m)
      (ofOperator limits a context depth skipped n) := by
  obtain ⟨name, v⟩ := m
  obtain ⟨_, w⟩ := n
  obtain ⟨rfl, h⟩ := h
  unfold Structural.ofOperator
  split
  · exact .refl _
  · apply Alike.bind_same
    rintro ⟨operator, arity⟩
    cases operator with
    | compare comparator => exact (compare_reordered h.reordered a comparator).within context
    | function function => exact h.function a context depth function

section

variable {members others : List (String × Json)}

theorem names_of_entriesAlike (h : List.Forall₂ (EntryAlike c limits) members others) :
    members.map (·.1) = others.map (·.1) := by
  rw [← List.forall₂_eq_eq_eq, List.forall₂_map_left_iff, List.forall₂_map_right_iff]
  exact h.imp fun _ _ hm => hm.1

theorem bound?_of_entriesAlike (h : List.Forall₂ (EntryAlike c limits) members others)
    (key : String) : bound? members key = bound? others key := by
  induction h with
  | nil => rfl
  | @cons m n members others hm _ ih =>
    obtain ⟨name, v⟩ := m
    obtain ⟨_, w⟩ := n
    obtain ⟨rfl, hvw⟩ := hm
    unfold bound? at ih ⊢
    rw [List.lookup_cons, List.lookup_cons]
    by_cases hkey : (key == name) = true
    · rw [hkey]
      dsimp only
      -- A number is written by no other value, so the bound is one of both or of none.
      have hnumber : ∀ n, v = .number n ↔ w = .number n := hvw.reordered.number_iff
      cases v with
      | number n => rw [(hnumber n).1 rfl]
      | _ =>
        cases w with
        | number n => cases (hnumber n).2 rfl
        | _ => rfl
    · rw [Bool.not_eq_true] at hkey
      rw [hkey]
      exact ih

/-- Entries may change their values for interchangeable ones. -/
theorem EntriesAlike.of_forall₂ (h : List.Forall₂ (EntryAlike c limits) members others) :
    EntriesAlike c limits members others where
  empty := by rw [Bool.eq_iff_iff, List.isEmpty_iff_length_eq_zero, List.isEmpty_iff_length_eq_zero,
    h.length_eq]
  mixes := by
    have hany : ∀ ms : List (String × Json), (ms.any fun m => (Combinator.ofKey? m.1).isSome) =
        (ms.map (·.1)).any fun key => (Combinator.ofKey? key).isSome := fun ms => by
      rw [List.any_map]
      rfl
    rw [mixesCombinators, mixesCombinators, h.length_eq, hany, hany, names_of_entriesAlike h]
  bounds := bound?_of_entriesAlike h
  own := by
    have hall : ∀ ms : List (String × Json), ms.all (·.1 ∈ boundKeys) =
        (ms.map (·.1)).all (· ∈ boundKeys) := fun ms => by
      rw [List.all_map]
      rfl
    rw [hall, hall, names_of_entriesAlike h]
  operators a context depth skipped := by
    rw [ofOperators_eq_conjoin, ofOperators_eq_conjoin]
    exact conjoin_alike (h.imp fun _ _ hm => hm.ofOperator a context depth skipped) (.refl _)
  entries scope context depth := by
    rw [ofMembers_eq_conjoin, ofMembers_eq_conjoin]
    refine conjoin_alike (h.imp ?_) (.refl _)
    rintro ⟨key, v⟩ ⟨_, w⟩ ⟨rfl, hvw⟩
    exact hvw.entry scope context depth (.ofText key)

end

/-! ## Lists -/

theorem join_reordered (combinator : Combinator) {p p' q q' : Predicate} (hp : p.Reordered p')
    (hq : q.Reordered q') : (combinator.join p q).Reordered (combinator.join p' q') := by
  cases combinator with
  | conjunction => exact hp.and hq
  | disjunction => exact hp.or hq

theorem ofItems_alike {items others : List Json}
    (h : List.Forall₂ (Interchangeable c limits) items others) (scope : Scope)
    (context : ContextPath) (depth : Nat) (combinator : Combinator) (index : Nat)
    {p p' : Predicate} (hp : p.Reordered p') :
    AlikeInOrder (ofItems c limits scope context depth combinator index p items)
      (ofItems c limits scope context depth combinator index p' others) := by
  induction h generalizing index p p' with
  | nil =>
    rw [ofItems, ofItems]
    exact .ok hp
  | cons hfirst _ ih =>
    rw [ofItems, ofItems]
    apply (hfirst.item scope context depth combinator index).bind
    intro q q' hq
    exact ih (index + 1) (join_reordered combinator hp hq)

theorem ofEntry_array_alike {items others : List Json}
    (h : List.Forall₂ (Interchangeable c limits) items others) (scope : Scope)
    (context : ContextPath) (depth : Nat) (key : Key) :
    AlikeInOrder (ofEntry c limits scope context depth key (.array items))
      (ofEntry c limits scope context depth key (.array others)) := by
  rw [ofEntry.eq_def, ofEntry.eq_def]
  cases h with
  | nil => exact .error
  | cons hfirst hothers =>
    cases key with
    | combinator combinator =>
      apply (hfirst.item scope context depth combinator 0).bind
      intro p p' hp
      exact ofItems_alike hothers scope context depth combinator 1 hp
    | _ => exact .error

/-- A list of criteria may change one item for an interchangeable one. -/
theorem Interchangeable.item_of_array {front back : List Json} {v w : Json}
    (h : Interchangeable c limits v w) :
    Interchangeable c limits (.array (front ++ v :: back)) (.array (front ++ w :: back)) where
  reordered := .item h.reordered
  function a context depth name := by
    rw [ofFunction.eq_def, ofFunction.eq_def]
    cases front <;> exact .error
  entry := by
    have hsame : ∀ items : List Json, List.Forall₂ (Interchangeable c limits) items items :=
      fun items => List.forall₂_same.2 fun i _ => .refl i
    exact ofEntry_array_alike (List.rel_append (hsame front) (.cons h (hsame back)))
  item scope context depth combinator index := by
    rw [ofItem.eq_def, ofItem.eq_def]
    exact .error
  object _ hmembers := by cases hmembers

/-! ## All criteria -/

/-- Values that are equal but for the order of keys are interchangeable. -/
theorem interchangeable_of_reordered {v w : Json} (h : v.Reordered w) (distinct : v.Distinct) :
    Interchangeable c limits v w := by
  induction h with
  | refl v => exact .refl v
  | trans first _ hfirst hsecond =>
    exact (hfirst distinct).trans (hsecond (first.distinct distinct))
  | order perm =>
    exact .of_entriesAlike (.order perm) (.of_perm perm distinct.of_object.1)
  | @member front back key v w inner ih =>
    have hvalue := ih (distinct.of_object.2 (key, v) (by simp))
    have hsame : ∀ members : List (String × Json),
        List.Forall₂ (EntryAlike c limits) members members :=
      fun members => List.forall₂_same.2 fun m _ => .refl m
    exact .of_entriesAlike (.member inner)
      (.of_forall₂ (List.rel_append (hsame front) (.cons ⟨rfl, hvalue⟩ (hsame back))))
  | @item front back v w inner ih =>
    exact (ih (distinct.of_array v (by simp))).item_of_array

/-- The order of keys is no matter to criteria: they are converted in any order or in none, and to
predicates that are equal but for the order of conjuncts. -/
theorem convert_reordered {rootType : String} {criteria others : List (String × Json)}
    (distinct : (Json.object criteria).Distinct)
    (h : (Json.object criteria).Reordered (.object others)) :
    ((∃ p, convert c limits rootType criteria = .ok p) ↔
        ∃ q, convert c limits rootType others = .ok q) ∧
      ∀ p q, convert c limits rootType criteria = .ok p →
        convert c limits rootType others = .ok q → p.Reordered q := by
  have hvalues : Interchangeable c limits (.object criteria) (.object others) :=
    interchangeable_of_reordered h distinct
  obtain ⟨_, hothers, hentries⟩ := hvalues.object criteria rfl
  cases hothers
  apply Alike.iff_ok.1
  unfold convert
  exact Alike.bind_same _ fun scope => hentries.object scope {} 0

/-- Grown-up persons with a name: the name first, and the lower bound of the age before the upper
one. -/
def namedAdults : List (String × Json) :=
  [("name", .object [("isNotNull", .object [])]),
    ("age", .object [("greaterThan", .ofNat 17), ("lessThan", .ofNat 70)])]

/-- The same criteria with all keys the other way round. -/
def adultsNamed : List (String × Json) :=
  [("age", .object [("lessThan", .ofNat 70), ("greaterThan", .ofNat 17)]),
    ("name", .object [("isNotNull", .object [])])]

theorem distinct_namedAdults : (Json.object namedAdults).Distinct := by
  refine .object (by decide) ?_
  intro m hm
  rcases List.mem_pair.1 hm with rfl | rfl
  · refine .object (by decide) ?_
    intro m hm
    obtain rfl := List.mem_singleton.1 hm
    exact .object (by decide) nofun
  · refine .object (by decide) ?_
    intro m hm
    rcases List.mem_pair.1 hm with rfl | rfl <;> exact .number

theorem reordered_namedAdults : (Json.object namedAdults).Reordered (.object adultsNamed) := by
  have hbounds : (Json.object [("greaterThan", .ofNat 17), ("lessThan", .ofNat 70)]).Reordered
      (.object [("lessThan", .ofNat 70), ("greaterThan", .ofNat 17)]) := .order (.swap _ _ _)
  have hage : (Json.object ([("name", .object [("isNotNull", .object [])])] ++
      ("age", .object [("greaterThan", .ofNat 17), ("lessThan", .ofNat 70)]) :: [])).Reordered
      (.object ([("name", .object [("isNotNull", .object [])])] ++
        ("age", .object [("lessThan", .ofNat 70), ("greaterThan", .ofNat 17)]) :: [])) :=
    .member hbounds
  exact hage.trans (.order (.swap _ _ _))

/-- Persons with a name. -/
def nameGiven : Predicate :=
  .comparison ⟨.simple ⟨"Person", [], "name", .string, true⟩, .isNotNull, .none⟩

/-- Persons whose age compares with a number. -/
def ageCompares (comparator : Comparator) (n : Number.Word 32) : Predicate :=
  .comparison ⟨.simple ⟨"Person", [], "age", .integer, false⟩, comparator, .one (.integer n)⟩

theorem namedAdults_reordered :
    (Predicate.conjunction [nameGiven, ageCompares .greaterThan ⟨17, by decide, by decide⟩,
      ageCompares .lessThan ⟨70, by decide, by decide⟩]).Reordered
    (.conjunction [ageCompares .lessThan ⟨70, by decide, by decide⟩,
      ageCompares .greaterThan ⟨17, by decide, by decide⟩, nameGiven]) := by
  have hcriteria : convert staff {} "Person" namedAdults = .ok (.conjunction [nameGiven,
      ageCompares .greaterThan ⟨17, by decide, by decide⟩,
      ageCompares .lessThan ⟨70, by decide, by decide⟩]) := rfl
  have hothers : convert staff {} "Person" adultsNamed = .ok (.conjunction [
      ageCompares .lessThan ⟨70, by decide, by decide⟩,
      ageCompares .greaterThan ⟨17, by decide, by decide⟩, nameGiven]) := rfl
  exact (convert_reordered distinct_namedAdults reordered_namedAdults).2 _ _ hcriteria hothers

end Criteria.Structural
