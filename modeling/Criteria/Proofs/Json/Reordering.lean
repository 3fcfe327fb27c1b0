import Criteria.Literal
import Criteria.Proofs.Json.Distinct

/-! # Values up to the order of keys

The members of an object may stand in any order, at every depth of a value, while the items of a
list keep their places. Keys that are distinct stay so (`Reordered.distinct`), and where they are,
looking one up does not depend on the order (`lookup_perm`).
-/

set_option autoImplicit false

namespace Criteria

/-- Two lists write their literals one after the other. -/
theorem Literal.ofItems?_append (front back : List Json) :
    ofItems? (front ++ back) =
      (ofItems? front).bind fun ls => (ofItems? back).map (ls ++ ·) := by
  induction front with
  | nil =>
    rw [List.nil_append, ofItems?, Option.bind_some]
    simp
  | cons v front ih =>
    rw [List.cons_append, ofItems?, ofItems?, ih]
    cases ofJson? v with
    | none => rfl
    | some l =>
      cases ofItems? front with
      | none => rfl
      | some ls => cases ofItems? back <;> rfl

namespace Json

/-- The same value, but for the order of the members of objects at any depth: the least relation
that orders those of one object anew, is kept below every value, and can be repeated. -/
inductive Reordered : Json → Json → Prop
  | refl (v : Json) : Reordered v v
  | trans {v w x : Json} (first : Reordered v w) (second : Reordered w x) : Reordered v x
  | order {members others : List (String × Json)} (perm : members.Perm others) :
      Reordered (object members) (object others)
  | member {front back : List (String × Json)} {key : String} {v w : Json}
      (inner : Reordered v w) :
      Reordered (object (front ++ (key, v) :: back)) (object (front ++ (key, w) :: back))
  | item {front back : List Json} {v w : Json} (inner : Reordered v w) :
      Reordered (array (front ++ v :: back)) (array (front ++ w :: back))

/-- Values whose objects have distinct keys still do in another order. -/
theorem Reordered.distinct {v w : Json} (h : v.Reordered w) (hv : v.Distinct) : w.Distinct := by
  induction h with
  | refl v => exact hv
  | trans _ _ hfirst hsecond => exact hsecond (hfirst hv)
  | order perm =>
    obtain ⟨hnames, hinner⟩ := hv.of_object
    exact .object ((perm.map _).nodup_iff.1 hnames) fun m hm => hinner m (perm.mem_iff.2 hm)
  | @member front back key v w _ ih =>
    obtain ⟨hnames, hinner⟩ := hv.of_object
    refine .object (by simpa using hnames) ?_
    intro m hm
    rcases List.mem_append.1 hm with hm | hm
    · exact hinner m (List.mem_append_left _ hm)
    · rcases List.mem_cons.1 hm with rfl | hm
      · exact ih (hinner (key, v) (by simp))
      · exact hinner m (by simp [hm])
  | @item front back v w _ ih =>
    have hinner := hv.of_array
    refine .array ?_
    intro i hi
    rcases List.mem_append.1 hi with hi | hi
    · exact hinner i (List.mem_append_left _ hi)
    · rcases List.mem_cons.1 hi with rfl | hi
      · exact ih (hinner v (by simp))
      · exact hinner i (by simp [hi])

theorem Reordered.number_iff {v w : Json} (h : v.Reordered w) (n : Numeric) :
    v = number n ↔ w = number n := by
  induction h with
  | refl v => rfl
  | trans _ _ hfirst hsecond => exact hfirst.trans hsecond
  | order => exact iff_of_false nofun nofun
  | member => exact iff_of_false nofun nofun
  | item => exact iff_of_false nofun nofun

theorem Reordered.emptyObject_iff {v w : Json} (h : v.Reordered w) :
    v = object [] ↔ w = object [] := by
  induction h with
  | refl v => rfl
  | trans _ _ hfirst hsecond => exact hfirst.trans hsecond
  | order perm =>
    rw [object.injEq, object.injEq]
    exact ⟨fun h => (h ▸ perm).nil_eq.symm, fun h => (h ▸ perm).eq_nil⟩
  | member => simp
  | item => exact iff_of_false nofun nofun

theorem mem_of_lookup {members : List (String × Json)} {name : String} {value : Json}
    (h : members.lookup name = some value) : (name, value) ∈ members := by
  induction members with
  | nil => cases h
  | cons m members ih =>
    obtain ⟨key, found⟩ := m
    rw [List.lookup_cons] at h
    split at h
    · rename_i hkey
      rw [beq_iff_eq] at hkey
      cases h
      exact hkey ▸ List.mem_cons_self
    · exact List.mem_cons_of_mem _ (ih h)

theorem lookup_perm {members others : List (String × Json)} (perm : members.Perm others)
    (hnames : (members.map (·.1)).Nodup) (name : String) :
    members.lookup name = others.lookup name := by
  ext value
  have hothers : (others.map (·.1)).Nodup := (perm.map _).nodup_iff.1 hnames
  constructor
  · intro h
    exact lookup_of_mem hothers (perm.mem_iff.1 (mem_of_lookup h))
  · intro h
    exact lookup_of_mem hnames (perm.mem_iff.2 (mem_of_lookup h))

/-- The order of keys is no matter to what a value writes as a literal. -/
theorem Reordered.ofJson? {v w : Json} (h : v.Reordered w) :
    Literal.ofJson? v = Literal.ofJson? w := by
  induction h with
  | refl v => rfl
  | trans _ _ hfirst hsecond => exact hfirst.trans hsecond
  | order perm => rfl
  | member inner ih => rfl
  | item inner ih =>
    rw [Literal.ofJson?, Literal.ofJson?, Literal.ofItems?_append, Literal.ofItems?_append,
      Literal.ofItems?, Literal.ofItems?, ih]

end Json

end Criteria
