import Criteria.Proofs.Json.Bounded

/-! # Keys of documents

No object of a document has two members of one name, since a repeated name sets the member again
(`Json.read?_distinct`). Where names are distinct, looking one up finds the only member of it.
-/

set_option autoImplicit false

namespace Criteria.Json

/-- The members of every object of a value have names of their own. -/
inductive Distinct : Json → Prop
  | null : Distinct null
  | boolean {b : Bool} : Distinct (boolean b)
  | number {n : Numeric} : Distinct (number n)
  | string {s : String} : Distinct (string s)
  | array {items : List Json} (inner : ∀ item ∈ items, Distinct item) : Distinct (array items)
  | object {members : List (String × Json)} (names : (members.map (·.1)).Nodup)
      (inner : ∀ m ∈ members, Distinct m.2) : Distinct (object members)

theorem Distinct.of_array {items : List Json} (h : (Json.array items).Distinct) :
    ∀ item ∈ items, item.Distinct := by
  cases h with
  | array inner => exact inner

theorem Distinct.of_object {members : List (String × Json)} (h : (Json.object members).Distinct) :
    (members.map (·.1)).Nodup ∧ ∀ m ∈ members, m.2.Distinct := by
  cases h with
  | object names inner => exact ⟨names, inner⟩

theorem lookup_of_mem {members : List (String × Json)} (h : (members.map (·.1)).Nodup)
    {name : String} {value : Json} (hmem : (name, value) ∈ members) :
    members.lookup name = some value := by
  induction members with
  | nil => cases hmem
  | cons m members ih =>
    rw [List.map_cons, List.nodup_cons] at h
    rcases List.mem_cons.1 hmem with rfl | hmem
    · exact List.lookup_cons_self
    · have hne : name ≠ m.1 := by
        rintro rfl
        exact h.1 (List.mem_map.2 ⟨_, hmem, rfl⟩)
      have hskip : (name == m.1) = false := beq_eq_false_iff_ne.2 hne
      rw [List.lookup_cons, hskip]
      exact ih h.2 hmem

/-! ## Documents -/

/-- Setting a member keeps the names, or adds a new one behind them. -/
theorem names_setMember (members : List (String × Json)) (name : String) (value : Json) :
    (setMember members name value).map (·.1) =
      if name ∈ members.map (·.1) then members.map (·.1) else members.map (·.1) ++ [name] := by
  have hany : (members.any fun m => m.1 = name) = true ↔ name ∈ members.map (·.1) := by
    simp
  unfold setMember
  by_cases hname : name ∈ members.map (·.1)
  · rw [if_pos hname, if_pos (hany.2 hname), List.map_map]
    refine List.map_congr_left ?_
    intro m _
    by_cases hm : m.1 = name
    · simp [hm]
    · simp [hm]
  · have hnone : ¬(members.any fun m => m.1 = name) = true := fun h => hname (hany.1 h)
    rw [if_neg hname, if_neg hnone, List.map_append]
    rfl

theorem nodup_names_setMember {members : List (String × Json)} (h : (members.map (·.1)).Nodup)
    (name : String) (value : Json) : ((setMember members name value).map (·.1)).Nodup := by
  rw [names_setMember]
  split
  · exact h
  · rename_i hname
    have happart : (members.map (·.1)).Disjoint [name] := List.disjoint_singleton.2 hname
    exact h.append (List.nodup_singleton name) happart

mutual

/-- What a form stands for has distinct names, whatever names are repeated in the form. -/
theorem Raw.toJson?_distinct {raw : Raw} {depth : Nat} {j : Json}
    (h : raw.toJson? depth = some j) : j.Distinct := by
  cases raw with
  | null =>
    cases h
    exact .null
  | boolean b =>
    cases h
    exact .boolean
  | number n =>
    obtain ⟨value, -, rfl⟩ := Option.map_eq_some_iff.1 h
    exact .number
  | string s =>
    obtain ⟨text, -, rfl⟩ := Option.map_eq_some_iff.1 h
    exact .string
  | array items =>
    rw [Raw.toJson?] at h
    split at h
    · cases h
    · obtain ⟨values, hvalues, rfl⟩ := Option.map_eq_some_iff.1 h
      exact .array (Raw.itemsToJson?_distinct hvalues)
  | object members =>
    rw [Raw.toJson?] at h
    split at h
    · cases h
    · obtain ⟨values, hvalues, rfl⟩ := Option.map_eq_some_iff.1 h
      have hnone : (([] : List (String × Json)).map (·.1)).Nodup := List.nodup_nil
      obtain ⟨hnames, hinner⟩ := Raw.membersToJson?_distinct hnone (List.forall_mem_nil _) hvalues
      exact .object hnames hinner

theorem Raw.itemsToJson?_distinct {items : List Raw} {depth : Nat} {values : List Json}
    (h : Raw.itemsToJson? depth items = some values) : ∀ value ∈ values, value.Distinct := by
  cases items with
  | nil =>
    cases h
    exact List.forall_mem_nil _
  | cons item items =>
    simp only [Raw.itemsToJson?, Option.bind_eq_bind, Option.bind_eq_some_iff] at h
    obtain ⟨first, hfirst, others, hothers, heq⟩ := h
    cases heq
    exact List.forall_mem_cons.2
      ⟨Raw.toJson?_distinct hfirst, Raw.itemsToJson?_distinct hothers⟩

/-- Members are set one after the other, so those already set are carried along. -/
theorem Raw.membersToJson?_distinct {members : List (Option String × Raw)} {depth : Nat}
    {done values : List (String × Json)} (hnames : (done.map (·.1)).Nodup)
    (hdone : ∀ m ∈ done, m.2.Distinct)
    (h : Raw.membersToJson? depth done members = some values) :
    (values.map (·.1)).Nodup ∧ ∀ m ∈ values, m.2.Distinct := by
  cases members with
  | nil =>
    cases h
    exact ⟨hnames, hdone⟩
  | cons member members =>
    obtain ⟨name, raw⟩ := member
    simp only [Raw.membersToJson?, Option.bind_eq_bind, Option.bind_eq_some_iff] at h
    obtain ⟨name, -, value, hvalue, h⟩ := h
    have hset := forall_mem_setMember hdone name (Raw.toJson?_distinct hvalue)
    exact Raw.membersToJson?_distinct (nodup_names_setMember hnames name value) hset h

end

/-- Every value that a text holds has distinct names. -/
theorem read?_distinct {text : String} {j : Json} (h : read? text = some j) : j.Distinct := by
  obtain ⟨raw, -, hraw⟩ := Option.bind_eq_some_iff.1 h
  exact Raw.toJson?_distinct hraw

end Criteria.Json
