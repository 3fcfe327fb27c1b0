import Criteria.Json.Reader
import Criteria.Proofs.Number.Rounding

/-! # Numbers of documents

The numbers of a document are integers of 64 bits, with or without a sign, and finite numbers of
64 bits. Every value that is read is such (`Json.read?_bounded`).
-/

set_option autoImplicit false

namespace Criteria.Json

open Number

/-- The numbers of a value are such as a document holds: integers of 64 bits, with or without a
sign, and finite numbers of 64 bits. -/
inductive Bounded : Json → Prop
  | null : Bounded null
  | boolean {b : Bool} : Bounded (boolean b)
  | integer {n : Int} (lower : -(2 ^ 63) ≤ n) (upper : n < 2 ^ 64) :
      Bounded (number (.integer n))
  | double {x : Double} (finite : x.isFinite = true) : Bounded (number (.double x))
  | string {s : String} : Bounded (string s)
  | array {items : List Json} (inner : ∀ item ∈ items, Bounded item) : Bounded (array items)
  | object {members : List (String × Json)} (inner : ∀ m ∈ members, Bounded m.2) :
      Bounded (object members)

/-! ## Numerals -/

/-- Leading digits are gathered only while they make up a number of 64 bits. -/
theorem gather_lt {n : Nat} (hn : n < 2 ^ 64) (digits : List Char) :
    (gather n digits).1 < 2 ^ 64 := by
  induction digits generalizing n with
  | nil => exact hn
  | cons c digits ih =>
    rw [gather]
    split
    · rename_i hnext
      exact ih hnext
    · exact hn

theorem isFinite_div_powerOfTen {x : Double} (hx : x.isFinite = true) (n : Nat) :
    (x.div (powerOfTen n)).isFinite = true := by
  have hpower : 1 ≤ 10 ^ n := Nat.one_le_pow n 10 (by decide)
  have hunits := Format.two_pow_subunit_le (f := .double) (by decide) (by decide) (by decide)
    Nat.one_pos hpower
  exact Binary.isFinite_div (by decide) hx false hunits

theorem isFinite_scaleDown {x : Double} (hx : x.isFinite = true) (n : Nat) :
    (scaleDown x n).isFinite = true := by
  fun_induction scaleDown x n with
  | case1 x n hn => exact isFinite_div_powerOfTen hx n
  | case2 x n hn hzero => exact hx
  | case3 x n hn hzero ih => exact ih (isFinite_div_powerOfTen hx 308)

/-- Powers of ten that would lead out of the finite numbers are refused. -/
theorem isFinite_of_scale? {x y : Double} (hx : x.isFinite = true) {exponent : Int}
    (h : scale? x exponent = some y) : y.isFinite = true := by
  unfold scale? at h
  split at h
  · cases h
    exact isFinite_scaleDown hx _
  · split at h
    · dsimp only at h
      split at h
      · rename_i hproduct
        cases h
        exact hproduct
      · cases h
    · split at h
      · cases h
        exact hx
      · cases h

theorem isFinite_of_real? {n : Numeral} {x : Double} (h : real? n = some x) :
    x.isFinite = true := by
  simp only [real?, Option.bind_eq_bind, Option.bind_eq_some_iff] at h
  obtain ⟨magnitude, hscale, h⟩ := h
  set significand := (gather (gather 0 n.whole).1 (n.fraction.getD [])).1 with hsignificand
  have hlt : significand < 2 ^ 64 := gather_lt (gather_lt (by decide) _) _
  have hinteger : (Binary.ofInt .double significand).isFinite = true := by
    have hbound : (significand : Int).natAbs ≤ 2 ^ 64 := by omega
    exact Binary.isFinite_ofInt (by decide) hbound (by decide)
  have hfinite : magnitude.isFinite = true := isFinite_of_scale? hinteger hscale
  cases h
  split
  · rw [Binary.isFinite_neg]
    exact hfinite
  · exact hfinite

/-- A numeral that is read is an integer of 64 bits or a finite number. -/
theorem numeric?_bounded {n : Numeral} {value : Numeric} (h : numeric? n = some value) :
    (number value).Bounded := by
  unfold numeric? at h
  dsimp only at h
  split at h
  · rename_i hinteger
    cases h
    exact .integer hinteger.2.1 hinteger.2.2.1
  · obtain ⟨x, hx, rfl⟩ := Option.map_eq_some_iff.1 h
    exact .double (isFinite_of_real? hx)

/-! ## Documents -/

theorem mem_setMember {members : List (String × Json)} {name : String} {value : Json}
    {m : String × Json} (hm : m ∈ setMember members name value) : m ∈ members ∨ m.2 = value := by
  unfold setMember at hm
  split at hm
  · obtain ⟨old, hold, rfl⟩ := List.mem_map.1 hm
    split
    · exact .inr rfl
    · exact .inl hold
  · rcases List.mem_append.1 hm with hold | hnew
    · exact .inl hold
    · obtain rfl := List.mem_singleton.1 hnew
      exact .inr rfl

/-- What holds of the members and of the new value holds once it is set. -/
theorem forall_mem_setMember {P : Json → Prop} {members : List (String × Json)}
    (h : ∀ m ∈ members, P m.2) (name : String) {value : Json} (hvalue : P value) :
    ∀ m ∈ setMember members name value, P m.2 := by
  intro m hm
  rcases mem_setMember hm with hm | hm
  · exact h m hm
  · rw [hm]
    exact hvalue

mutual

/-- What a form stands for is bounded, whatever numerals it holds. -/
theorem Raw.toJson?_bounded {raw : Raw} {depth : Nat} {j : Json}
    (h : raw.toJson? depth = some j) : j.Bounded := by
  cases raw with
  | null =>
    cases h
    exact .null
  | boolean b =>
    cases h
    exact .boolean
  | number n =>
    obtain ⟨value, hvalue, rfl⟩ := Option.map_eq_some_iff.1 h
    exact numeric?_bounded hvalue
  | string s =>
    obtain ⟨text, -, rfl⟩ := Option.map_eq_some_iff.1 h
    exact .string
  | array items =>
    rw [Raw.toJson?] at h
    split at h
    · cases h
    · obtain ⟨values, hvalues, rfl⟩ := Option.map_eq_some_iff.1 h
      exact .array (Raw.itemsToJson?_bounded hvalues)
  | object members =>
    rw [Raw.toJson?] at h
    split at h
    · cases h
    · obtain ⟨values, hvalues, rfl⟩ := Option.map_eq_some_iff.1 h
      have hnone : ∀ m ∈ ([] : List (String × Json)), m.2.Bounded := by
        intro m hm
        cases hm
      exact .object (Raw.membersToJson?_bounded hnone hvalues)

theorem Raw.itemsToJson?_bounded {items : List Raw} {depth : Nat} {values : List Json}
    (h : Raw.itemsToJson? depth items = some values) : ∀ value ∈ values, value.Bounded := by
  cases items with
  | nil =>
    cases h
    intro value hvalue
    cases hvalue
  | cons item items =>
    simp only [Raw.itemsToJson?, Option.bind_eq_bind, Option.bind_eq_some_iff] at h
    obtain ⟨first, hfirst, others, hothers, heq⟩ := h
    cases heq
    intro value hvalue
    rcases List.mem_cons.1 hvalue with rfl | hvalue
    · exact Raw.toJson?_bounded hfirst
    · exact Raw.itemsToJson?_bounded hothers value hvalue

/-- Members are set one after the other, so those already set are carried along. -/
theorem Raw.membersToJson?_bounded {members : List (Option String × Raw)} {depth : Nat}
    {done values : List (String × Json)} (hdone : ∀ m ∈ done, m.2.Bounded)
    (h : Raw.membersToJson? depth done members = some values) :
    ∀ m ∈ values, m.2.Bounded := by
  cases members with
  | nil =>
    cases h
    exact hdone
  | cons member members =>
    obtain ⟨name, raw⟩ := member
    simp only [Raw.membersToJson?, Option.bind_eq_bind, Option.bind_eq_some_iff] at h
    obtain ⟨name, -, value, hvalue, h⟩ := h
    have hset := forall_mem_setMember hdone name (Raw.toJson?_bounded hvalue)
    exact Raw.membersToJson?_bounded hset h

end

/-- Every value that a text holds is bounded. -/
theorem read?_bounded {text : String} {j : Json} (h : read? text = some j) : j.Bounded := by
  obtain ⟨raw, -, hraw⟩ := Option.bind_eq_some_iff.1 h
  exact Raw.toJson?_bounded hraw

theorem read?_members_bounded {text : String} {members : List (String × Json)}
    (h : read? text = some (.object members)) : ∀ m ∈ members, m.2.Bounded := by
  cases read?_bounded h with
  | object inner => exact inner

end Criteria.Json
