import Criteria.Proofs.Json.Texts

/-! # Documents around one number

A document of objects of one member, one inside the other, around a number is read with the number
that its numeral stands for (`read?_nestText`).
-/

set_option autoImplicit false

namespace Criteria.Json

open Number Text

/-- The text of an object of one member. -/
def memberText (name : String) (inner : List Char) : List Char :=
  '\x7b' :: '"' :: (name.toList.flatMap escaped ++ '"' :: ':' :: (inner ++ ['\x7d']))

/-- The text of objects of one member, one inside the other, around a number. -/
def nestText (names : List String) (number : List Char) : List Char := names.foldr memberText number

/-- Objects of one member, one inside the other, around a value. -/
def nest (names : List String) (value : Json) : Json :=
  names.foldr (fun name inner => .object [(name, inner)]) value

/-- The form of objects of one member, one inside the other, around a number. -/
def nestRaw (names : List String) (n : Numeral) : Raw :=
  names.foldr (fun name inner => .object [(some name, inner)]) (.number n)

theorem ReadsAs.memberText {inner : List Char} {raw : Raw} (h : ReadsAs inner raw)
    (name : String) : ReadsAs (memberText name inner) (.object [(some name, raw)]) := by
  have hobject := ReadsAs.object blanks_nil blanks_nil
    (.cons (IsMember.mk blanks_nil h : IsMember _ (some name, raw)) .nil)
  simpa [bracketed, toList_stringText, Json.memberText] using hobject

theorem IsNumber.readsAs_nestText {number : List Char} {n : Numeral} (h : IsNumber number n)
    (names : List String) : ReadsAs (nestText names number) (nestRaw names n) := by
  induction names with
  | nil => exact h.readsAs
  | cons name names ih => exact ih.memberText name

theorem toJson?_nestRaw (n : Numeral) {names : List String} {depth : Nat}
    (h : names.length ≤ depth) :
    (nestRaw names n).toJson? depth = (numeric? n).map fun value => nest names (.number value) := by
  induction names generalizing depth with
  | nil => rfl
  | cons name names ih =>
    rw [List.length_cons] at h
    have hdepth : depth ≠ 0 := by omega
    show (Raw.object [(some name, nestRaw names n)]).toJson? depth = _
    rw [Raw.toJson?, if_neg hdepth, Raw.membersToJson?]
    simp only [Option.bind_eq_bind, Option.bind_some, ih (by omega : names.length ≤ depth - 1)]
    cases numeric? n <;> rfl

/-- A document of objects of one member around a number is read with the number of its numeral. -/
theorem read?_nestText {number : List Char} {n : Numeral} (h : IsNumber number n)
    {names : List String} (hlength : names.length ≤ maxNesting) :
    read? (String.ofList (nestText names number)) =
      (numeric? n).map fun value => nest names (.number value) := by
  have hraw : Raw.read? (String.ofList (nestText names number)) = some (nestRaw names n) :=
    ReadsAs.read? (by simpa using h.readsAs_nestText names)
  rw [read?, hraw]
  exact toJson?_nestRaw n hlength

end Criteria.Json
