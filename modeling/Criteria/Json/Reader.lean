import Criteria.Json.Basic
import Criteria.Json.Raw

/-! # Reading JSON values

A document whose form has been read becomes a value: at most 127 brackets may be nested, strings
have to be text, and numbers have to be finite. A repeated name in an object keeps its first
place and takes the last value.

A number without fraction and exponent that fits 64 bits, signed or not, is an integer; minus
zero is not. Any other number is binary: its leading digits, as far as they stay below `2 ^ 64`,
are scaled by powers of ten that are themselves binary numbers, so the result may be a neighbour
of the number nearest to the text.
-/

set_option autoImplicit false

namespace Criteria.Json

open Number

-- Powers are those of the core library, whatever else is loaded beside it.
attribute [local instance (2000)] instPowNat

/-- The number that leading digits make up while it stays below `2 ^ 64`, and how many digits
had to be left out. -/
def gather : Nat → List Char → Nat × Nat
  | n, [] => (n, 0)
  | n, c :: cs =>
    let next := 10 * n + (c.toNat - '0'.toNat)
    if next < 2 ^ (64 : Nat) then gather next cs else (n, cs.length + 1)

/-- The power of ten as a binary number. -/
def powerOfTen (n : Nat) : Double := .ofRatio .double false (10 ^ n) 1

/-- A binary number divided by `10 ^ n` in steps of at most 308 powers of ten. -/
def scaleDown (x : Double) (n : Nat) : Double :=
  if n ≤ 308 then x.div (powerOfTen n)
  else if x.isZero then x
  else scaleDown (x.div (powerOfTen 308)) (n - 308)
termination_by n

/-- A binary number times `10 ^ exponent`, if it is finite. -/
def scale? (x : Double) (exponent : Int) : Option Double :=
  if exponent < 0 then some (scaleDown x (-exponent).toNat)
  else if exponent ≤ 308 then
    let product := x.mul (powerOfTen exponent.toNat)
    if product.isFinite then some product else none
  else if x.isZero then some x
  else none

/-- The binary number of a numeral, if it is finite. -/
def real? (n : Numeral) : Option Double := do
  let (whole, left) := gather 0 n.whole
  let places := n.fraction.getD []
  let (significand, unused) := gather whole places
  let exponent := n.exponent.getD 0 + left - (places.length - unused : Nat)
  let magnitude ← scale? (.ofRatio .double false significand 1) exponent
  some (if n.negative then magnitude.neg else magnitude)

/-- The number of a numeral, if it is in range. -/
def numeric? (n : Numeral) : Option Numeric :=
  let value := n.toInt
  if n.isInteger ∧ -(2 ^ (63 : Nat)) ≤ value ∧ value < 2 ^ (64 : Nat) ∧
      ¬(n.negative ∧ value = 0) then
    some (.integer value)
  else (real? n).map .double

mutual

/-- The value of a form in which at most `depth` brackets are nested. -/
def Raw.toJson? (depth : Nat) : Raw → Option Json
  | .null => some .null
  | .boolean b => some (.boolean b)
  | .number n => (numeric? n).map .number
  | .string s => s.map .string
  | .array items =>
    if depth = 0 then none else (Raw.itemsToJson? (depth - 1) items).map .array
  | .object members =>
    if depth = 0 then none else (Raw.membersToJson? (depth - 1) [] members).map .object

/-- The values of the items of an array. -/
def Raw.itemsToJson? (depth : Nat) : List Raw → Option (List Json)
  | [] => some []
  | item :: items => do
    let value ← Raw.toJson? depth item
    let values ← Raw.itemsToJson? depth items
    some (value :: values)

/-- The members of an object, set one after the other. -/
def Raw.membersToJson? (depth : Nat) (done : List (String × Json)) :
    List (Option String × Raw) → Option (List (String × Json))
  | [] => some done
  | (name, raw) :: members => do
    let name ← name
    let value ← Raw.toJson? depth raw
    Raw.membersToJson? depth (setMember done name value) members

end

/-- The deepest nesting of brackets in a document that is read. -/
def maxNesting : Nat := 127

/-- The value that a text holds. -/
def read? (text : String) : Option Json := do
  let raw ← Raw.read? text
  raw.toJson? maxNesting

end Criteria.Json
