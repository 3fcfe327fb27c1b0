import Criteria.Number.Binary

/-! # JSON values

Values of a JSON document. Objects keep their members in order.
-/

set_option autoImplicit false

namespace Criteria

open Number

namespace Json

/-- A number of a document: an integer, or a binary number of 32 or 64 bits. -/
inductive Numeric where
  | integer (n : Int)
  | single (x : Single)
  | double (x : Double)
  deriving DecidableEq

end Json

/-- A JSON value. -/
inductive Json where
  | null
  | boolean (b : Bool)
  | number (n : Json.Numeric)
  | string (s : String)
  | array (items : List Json)
  | object (members : List (String × Json))

namespace Json

/-- The members with `name` set: a repeated name keeps its first place and takes the new
value. -/
def setMember (members : List (String × Json)) (name : String) (value : Json) :
    List (String × Json) :=
  if members.any (·.1 = name) then members.map fun m => if m.1 = name then (name, value) else m
  else members ++ [(name, value)]

/-- Whether the value is an empty array or an empty object. -/
def isEmptyNode : Json → Bool
  | array items => items.isEmpty
  | object members => members.isEmpty
  | _ => false

/-- An integer value. -/
def ofInt (n : Int) : Json := number (.integer n)

/-- A whole number as a value. -/
def ofNat (n : Nat) : Json := number (.integer n)

/-- A value, or `null` in place of nothing. -/
def ofOption (value : Option Json) : Json := value.getD null

/-- A finite number of 32 bits; others are `null`. -/
def ofSingle (x : Single) : Json := if x.isFinite then number (.single x) else null

/-- A finite number of 64 bits; others are `null`. -/
def ofDouble (x : Double) : Json := if x.isFinite then number (.double x) else null

end Json

end Criteria
