import Criteria.Json.Reader

/-! # Records in JSON

A record with named fields is written as an object, or as an array of its fields in the order of
their declaration. In an object no field may be given twice; names that are not declared are
passed over or refused. In an array trailing fields may be left out. What a missing field means
is up to the reader of the record.
-/

set_option autoImplicit false

namespace Criteria.Json

/-- What to do with a member whose name is not declared. -/
inductive Undeclared where
  | ignored
  | refused
  deriving DecidableEq

/-- The fields of a record that are present, by name. -/
abbrev Fields : Type := List (String × Raw)

/-- The declared fields among the members of an object. -/
def fieldsOfMembers? (names : List String) (undeclared : Undeclared) :
    Fields → List (Option String × Raw) → Option Fields
  | fields, [] => some fields
  | _, (none, _) :: _ => none
  | fields, (some name, value) :: members =>
    if name ∈ names then
      if fields.any (·.1 = name) then none
      else fieldsOfMembers? names undeclared (fields ++ [(name, value)]) members
    else if undeclared = .ignored then fieldsOfMembers? names undeclared fields members
    else none

namespace Raw

/-- The fields of a record. -/
def fields? (names : List String) (undeclared : Undeclared) : Raw → Option Fields
  | object members => fieldsOfMembers? names undeclared [] members
  | array items => if items.length ≤ names.length then some (names.zip items) else none
  | _ => none

/-- A string. -/
def text? : Raw → Option String
  | string s => s
  | _ => none

/-- A truth value. -/
def flag? : Raw → Option Bool
  | boolean b => some b
  | _ => none

/-- A whole number of at most 64 bits. -/
def count? : Raw → Option Nat
  | number n => match numeric? n with
    | some (.integer value) => if 0 ≤ value then some value.toNat else none
    | _ => none
  | _ => none

/-- A list whose items all read. -/
def list? {α : Type} (item? : Raw → Option α) : Raw → Option (List α)
  | array items => items.mapM item?
  | _ => none

/-- One of several names, each written as a string or as an object with the name and `null`. -/
def choice? {α : Type} (named? : String → Option α) : Raw → Option α
  | string (some name) => named? name
  | object [(some name, null)] => named? name
  | _ => none

end Raw

/-- A field that has to be present. -/
def Fields.required? {α : Type} (fields : Fields) (name : String) (read? : Raw → Option α) :
    Option α := do
  let value ← fields.lookup name
  read? value

/-- A field that stands for `default` when it is left out. -/
def Fields.optional? {α : Type} (fields : Fields) (name : String) (default : α)
    (read? : Raw → Option α) : Option α :=
  match fields.lookup name with
  | none => some default
  | some value => read? value

end Criteria.Json
