import Criteria.Number.Numeral
import Criteria.Text.Basic

/-! # The form of JSON documents

A document is first read for its form alone: brackets, separators, literals and the shape of
numbers and strings. What a string or number stands for is decided where it is used, since a
part that nobody uses may hold a number out of range or half a surrogate pair.
-/

set_option autoImplicit false

namespace Criteria.Json

open Number Text

/-- The form of a JSON value. Objects hold their members in order, repeated names included. A
string is absent when its escapes do not make up text. -/
inductive Raw where
  | null
  | boolean (b : Bool)
  | number (n : Numeral)
  | string (s : Option String)
  | array (items : List Raw)
  | object (members : List (Option String × Raw))

/-- A unit of a string: a character, or a number written as an escape. -/
inductive StringUnit where
  | char (c : Char)
  | escape (n : Nat)

/-- The number of four hexadecimal digits. -/
def hexValue? (cs : List Char) : Option Nat :=
  cs.foldl (fun acc c => do
    let n ← acc
    let digit ←
      if c.isDigit then some (c.toNat - '0'.toNat)
      else if 'a' ≤ c ∧ c ≤ 'f' then some (c.toNat - 'a'.toNat + 10)
      else if 'A' ≤ c ∧ c ≤ 'F' then some (c.toNat - 'A'.toNat + 10)
      else none
    pure (16 * n + digit)) (some 0)

/-- The character of an escape of one letter. -/
def unescape? : Char → Option Char
  | '"' => some '"'
  | '\\' => some '\\'
  | '/' => some '/'
  | 'b' => some '\x08'
  | 'f' => some '\x0c'
  | 'n' => some '\n'
  | 'r' => some '\r'
  | 't' => some '\t'
  | _ => none

/-- The units of a string behind its opening quote, and what follows its closing quote. Control
characters have to be escaped. -/
def stringUnits? : (cs : List Char) → Option (List StringUnit × Rest cs)
  | [] => none
  | '"' :: r => some ([], .tail _ r)
  | '\\' :: 'u' :: a :: b :: c :: d :: r => do
    let n ← hexValue? [a, b, c, d]
    let (units, ⟨rest, h⟩) ← stringUnits? r
    some (.escape n :: units, ⟨rest, by simp only [List.length_cons]; omega⟩)
  | '\\' :: c :: r => do
    let c ← unescape? c
    let (units, ⟨rest, h⟩) ← stringUnits? r
    some (.char c :: units, ⟨rest, by simp only [List.length_cons]; omega⟩)
  | c :: r =>
    if c.toNat < 0x20 then none
    else do
      let (units, ⟨rest, h⟩) ← stringUnits? r
      some (.char c :: units, ⟨rest, by simp only [List.length_cons]; omega⟩)

/-- The text of string units: escapes are units of UTF-16, and halves of a surrogate pair have
to come in pairs. -/
def textOfUnits? : List StringUnit → Option (List Char)
  | [] => some []
  | .char c :: units => (textOfUnits? units).map (c :: ·)
  | .escape high :: .escape low :: units =>
    if 0xD800 ≤ high ∧ high < 0xDC00 then
      if 0xDC00 ≤ low ∧ low < 0xE000 then
        (textOfUnits? units).map
          (Char.ofNat (0x10000 + (high - 0xD800) * 0x400 + (low - 0xDC00)) :: ·)
      else none
    else if 0xDC00 ≤ high ∧ high < 0xE000 then none
    else (textOfUnits? (.escape low :: units)).map (Char.ofNat high :: ·)
  | .escape n :: units =>
    if 0xD800 ≤ n ∧ n < 0xE000 then none
    else (textOfUnits? units).map (Char.ofNat n :: ·)

/-- A string behind its opening quote. -/
def string? (cs : List Char) : Option (Option String × Rest cs) :=
  (stringUnits? cs).map fun (units, rest) => ((textOfUnits? units).map String.ofList, rest)

/-- Whether the digits in front of the point start with a superfluous zero. -/
def hasLeadingZero : List Char → Bool
  | '0' :: _ :: _ => true
  | _ => false

/-- A number: a numeral without superfluous zeros. -/
def number? (cs : List Char) : Option (Numeral × Rest cs) :=
  match h : Numeral.span? cs with
  | none => none
  | some (n, _, rest) =>
    if hasLeadingZero n.whole then none else some (n, ⟨rest, Numeral.span?_length_lt h⟩)

/-- The rest behind `word`, if the text starts with it. -/
def afterWord? (word cs : List Char) : Option { r : List Char // r.length ≤ cs.length } :=
  if word.isPrefixOf cs then
    some ⟨cs.drop word.length, by simp only [List.length_drop]; omega⟩
  else none

/-- Blanks skipped in front of what follows. -/
def skip (cs : List Char) : { r : List Char // r.length ≤ cs.length } :=
  ⟨skipBlanks cs, length_skipBlanks_le cs⟩

/-- What follows the character, if it stands next behind blanks. -/
def after? (c : Char) (cs : List Char) : Option (Rest cs) :=
  match skip cs with
  | ⟨[], _⟩ => none
  | ⟨d :: r, h⟩ =>
    if d = c then some ⟨r, by simp only [List.length_cons] at h; omega⟩ else none

mutual

/-- A value, blanks in front of it skipped. -/
def Raw.value? (cs : List Char) : Option (Raw × Rest cs) :=
  match skip cs with
  | ⟨[], _⟩ => none
  | ⟨c :: r, h⟩ =>
    match c with
    | '"' => do
      let (s, ⟨rest, hr⟩) ← string? r
      some (.string s, ⟨rest, by simp only [List.length_cons] at h; omega⟩)
    | '[' =>
      match after? ']' r with
      | some ⟨rest, hr⟩ =>
        some (.array [], ⟨rest, by simp only [List.length_cons] at h; omega⟩)
      | none => do
        let (items, ⟨rest, hr⟩) ← Raw.items? r
        some (.array items, ⟨rest, by simp only [List.length_cons] at h; omega⟩)
    | '\x7b' =>
      match after? '\x7d' r with
      | some ⟨rest, hr⟩ =>
        some (.object [], ⟨rest, by simp only [List.length_cons] at h; omega⟩)
      | none => do
        let (members, ⟨rest, hr⟩) ← Raw.members? r
        some (.object members, ⟨rest, by simp only [List.length_cons] at h; omega⟩)
    | 't' => do
      let ⟨rest, hr⟩ ← afterWord? ['r', 'u', 'e'] r
      some (.boolean true, ⟨rest, by simp only [List.length_cons] at h; omega⟩)
    | 'f' => do
      let ⟨rest, hr⟩ ← afterWord? ['a', 'l', 's', 'e'] r
      some (.boolean false, ⟨rest, by simp only [List.length_cons] at h; omega⟩)
    | 'n' => do
      let ⟨rest, hr⟩ ← afterWord? ['u', 'l', 'l'] r
      some (.null, ⟨rest, by simp only [List.length_cons] at h; omega⟩)
    | c => do
      let (n, ⟨rest, hr⟩) ← number? (c :: r)
      some (.number n, ⟨rest, by simp only [List.length_cons] at h hr; omega⟩)
termination_by (cs.length, 0)
decreasing_by
  all_goals simp only [List.length_cons] at h
  all_goals exact Prod.Lex.left _ _ (by omega)

/-- The items of an array from one of them to the closing bracket. -/
def Raw.items? (cs : List Char) : Option (List Raw × Rest cs) := do
  let (item, ⟨r, h⟩) ← Raw.value? cs
  match after? ',' r with
  | some ⟨behind, hb⟩ =>
    let (items, ⟨rest, hr⟩) ← Raw.items? behind
    some (item :: items, ⟨rest, by omega⟩)
  | none =>
    let ⟨rest, hr⟩ ← after? ']' r
    some ([item], ⟨rest, by omega⟩)
termination_by (cs.length, 1)
decreasing_by
  · exact Prod.Lex.right _ (by decide)
  · exact Prod.Lex.left _ _ (by omega)

/-- The members of an object from one of them to the closing bracket. -/
def Raw.members? (cs : List Char) : Option (List (Option String × Raw) × Rest cs) := do
  let ⟨r, h⟩ ← after? '"' cs
  let (name, ⟨afterName, hn⟩) ← string? r
  let ⟨afterColon, hc⟩ ← after? ':' afterName
  let (value, ⟨afterValue, hv⟩) ← Raw.value? afterColon
  match after? ',' afterValue with
  | some ⟨behind, hb⟩ =>
    let (members, ⟨rest, hr⟩) ← Raw.members? behind
    some ((name, value) :: members, ⟨rest, by omega⟩)
  | none =>
    let ⟨rest, hr⟩ ← after? '\x7d' afterValue
    some ([(name, value)], ⟨rest, by omega⟩)
termination_by (cs.length, 1)
decreasing_by
  · exact Prod.Lex.left _ _ (by omega)
  · exact Prod.Lex.left _ _ (by omega)

end

/-- The document that a text holds, with nothing but blanks around it. -/
def Raw.read? (text : String) : Option Raw := do
  let (raw, ⟨rest, _⟩) ← Raw.value? text.toList
  if (skipBlanks rest).isEmpty then some raw else none

end Criteria.Json
