/-! # Characters in and out

What all readers and printers of texts share: the blanks they skip, what a reader leaves behind,
numbers padded with zeros, and text between quotes.
-/

set_option autoImplicit false

namespace Criteria

/-! ## Leftovers

A reader takes a list of characters or tokens from the front and leaves a shorter list. The
leftover carries the proof that it is shorter, so a loop over a reader ends because the length of
its input goes down. -/

/-- What is left of `s` after at least one element has been taken from its front. -/
abbrev Rest {α : Type} (s : List α) : Type := { r : List α // r.length < s.length }

namespace Rest

variable {α : Type} {s : List α}

/-- Taking from a leftover leaves less of the whole. -/
def trans (r : Rest s) (q : Rest r.val) : Rest s := ⟨q.val, Nat.lt_trans q.property r.property⟩

/-- The leftover once its first element is taken as well. -/
def behind {x : α} {r : List α} (h : (x :: r).length < s.length) : Rest s :=
  ⟨r, Nat.lt_trans (Nat.lt_succ_self r.length) h⟩

/-- What follows the first element. -/
def tail (x : α) (r : List α) : Rest (x :: r) := ⟨r, Nat.lt_succ_self r.length⟩

end Rest

namespace Text

/-! ## White space -/

/-- Space, tab, carriage return and line feed: the blanks between tokens. -/
def isBlank (c : Char) : Bool := c = ' ' || c = '\t' || c = '\r' || c = '\n'

/-- The characters with the Unicode property `White_Space`, which are skipped in front of the
numbers of a date. -/
def isWhiteSpace (c : Char) : Bool :=
  let n := c.toNat
  (9 ≤ n && n ≤ 13) || n = 0x20 || n = 0x85 || n = 0xA0 || n = 0x1680 ||
    (0x2000 ≤ n && n ≤ 0x200A) || n = 0x2028 || n = 0x2029 || n = 0x202F || n = 0x205F ||
    n = 0x3000

/-- What holds of all blanks holds of the four. -/
theorem forall_isBlank {P : Char → Prop} :
    (∀ c, isBlank c = true → P c) ↔ P ' ' ∧ P '\t' ∧ P '\r' ∧ P '\n' := by
  simp [isBlank, or_imp, forall_and, and_assoc]

/-- The text without its leading blanks. -/
def skipBlanks (cs : List Char) : List Char := cs.dropWhile isBlank

theorem length_skipBlanks_le (cs : List Char) : (skipBlanks cs).length ≤ cs.length :=
  (List.dropWhile_sublist isBlank).length_le

/-! ## Padding -/

/-- `text` with `fill` in front of it up to `width` characters. -/
def padLeft (fill : Char) (width : Nat) (text : List Char) : List Char :=
  List.replicate (width - text.length) fill ++ text

/-- `n` in decimal with at least `width` digits. -/
def padded (width n : Nat) : List Char := padLeft '0' width (Nat.toDigits 10 n)

theorem length_padLeft (fill : Char) (width : Nat) (text : List Char) :
    (padLeft fill width text).length = max width text.length := by
  simp [padLeft]; omega

/-! ## Quotes

Quotes, backslashes and the three blanks other than space are escaped between double quotes; every
other character stands for itself. -/

/-- How one character is written between quotes. -/
def escaped : Char → List Char
  | '"' => ['\\', '"']
  | '\\' => ['\\', '\\']
  | '\n' => ['\\', 'n']
  | '\r' => ['\\', 'r']
  | '\t' => ['\\', 't']
  | c => [c]

/-- The text between double quotes. -/
def quoted (text : String) : String :=
  String.ofList ('"' :: text.toList.flatMap escaped ++ ['"'])

end Text

end Criteria
