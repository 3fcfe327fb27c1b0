import Criteria.Report.Position

/-! # Excerpts of a source

The part of a source that an error shows, where it starts, and which of its characters are
underlined.
-/

set_option autoImplicit false

namespace Criteria

open Text

/-- A part of a source: the line and column of the error, counted from one, the text shown, and
the underlined characters, from the first to behind the last. -/
structure Excerpt where
  line : Nat
  column : Nat
  text : String
  underline : Nat × Nat
  deriving DecidableEq

namespace Excerpt

/-- Where `width` bytes from an offset end, which is at the end of the source at the latest. Offsets
are words of 64 bits, as is the length of any source that there can be, so a sum beyond them starts
at zero again. -/
def reach (source : List Char) (offset width : Nat) : Nat :=
  let sum := offset + width
  min (if utf8Length source < UInt64.size then sum % UInt64.size else sum) (utf8Length source)

/-- How many characters are marked over `width` bytes from an offset: those that they hold, and one
where they hold none or do not end with a character. -/
def marked (source : List Char) (offset width : Nat) : Nat :=
  max 1 (slice offset (reach source offset width) source).length

theorem reach_of_le {source : List Char} {offset width : Nat}
    (h : offset + width ≤ utf8Length source) : reach source offset width = offset + width := by
  unfold reach
  dsimp only
  split
  · rename_i hlength
    rw [Nat.mod_eq_of_lt (Nat.lt_of_le_of_lt h hlength), Nat.min_eq_left h]
  · exact Nat.min_eq_left h

theorem reach_le (source : List Char) (offset width : Nat) :
    reach source offset width ≤ offset + width := by
  unfold reach
  dsimp only
  split
  · exact Nat.le_trans (Nat.min_le_left _ _) (Nat.mod_le _ _)
  · exact Nat.min_le_left _ _

/-- A part of a source is marked as it is. -/
theorem marked_append (front text back : List Char) :
    marked (front ++ text ++ back) (utf8Length front) (utf8Length text) = max 1 text.length := by
  have hend : utf8Length front + utf8Length text ≤ utf8Length (front ++ text ++ back) := by
    rw [utf8Length_append, utf8Length_append]
    exact Nat.le_add_right _ _
  rw [marked, reach_of_le hend, ← utf8Length_append, slice_append]

/-- Over a single byte, a single character is marked. -/
theorem marked_one (source : List Char) (offset : Nat) : marked source offset 1 = 1 := by
  have hslice := length_slice_le offset (reach source offset 1) source
  have hreach := reach_le source offset 1
  unfold marked
  omega

/-- The line around a byte offset, with the characters of `width` bytes underlined, at least
one. -/
def ofPoint (source : List Char) (offset width : Nat) : Excerpt :=
  let p := Position.ofOffset source offset
  ⟨p.line + 1, p.column + 1, String.ofList (lineAt source offset),
    (p.column, p.column + marked source offset width)⟩

/-- The second byte lies inside of the second character, so none but the first is underlined. -/
example : (ofPoint ['a', 'é'] 0 2).underline = (0, 1) := by decide

/-- Exactly the text between two byte offsets, all of it underlined. -/
def ofRange (source : List Char) (start stop : Nat) : Excerpt :=
  let p := Position.ofOffset source start
  let shown := slice start stop source
  ⟨p.line + 1, p.column + 1, String.ofList shown, (0, shown.length)⟩

/-- The JSON form of an excerpt. -/
def toJson (e : Excerpt) : Json :=
  .object [("line", .ofNat e.line), ("column", .ofNat e.column), ("excerpt", .string e.text),
    ("underline", .array [.ofNat e.underline.1, .ofNat e.underline.2])]

end Excerpt

end Criteria
