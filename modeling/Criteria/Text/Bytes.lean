/-! # Byte offsets into text

Offsets count the bytes of the UTF-8 form of a text, while the text itself is handled as a list
of characters. A cut at an offset keeps the characters that start before it, and the two parts
of a cut make up the text again. A slice has to be cut out at boundaries (`IsBoundary`), which are
the offsets that lie inside of no character.
-/

set_option autoImplicit false

namespace Criteria.Text

/-- The number of bytes of the UTF-8 form of a text. -/
def utf8Length : List Char → Nat
  | [] => 0
  | c :: cs => c.utf8Size + utf8Length cs

@[simp] theorem utf8Length_nil : utf8Length [] = 0 := rfl

@[simp] theorem utf8Length_cons (c : Char) (cs : List Char) :
    utf8Length (c :: cs) = c.utf8Size + utf8Length cs := rfl

@[simp] theorem utf8Length_append (cs ds : List Char) :
    utf8Length (cs ++ ds) = utf8Length cs + utf8Length ds := by
  induction cs with
  | nil => simp
  | cons c cs ih => simp [ih, Nat.add_assoc]

/-- The characters that start before the byte offset. -/
def takeBytes : Nat → List Char → List Char
  | 0, _ => []
  | _ + 1, [] => []
  | n + 1, c :: cs => c :: takeBytes (n + 1 - c.utf8Size) cs

/-- The characters that start at the byte offset or behind it. -/
def dropBytes : Nat → List Char → List Char
  | 0, cs => cs
  | _ + 1, [] => []
  | n + 1, c :: cs => dropBytes (n + 1 - c.utf8Size) cs

theorem takeBytes_append_dropBytes (n : Nat) (cs : List Char) :
    takeBytes n cs ++ dropBytes n cs = cs := by
  induction cs generalizing n with
  | nil => cases n <;> rfl
  | cons c cs ih => cases n <;> simp [takeBytes, dropBytes, ih]

theorem takeBytes_utf8Length (cs ds : List Char) : takeBytes (utf8Length cs) (cs ++ ds) = cs := by
  induction cs with
  | nil => cases ds <;> rfl
  | cons c cs ih =>
    have hc : 0 < c.utf8Size := c.utf8Size_pos
    have hn : utf8Length (c :: cs) = (c.utf8Size + utf8Length cs - 1) + 1 := by simp; omega
    have hsub : (c.utf8Size + utf8Length cs - 1) + 1 - c.utf8Size = utf8Length cs := by omega
    rw [hn, List.cons_append, takeBytes, hsub, ih]

theorem dropBytes_utf8Length (cs ds : List Char) : dropBytes (utf8Length cs) (cs ++ ds) = ds := by
  have h := takeBytes_append_dropBytes (utf8Length cs) (cs ++ ds)
  rw [takeBytes_utf8Length] at h
  exact List.append_cancel_left h

/-- A text has no more characters than bytes. -/
theorem length_takeBytes_le (n : Nat) (cs : List Char) : (takeBytes n cs).length ≤ n := by
  induction cs generalizing n with
  | nil => cases n <;> simp [takeBytes]
  | cons c cs ih =>
    cases n with
    | zero => exact Nat.le_refl 0
    | succ n =>
      have hc : 0 < c.utf8Size := c.utf8Size_pos
      have hrest := ih (n + 1 - c.utf8Size)
      rw [takeBytes, List.length_cons]
      omega

/-! ## Boundaries -/

/-- An offset at which a text may be cut: in front of a character or at the end. -/
def IsBoundary (cs : List Char) (offset : Nat) : Prop :=
  ∃ front back, cs = front ++ back ∧ offset = utf8Length front

namespace IsBoundary

variable {cs : List Char} {offset : Nat}

theorem append (front back : List Char) : IsBoundary (front ++ back) (utf8Length front) :=
  ⟨front, back, rfl, rfl⟩

theorem length (cs : List Char) : IsBoundary cs (utf8Length cs) :=
  ⟨cs, [], (List.append_nil cs).symm, rfl⟩

theorem le (h : IsBoundary cs offset) : offset ≤ utf8Length cs := by
  obtain ⟨front, back, rfl, rfl⟩ := h
  rw [utf8Length_append]
  exact Nat.le_add_right _ _

/-- A boundary is where the characters that start before it end. -/
theorem iff_takeBytes : IsBoundary cs offset ↔ utf8Length (takeBytes offset cs) = offset := by
  constructor
  · rintro ⟨front, back, rfl, rfl⟩
    rw [takeBytes_utf8Length]
  · intro h
    exact ⟨_, _, (takeBytes_append_dropBytes offset cs).symm, h.symm⟩

end IsBoundary

instance (cs : List Char) (offset : Nat) : Decidable (IsBoundary cs offset) :=
  decidable_of_decidable_of_iff IsBoundary.iff_takeBytes.symm

/-! ## Slices -/

/-- The characters between two byte offsets; none when the offsets are out of order or one of them
is no boundary. -/
def slice (start stop : Nat) (cs : List Char) : List Char :=
  if start ≤ stop ∧ IsBoundary cs start ∧ IsBoundary cs stop then
    takeBytes (stop - start) (dropBytes start cs)
  else []

theorem slice_append (front text back : List Char) :
    slice (utf8Length front) (utf8Length (front ++ text)) (front ++ text ++ back) = text := by
  have hwidth : utf8Length (front ++ text) - utf8Length front = utf8Length text := by
    rw [utf8Length_append, Nat.add_sub_cancel_left]
  have hle : utf8Length front ≤ utf8Length (front ++ text) := by
    rw [utf8Length_append]
    exact Nat.le_add_right _ _
  have hstart : IsBoundary (front ++ text ++ back) (utf8Length front) := by
    rw [List.append_assoc]
    exact .append _ _
  rw [slice, if_pos ⟨hle, hstart, .append _ _⟩, hwidth, List.append_assoc, dropBytes_utf8Length,
    takeBytes_utf8Length]

theorem length_slice_le (start stop : Nat) (cs : List Char) :
    (slice start stop cs).length ≤ stop - start := by
  unfold slice
  split
  · exact length_takeBytes_le _ _
  · exact Nat.zero_le _

end Criteria.Text
