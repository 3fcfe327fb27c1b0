import Mathlib

/-! # Texts in parts

What stands at the front of a text that is cut, or goes on, and what texts with separators between
them are.
-/

set_option autoImplicit false

namespace Criteria.Text

/-! ## The front of a text -/

/-- A run of characters of a sort ends in front of a character that is not of the sort. -/
theorem takeWhile_append_stop {p : Char → Bool} {run rest : List Char}
    (hrun : ∀ c ∈ run, p c = true) (hrest : ∀ c ∈ rest.head?, p c = false) :
    (run ++ rest).takeWhile p = run := by
  rw [List.takeWhile_append_of_pos hrun]
  cases rest with
  | nil => simp
  | cons c r => simp [hrest c rfl]

theorem dropWhile_append_stop {p : Char → Bool} {run rest : List Char}
    (hrun : ∀ c ∈ run, p c = true) (hrest : ∀ c ∈ rest.head?, p c = false) :
    (run ++ rest).dropWhile p = rest := by
  rw [List.dropWhile_append_of_pos hrun]
  cases rest with
  | nil => rfl
  | cons c r => simp [hrest c rfl]

/-- A run ends where a character of another sort stands, or the text ends. -/
theorem of_takeWhile {p : Char → Bool} {cs run rest : List Char} (hrun : cs.takeWhile p = run)
    (hrest : cs.dropWhile p = rest) :
    (∀ c ∈ run, p c = true) ∧ ∀ c ∈ rest.head?, p c = false := by
  constructor
  · intro c hc
    rw [← hrun] at hc
    exact List.mem_takeWhile_imp hc
  · intro c hc
    have hhead := List.head?_dropWhile_not p cs
    rw [hrest, hc] at hhead
    exact hhead

/-- What holds of the first character of a text holds if the text ends earlier. -/
theorem forall_head?_of_append {P : Char → Prop} {rest back : List Char}
    (h : ∀ c ∈ (rest ++ back).head?, P c) : ∀ c ∈ rest.head?, P c := by
  cases rest with
  | nil =>
    intro c hc
    cases hc
  | cons d rest => exact h

/-- What holds of the first character of a text, and of a character behind the text, holds of the
first one if the text goes on with that character. -/
theorem forall_head?_followed {P : Char → Prop} {rest : List Char} (h : ∀ c ∈ rest.head?, P c)
    {d : Char} (hd : P d) (back : List Char) : ∀ c ∈ (rest ++ d :: back).head?, P c := by
  cases rest with
  | nil =>
    rintro _ ⟨⟩
    exact hd
  | cons c rest => exact h

/-! ## Separators -/

theorem toList_intercalate_cons (separator first : String) (others : List String) :
    (separator.intercalate (first :: others)).toList =
      first.toList ++ others.flatMap fun s => separator.toList ++ s.toList := by
  induction others generalizing first with
  | nil => simp
  | cons second others ih =>
    rw [String.intercalate_cons_cons, String.toList_append, String.toList_append, ih]
    simp

theorem toList_intercalate_map {β : Type} (separator : String) (text : β → String) (first : β)
    (others : List β) :
    (separator.intercalate ((first :: others).map text)).toList =
      (text first).toList ++ others.flatMap fun x => separator.toList ++ (text x).toList := by
  rw [List.map_cons, toList_intercalate_cons, List.flatMap_map]

end Criteria.Text
