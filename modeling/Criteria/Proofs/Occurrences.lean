import Mathlib

/-! # First occurrences

The elements of a list whose key nothing in front of them has (`firsts`), and all others
(`repeats`). Both keep their order, and together they are as many as there are elements. What holds
of them is shown from the back of the list: its last element goes to the one or to the other
(`firsts_append_singleton`, `repeats_append_singleton`).
-/

set_option autoImplicit false

namespace Criteria

variable {α κ : Type}

/-- The elements of which `p` holds behind what stands in front of them. -/
def thoseBehind (p : List α → α → Bool) (xs : List α) : List α :=
  (xs.zipIdx.filter fun (x, i) => p (xs.take i) x).map Prod.fst

theorem thoseBehind_append_singleton (p : List α → α → Bool) (xs : List α) (x : α) :
    thoseBehind p (xs ++ [x]) = thoseBehind p xs ++ if p xs x then [x] else [] := by
  -- Nothing changes in front of the elements that are there.
  have hfront : (xs.zipIdx.filter fun (y, i) => p ((xs ++ [x]).take i) y) =
      xs.zipIdx.filter fun (y, i) => p (xs.take i) y := by
    refine List.filter_congr ?_
    rintro ⟨y, i⟩ hy
    have hi := (List.mem_zipIdx hy).2.1
    dsimp only
    rw [List.take_append_of_le_length (by omega)]
  rw [thoseBehind, List.zipIdx_append, List.filter_append, List.map_append, hfront]
  congr 1
  by_cases hx : p xs x = true <;> simp [hx]

theorem thoseBehind_sublist (p : List α → α → Bool) (xs : List α) :
    (thoseBehind p xs).Sublist xs := by
  have h : (thoseBehind p xs).Sublist (xs.zipIdx.map Prod.fst) :=
    List.filter_sublist.map Prod.fst
  rwa [List.zipIdx_map_fst] at h

variable [DecidableEq κ] (key : α → κ)

/-- The elements whose key nothing in front of them has. -/
def firsts (xs : List α) : List α := thoseBehind (fun front x => key x ∉ front.map key) xs

/-- The elements whose key something in front of them has. -/
def repeats (xs : List α) : List α := thoseBehind (fun front x => key x ∈ front.map key) xs

variable {key} {xs ys : List α}

theorem firsts_append_singleton (xs : List α) (x : α) :
    firsts key (xs ++ [x]) =
      if key x ∈ xs.map key then firsts key xs else firsts key xs ++ [x] := by
  rw [firsts, thoseBehind_append_singleton, ← firsts]
  by_cases hx : key x ∈ xs.map key
  · simp only [hx, not_true_eq_false, decide_false, Bool.false_eq_true, if_false, if_true,
      List.append_nil]
  · simp only [hx, not_false_eq_true, decide_true, if_true, if_false]

theorem repeats_append_singleton (xs : List α) (x : α) :
    repeats key (xs ++ [x]) =
      if key x ∈ xs.map key then repeats key xs ++ [x] else repeats key xs := by
  rw [repeats, thoseBehind_append_singleton, ← repeats]
  by_cases hx : key x ∈ xs.map key
  · simp only [hx, decide_true, if_true]
  · simp only [hx, decide_false, Bool.false_eq_true, if_false, List.append_nil]

theorem firsts_sublist (xs : List α) : (firsts key xs).Sublist xs := thoseBehind_sublist _ xs

/-- Every key that occurs has a first occurrence. -/
theorem mem_map_firsts {k : κ} : k ∈ (firsts key xs).map key ↔ k ∈ xs.map key := by
  induction xs using List.reverseRecOn with
  | nil => exact Iff.rfl
  | append_singleton xs x ih =>
    rw [firsts_append_singleton, List.map_append, List.mem_append, List.map_singleton,
      List.mem_singleton]
    split
    · rename_i hx
      rw [ih]
      exact ⟨.inl, fun hk => hk.elim id fun heq => heq ▸ hx⟩
    · rw [List.map_append, List.mem_append, ih, List.map_singleton, List.mem_singleton]

/-- No key has two first occurrences. -/
theorem nodup_map_firsts (xs : List α) : ((firsts key xs).map key).Nodup := by
  induction xs using List.reverseRecOn with
  | nil => exact List.nodup_nil
  | append_singleton xs x ih =>
    rw [firsts_append_singleton]
    split
    · exact ih
    · rename_i hx
      rw [List.map_append, List.map_singleton, ← List.concat_eq_append]
      exact ih.concat (mem_map_firsts.not.2 hx)

theorem length_firsts_add_length_repeats (xs : List α) :
    (firsts key xs).length + (repeats key xs).length = xs.length := by
  induction xs using List.reverseRecOn with
  | nil => rfl
  | append_singleton xs x ih =>
    rw [firsts_append_singleton, repeats_append_singleton]
    split <;> simp only [List.length_append, List.length_singleton] <;> omega

/-- A look-up among the first occurrences finds what it finds among all elements. -/
theorem find?_firsts (k : κ) (xs : List α) :
    (firsts key xs).find? (key · = k) = xs.find? (key · = k) := by
  induction xs using List.reverseRecOn with
  | nil => rfl
  | append_singleton xs x ih =>
    rw [firsts_append_singleton, List.find?_append]
    split
    · rename_i hx
      rw [ih]
      -- An element that repeats a key is not found, since the key is found in front of it.
      by_cases hk : key x = k
      · have hfound : (xs.find? (key · = k)).isSome = true := by
          obtain ⟨y, hy, hyx⟩ := List.mem_map.1 hx
          exact List.find?_isSome.2 ⟨y, hy, decide_eq_true (hyx.trans hk)⟩
        rw [Option.or_of_isSome hfound]
      · simp [hk]
    · rw [List.find?_append, ih]

theorem firsts_of_nodup (h : (xs.map key).Nodup) : firsts key xs = xs := by
  induction xs using List.reverseRecOn with
  | nil => rfl
  | append_singleton xs x ih =>
    rw [List.map_append, List.map_singleton, ← List.concat_eq_append, List.nodup_concat] at h
    rw [firsts_append_singleton, if_neg h.1, ih h.2]

/-- Repeats may be dropped before others are appended. -/
theorem firsts_firsts_append (xs ys : List α) :
    firsts key (firsts key xs ++ ys) = firsts key (xs ++ ys) := by
  induction ys using List.reverseRecOn with
  | nil =>
    rw [List.append_nil, List.append_nil]
    exact firsts_of_nodup (nodup_map_firsts xs)
  | append_singleton ys y ih =>
    have hkeys : key y ∈ (firsts key xs ++ ys).map key ↔ key y ∈ (xs ++ ys).map key := by
      rw [List.map_append, List.map_append, List.mem_append, List.mem_append, mem_map_firsts]
    rw [← List.append_assoc, ← List.append_assoc, firsts_append_singleton,
      firsts_append_singleton, ih, if_congr hkeys rfl rfl]

end Criteria
