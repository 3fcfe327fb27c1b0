import Criteria.Number.Numeral
import Criteria.Text.Basic
import Criteria.Text.Identifier

/-! # Texts on a single line

Which characters break a line, and which parts of a text have none of them: digits, words and
numerals.
-/

set_option autoImplicit false

namespace Criteria

open Text

namespace Text

/-- A line feed or a carriage return. -/
def isBreak (c : Char) : Bool := c = '\n' || c = '\r'

theorem isBreak_eq_false {c : Char} : isBreak c = false ↔ c ≠ '\n' ∧ c ≠ '\r' := by
  rw [isBreak, Bool.or_eq_false_iff, decide_eq_false_iff_not, decide_eq_false_iff_not]

/-- A text without line feeds and carriage returns. -/
def Unbroken (cs : List Char) : Prop := ∀ c ∈ cs, isBreak c = false

-- A search for an instance may find one that tries all characters there are.
instance (cs : List Char) : Decidable (Unbroken cs) :=
  List.decidableBAll (isBreak · = false) cs

@[simp] theorem unbroken_nil : Unbroken [] := by
  intro c hc
  cases hc

@[simp] theorem unbroken_cons {c : Char} {cs : List Char} :
    Unbroken (c :: cs) ↔ isBreak c = false ∧ Unbroken cs :=
  List.forall_mem_cons

@[simp] theorem unbroken_append {cs ds : List Char} :
    Unbroken (cs ++ ds) ↔ Unbroken cs ∧ Unbroken ds :=
  List.forall_mem_append

theorem Unbroken.lineFeed_not_mem {cs : List Char} (h : Unbroken cs) : '\n' ∉ cs := by
  intro hc
  exact absurd (h _ hc) (by decide)

theorem Unbroken.exists_last {cs r : List Char} {c : Char} (h : Unbroken cs) (hcs : cs = c :: r) :
    ∃ init last, cs = init ++ [last] ∧ isBreak last = false := by
  have hne : cs ≠ [] := by
    rw [hcs]
    exact List.cons_ne_nil c r
  refine ⟨cs.dropLast, cs.getLast hne, (List.dropLast_concat_getLast hne).symm, ?_⟩
  exact h _ (List.getLast_mem hne)

/-- A part of an unbroken text is unbroken. -/
theorem Unbroken.subset {cs ds : List Char} (h : Unbroken ds) (hsubset : cs ⊆ ds) : Unbroken cs :=
  fun _ hc => h _ (hsubset hc)

theorem unbroken_flatMap {α : Type} {text : α → List Char} (h : ∀ a, Unbroken (text a))
    (as : List α) : Unbroken (as.flatMap text) := by
  intro c hc
  obtain ⟨a, -, hc⟩ := List.mem_flatMap.1 hc
  exact h a c hc

theorem unbroken_replicate {c : Char} (h : isBreak c = false) (n : Nat) :
    Unbroken (List.replicate n c) := by
  intro d hd
  rw [List.eq_of_mem_replicate hd]
  exact h

/-! ## Strings -/

/-- A string without line feeds and carriage returns. -/
def OneLine (s : String) : Prop := Unbroken s.toList

instance (s : String) : Decidable (OneLine s) := inferInstanceAs (Decidable (Unbroken s.toList))

@[simp] theorem oneLine_append {s t : String} : OneLine (s ++ t) ↔ OneLine s ∧ OneLine t := by
  rw [OneLine, String.toList_append, unbroken_append]
  exact Iff.rfl

@[simp] theorem oneLine_ofList {cs : List Char} : OneLine (String.ofList cs) ↔ Unbroken cs := by
  rw [OneLine, String.toList_ofList]

@[simp] theorem oneLine_singleton {c : Char} :
    OneLine (String.singleton c) ↔ isBreak c = false := by
  simp [OneLine]

theorem oneLine_intercalate (separator : String) (h : OneLine separator) {ss : List String} :
    OneLine (separator.intercalate ss) ↔ ∀ s ∈ ss, OneLine s := by
  induction ss with
  | nil => simp [OneLine]
  | cons first others ih =>
    cases others with
    | nil => simp
    | cons second others =>
      rw [String.intercalate_cons_cons, oneLine_append, oneLine_append, ih]
      simp [h]

/-! ## Characters that break no line -/

/-- A class of characters without the two breaks. -/
theorem isBreak_of_class {P : Char → Bool} (hfeed : P '\n' = false) (hreturn : P '\r' = false)
    {c : Char} (h : P c = true) : isBreak c = false := by
  rw [isBreak_eq_false]
  constructor
  · rintro rfl
    rw [hfeed] at h
    cases h
  · rintro rfl
    rw [hreturn] at h
    cases h

theorem isBreak_of_not_isBlank {c : Char} (h : isBlank c = false) : isBreak c = false :=
  isBreak_of_class (P := fun c => !isBlank c) rfl rfl (by simp [h])

theorem isBreak_of_isDigit {c : Char} (h : c.isDigit = true) : isBreak c = false :=
  isBreak_of_class (by decide) (by decide) h

theorem isBreak_of_isIdentifierPart {c : Char} (h : isIdentifierPart c = true) :
    isBreak c = false :=
  isBreak_of_class (by decide) (by decide) h

theorem unbroken_of_isDigit {cs : List Char} (h : ∀ c ∈ cs, c.isDigit = true) : Unbroken cs :=
  fun c hc => isBreak_of_isDigit (h c hc)

end Text

/-! ## Numerals -/

namespace Number

theorem unbroken_spanDigits (cs : List Char) : Unbroken (spanDigits cs).1 :=
  unbroken_of_isDigit (List.all_eq_true.1 List.all_takeWhile)

namespace Numeral

theorem unbroken_spanMinus (cs : List Char) : Unbroken (spanMinus cs).1 := by
  unfold spanMinus
  split <;> simp [isBreak]

theorem unbroken_spanSign (cs : List Char) : Unbroken (spanSign cs).1 := by
  unfold spanSign
  split <;> simp [isBreak]

theorem unbroken_spanFraction (cs : List Char) : Unbroken (spanFraction cs).1 := by
  unfold spanFraction
  split
  · dsimp only
    split
    · exact unbroken_nil
    · exact unbroken_cons.2 ⟨by decide, unbroken_spanDigits _⟩
  · exact unbroken_nil

theorem unbroken_spanExponent (cs : List Char) : Unbroken (spanExponent cs).1 := by
  unfold spanExponent
  split
  · exact unbroken_nil
  · rename_i c r
    dsimp only
    split
    · rename_i h
      have hc : isBreak c = false := by
        simp only [Bool.and_eq_true, Bool.or_eq_true, decide_eq_true_eq] at h
        rcases h.1 with rfl | rfl <;> decide
      have hsign := unbroken_spanSign r
      exact unbroken_append.2 ⟨unbroken_cons.2 ⟨hc, hsign⟩, unbroken_spanDigits _⟩
    · exact unbroken_nil

/-- A numeral stands on a single line. -/
theorem unbroken_of_span? {cs text rest : List Char} {n : Numeral}
    (h : span? cs = some (n, text, rest)) : Unbroken text := by
  unfold span? at h
  dsimp only at h
  split at h
  · cases h
  · cases h
    simp only [unbroken_append]
    exact ⟨⟨⟨unbroken_spanMinus _, unbroken_spanDigits _⟩, unbroken_spanFraction _⟩,
      unbroken_spanExponent _⟩

end Numeral

end Number

end Criteria
