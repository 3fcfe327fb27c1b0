import Criteria.Proofs.Language.Cutting
import Criteria.Proofs.Text.Unbroken

/-! # What stands where a text is misread

An error of a text that is not cut into tokens is about what stands at its position: a character
that starts no token, a numeral that fits no format, an escape that means nothing, or the quote of a
string that does not end (`malformed_of_tokensAt`). A token has its characters, of which neither the
first nor the last one breaks a line (`Cut.exists_lexes`, `Lexes.exists_last`).
-/

set_option autoImplicit false

namespace Criteria.Language

open Number Text

/-! ## Errors in texts -/

/-- What is wrong with the front of a text. -/
inductive Malformed : List Char → ParseError → Prop
  | character {c : Char} {r : List Char} {position : Nat} (h : isBlank c = false) :
      Malformed (c :: r) (.unexpectedCharacter c position)
  | integer {n : Numeral} {text rest : List Char} {position : Nat}
      (h : Numeral.span? (text ++ rest) = some (n, text, rest)) :
      Malformed (text ++ rest) (.invalidInteger (String.ofList text) position)
  | float {n : Numeral} {text rest : List Char} {position : Nat}
      (h : Numeral.span? (text ++ rest) = some (n, text, rest)) :
      Malformed (text ++ rest) (.invalidFloat (String.ofList text) position)
  | escape {c : Char} {r : List Char} {position : Nat} (h : Lexeme.unescape? c = none) :
      Malformed ('\\' :: c :: r) (.invalidEscape c position)
  | unclosed {quote : Char} {r : List Char} {position : Nat}
      (h : quote = '"' ∨ quote = '\x27') : Malformed (quote :: r) (.unclosedString position)

/-- What is wrong with the text, which starts at `position`, stands where the error points. -/
def MalformedAt (position : Nat) (cs : List Char) (e : ParseError) : Prop :=
  ∃ front rest, cs = front ++ rest ∧ e.position = position + utf8Length front ∧ Malformed rest e

theorem Malformed.at {position : Nat} {cs : List Char} {e : ParseError} (h : Malformed cs e)
    (hposition : e.position = position) : MalformedAt position cs e :=
  ⟨[], cs, rfl, hposition, h⟩

theorem MalformedAt.behind {position : Nat} {cs : List Char} {e : ParseError} (front : List Char)
    (h : MalformedAt (position + utf8Length front) cs e) :
    MalformedAt position (front ++ cs) e := by
  obtain ⟨between, rest, rfl, hposition, hrest⟩ := h
  refine ⟨front ++ between, rest, by simp, ?_, hrest⟩
  rw [hposition, utf8Length_append, Nat.add_assoc]

namespace Lexeme

/-- What is wrong with a string is that it does not end, or an escape within it. -/
theorem stringBody_malformed {opening position : Nat} {quote : Char} {cs : List Char}
    {e : ParseError} (h : stringBody opening quote position cs = .error e) :
    e = .unclosedString opening ∨ MalformedAt position cs e := by
  fun_induction stringBody opening quote position cs with
  | case1 =>
    cases h
    exact .inl rfl
  | case2 => cases h
  | case3 =>
    cases h
    exact .inl rfl
  | case4 position c r hescape hquote =>
    cases h
    exact .inr (Malformed.at (.escape hescape) rfl)
  | case5 position c r d hescape hquote ih =>
    rcases bind_eq_error.1 h with h | ⟨⟨value, text, rest⟩, -, h⟩
    · refine (ih h).imp_right fun herror => ?_
      apply MalformedAt.behind ['\\', c]
      have hlength : position + utf8Length ['\\', c] = position + 1 + c.utf8Size := by
        simp [Nat.add_assoc]
        decide
      rwa [hlength]
    · cases h
  | case6 position c r hquote hbackslash ih =>
    rcases bind_eq_error.1 h with h | ⟨⟨value, text, rest⟩, -, h⟩
    · exact (ih h).imp_right fun herror => .behind [c] (by simpa using herror)
    · cases h

theorem numeralToken_malformed {n : Numeral} {text rest : List Char} {position : Nat}
    {e : ParseError} (hspan : Numeral.span? (text ++ rest) = some (n, text, rest))
    (h : numeralToken n text position = .error e) :
    MalformedAt position (text ++ rest) e := by
  unfold numeralToken at h
  split at h
  · split at h
    · cases h
    · cases h
      exact Malformed.at (.integer hspan) rfl
  · dsimp only at h
    split at h
    · cases h
    · cases h
      exact Malformed.at (.float hspan) rfl

theorem scan?_malformed {position : Nat} {cs : List Char} {e : ParseError}
    (h : scan? position cs = .error e) : MalformedAt position cs e := by
  unfold scan? at h
  split at h
  · cases h
  · rename_i c r
    split at h
    · rename_i n text rest hspan
      rcases bind_eq_error.1 h with h | ⟨token, -, h⟩
      · have hsplit := Numeral.span?_append hspan
        rw [← hsplit] at hspan ⊢
        exact numeralToken_malformed hspan h
      · cases h
    · split at h
      · rename_i hquote
        split at h
        · rename_i hbody
          cases h
          rcases stringBody_malformed hbody with rfl | h
          · exact Malformed.at (.unclosed hquote) rfl
          · exact .behind [c] (by simpa using h)
        · cases h
      · split at h
        · cases h
        · cases h

end Lexeme

/-- What is wrong with a text that has no tokens stands at the position of the error. -/
theorem malformed_of_tokensAt {position : Nat} {cs : List Char} {e : ParseError}
    (h : tokensAt position cs = .error e) : MalformedAt position cs e := by
  fun_induction tokensAt position cs with
  | case1 => cases h
  | case2 position c r hblank ih =>
    exact .behind [c] (by simpa using ih h)
  | case3 position c r hblank e' hscan =>
    cases h
    exact Lexeme.scan?_malformed hscan
  | case4 position c r hblank hscan =>
    cases h
    exact Malformed.at (.character (by simpa using hblank)) rfl
  | case5 position c r hblank lexeme hscan stop ih =>
    rcases bind_eq_error.1 h with h | ⟨tokens, -, h⟩
    · rw [← lexeme.split]
      exact .behind _ (ih h)
    · cases h

/-! ## The characters of tokens -/

/-- Every token has its characters in the text. -/
theorem Cut.exists_lexes {position : Nat} {cs : List Char} {ts : List (Located Token)}
    (h : Cut position cs ts) {t : Located Token} (ht : t ∈ ts) :
    ∃ front word rest, cs = front ++ word ++ rest ∧ Lexes word rest t.value ∧
      t.extent = ⟨position + utf8Length front, position + utf8Length (front ++ word)⟩ := by
  induction h with
  | nil => cases ht
  | @blank position c cs ts hblank tail ih =>
    obtain ⟨front, word, rest, rfl, hword, hextent⟩ := ih ht
    refine ⟨c :: front, word, rest, rfl, hword, ?_⟩
    rw [hextent]
    simp [Nat.add_assoc]
  | @lexeme position word rest first ts h tail ih =>
    rcases List.mem_cons.1 ht with rfl | ht
    · exact ⟨[], word, rest, rfl, h, rfl⟩
    · obtain ⟨front, word', rest', rfl, hword, hextent⟩ := ih ht
      refine ⟨word ++ front, word', rest', by simp, hword, ?_⟩
      rw [hextent]
      simp [Nat.add_assoc]

/-- A string ends with the quote that it starts with. -/
theorem Lexeme.stringBody_last {opening position : Nat} {quote : Char}
    {cs value text rest : List Char}
    (h : stringBody opening quote position cs = .ok (value, text, rest)) :
    ∃ init, text = init ++ [quote] := by
  fun_induction stringBody opening quote position cs generalizing value text rest with
  | case1 => cases h
  | case2 =>
    cases h
    exact ⟨[], rfl⟩
  | case3 => cases h
  | case4 => cases h
  | case5 position c r d hescape hquote ih =>
    obtain ⟨⟨value, text, rest⟩, hbody, h⟩ := bind_eq_ok.1 h
    cases h
    obtain ⟨init, rfl⟩ := ih hbody
    exact ⟨'\\' :: c :: init, rfl⟩
  | case6 position c r hquote hbackslash ih =>
    obtain ⟨⟨value, text, rest⟩, hbody, h⟩ := bind_eq_ok.1 h
    cases h
    obtain ⟨init, rfl⟩ := ih hbody
    exact ⟨c :: init, rfl⟩

theorem IsWord.unbroken {name : String} (h : IsWord name) : Unbroken name.toList := by
  obtain ⟨c, r, hname, hstart, hpart⟩ := h
  rw [hname, unbroken_cons]
  exact ⟨isBreak_of_isIdentifierPart (isIdentifierPart_of_start hstart),
    fun d hd => isBreak_of_isIdentifierPart (hpart d hd)⟩

theorem isBreak_of_isPunctuation {c : Char} (h : isPunctuation c = true) : isBreak c = false :=
  isBreak_of_not_isBlank (isBlank_of_isPunctuation h)

theorem Lexeme.isBreak_of_pair? {c d : Char} {s : Symbol} (h : pair? c d = some s) :
    isBreak d = false := by
  unfold pair? at h
  split at h <;> first | decide | cases h

/-- Line breaks stand inside of tokens, if at all. -/
theorem Lexes.exists_last {word rest : List Char} {t : Token} (h : Lexes word rest t) :
    ∃ init last, word = init ++ [last] ∧ isBreak last = false := by
  obtain ⟨first, others, hword, -⟩ := h.start
  cases h.byKind with
  | numeral hspan htoken => exact (Numeral.unbroken_of_span? hspan).exists_last hword
  | @string quote value text _ hquote hbody =>
    obtain ⟨init, rfl⟩ := Lexeme.stringBody_last (hbody 0 0)
    refine ⟨quote :: init, quote, rfl, ?_⟩
    rcases hquote with rfl | rfl <;> decide
  | word hname hrest => exact hname.unbroken.exists_last hword
  | @pair c d _ _ hpair => exact ⟨[c], d, rfl, Lexeme.isBreak_of_pair? hpair⟩
  | single hsingle hrest =>
    exact ⟨[], _, rfl, isBreak_of_isPunctuation (isPunctuation_of_single? hsingle)⟩

end Criteria.Language
