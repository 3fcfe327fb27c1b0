import Criteria.Language.Lexeme
import Criteria.Proofs.Checked.Basic
import Criteria.Proofs.Language.Lexing

/-! # Tokens, checked

A string is read with a count of its characters: the count is turned into the offset of an escape
that is none, which lies two characters back, and the string is cut off by it. Both have a result,
for the characters counted are those of the string (`readString_eq`), so a text is cut into tokens
without a trap (`tokenize_eq`).
-/

set_option autoImplicit false

namespace Criteria.Checked

open Criteria.Language Number Text

/-! ## Strings -/

/-- The inside of a string that starts at `start` with all of `input` before it: its value, and the
number of characters up to its closing quote. So many of them are consumed when it comes to those
that are left. -/
def readString (opening start : Nat) (quote : Char) (input : List Char) :
    (consumed : Nat) → (value : List Char) → List Char → Run ParseError (List Char × Nat)
  | _, _, [] => fail (.unclosedString opening)
  | consumed, value, c :: r =>
    if c = quote then .ok (value, consumed + 1)
    else if c = '\\' then
      match r with
      | [] => fail (.unclosedString opening)
      | e :: r =>
        match Lexeme.unescape? e with
        | some d => readString opening start quote input (consumed + 2) (value ++ [d]) r
        | none => do
          let before ← guarded (minus (consumed + 2) 2)
          fail (.invalidEscape e (start + utf8Length (input.take before)))
    else readString opening start quote input (consumed + 1) (value ++ [c]) r

/-- The inside of a string as its value behind `value` and the count of its characters. -/
def counted (value : List Char) (consumed : Nat) (body : List Char × List Char × List Char) :
    List Char × Nat :=
  (value ++ body.1, consumed + body.2.1.length)

theorem map_counted (r : Except ParseError (List Char × List Char × List Char)) (d : Char)
    (taken value : List Char) (consumed : Nat) :
    (r >>= fun body => .ok (d :: body.1, taken ++ body.2.1, body.2.2)).map
        (counted value consumed) =
      r.map (counted (value ++ [d]) (consumed + taken.length)) := by
  cases r with
  | error e => rfl
  | ok body =>
    show Except.ok (value ++ d :: body.1, consumed + (taken ++ body.2.1).length) =
      .ok (value ++ [d] ++ body.1, consumed + taken.length + body.2.1.length)
    simp [Nat.add_assoc]

/-- What is counted are the characters in front of those that are left. -/
theorem readString_eq {opening start position : Nat} {quote : Char} {input cs : List Char}
    (before value : List Char) (hinput : input = before ++ cs)
    (hposition : position = start + utf8Length before) :
    readString opening start quote input before.length value cs =
      regular ((Lexeme.stringBody opening quote position cs).map
        (counted value before.length)) := by
  fun_induction Lexeme.stringBody opening quote position cs generalizing before value with
  | case1 => rfl
  | case2 position r =>
    unfold readString
    rw [if_pos rfl]
    simp [Except.map, regular_ok, counted]
  | case3 position hquote =>
    unfold readString
    rw [if_neg hquote, if_pos rfl]
    rfl
  | case4 position e r hescape hquote =>
    -- The characters counted are those in front of the escape and the two that make it up.
    have hback : minus (before.length + 2) 2 = .ok before.length := minus_of_le (by omega)
    unfold readString
    rw [if_neg hquote, if_pos rfl]
    dsimp only
    rw [hescape, hback]
    show fail (ParseError.invalidEscape e (start + utf8Length (input.take before.length))) = _
    rw [hinput, List.take_left, hposition]
    rfl
  | case5 position e r d hescape hquote ih =>
    have hread := ih (before ++ ['\\', e]) (value ++ [d])
      (by simp [hinput]) (by simp [hposition, Nat.add_assoc]; decide)
    rw [List.length_append] at hread
    unfold readString
    rw [if_neg hquote, if_pos rfl]
    dsimp only
    rw [hescape]
    exact hread.trans (congrArg regular (map_counted _ d ['\\', e] value before.length).symm)
  | case6 position c r hquote hbackslash ih =>
    have hread := ih (before ++ [c]) (value ++ [c])
      (by simp [hinput]) (by simp [hposition, Nat.add_assoc])
    rw [List.length_append] at hread
    unfold readString
    rw [if_neg hquote, if_neg hbackslash]
    exact hread.trans (congrArg regular (map_counted _ c [c] value before.length).symm)

theorem readString_start (opening start : Nat) (quote : Char) (r : List Char) :
    readString opening start quote r 0 [] r =
      regular ((Lexeme.stringBody opening quote start r).map
        fun body => (body.1, body.2.1.length)) := by
  have hcounted : counted [] 0 = fun body => (body.1, body.2.1.length) := by
    funext body
    rw [counted, List.nil_append, Nat.zero_add]
  rw [← hcounted]
  exact readString_eq [] [] rfl rfl

/-- The string at the front of a text, cut off by the number of its characters. -/
def stringLexeme (position : Nat) (quote : Char) (r : List Char) :
    Run ParseError (Lexeme (quote :: r)) := do
  let (value, consumed) ← readString position (position + quote.utf8Size) quote r 0 [] r
  let ⟨(text, rest), h⟩ ← guarded (splitItems consumed r)
  .ok ⟨.string (String.ofList value), quote :: text, rest, congrArg (quote :: ·) h,
    List.cons_ne_nil _ _⟩

section

variable {position : Nat} {quote : Char} {r : List Char}

theorem stringLexeme_of_error {e : ParseError}
    (h : Lexeme.stringBody position quote (position + quote.utf8Size) r = .error e) :
    stringLexeme position quote r = fail e := by
  rw [stringLexeme, readString_start, h]
  rfl

theorem stringLexeme_of_ok {value text rest : List Char}
    (h : Lexeme.stringBody position quote (position + quote.utf8Size) r = .ok (value, text, rest)) :
    stringLexeme position quote r =
      .ok ⟨.string (String.ofList value), quote :: text, rest,
        congrArg (quote :: ·) (Lexeme.stringBody_append h), List.cons_ne_nil _ _⟩ := by
  have hread : readString position (position + quote.utf8Size) quote r 0 [] r =
      .ok (value, text.length) := by
    rw [readString_start, h]
    rfl
  obtain rfl := Lexeme.stringBody_append h
  rw [stringLexeme, hread]
  show (guarded (splitItems text.length (text ++ rest)) >>= _) = _
  rw [splitItems_append]
  rfl

end

/-- The lexeme of a string is scanned, for no numeral starts with a quote. -/
theorem stringLexeme_eq (position : Nat) {quote : Char} (hquote : quote = '"' ∨ quote = '\x27')
    (r : List Char) :
    (do
      let lexeme ← stringLexeme position quote r
      .ok (some lexeme)) = regular (Lexeme.scan? position (quote :: r)) := by
  have hspan : Numeral.span? (quote :: r) = none := by
    rcases hquote with rfl | rfl
    · exact Lexeme.span?_eq_none (by decide) (by decide)
    · exact Lexeme.span?_eq_none (by decide) (by decide)
  rw [Lexeme.scan?]
  split
  · rename_i hspan'
    rw [hspan] at hspan'
    cases hspan'
  · rw [if_pos hquote]
    split
    · rename_i hbody
      rw [stringLexeme_of_error hbody]
      rfl
    · rename_i hbody
      rw [stringLexeme_of_ok hbody]
      rfl

/-- The token at the front of a text, if one begins there. -/
def scan? (position : Nat) : (cs : List Char) → Run ParseError (Option (Lexeme cs))
  | [] => .ok none
  | c :: r =>
    if c = '"' ∨ c = '\x27' then do
      let lexeme ← stringLexeme position c r
      .ok (some lexeme)
    else regular (Lexeme.scan? position (c :: r))

theorem scan?_eq (position : Nat) (cs : List Char) :
    scan? position cs = regular (Lexeme.scan? position cs) := by
  cases cs with
  | nil => rfl
  | cons c r =>
    rw [scan?]
    by_cases hquote : c = '"' ∨ c = '\x27'
    · rw [if_pos hquote, stringLexeme_eq position hquote]
    · rw [if_neg hquote]

/-! ## Texts -/

/-- The tokens of the text that stands at `position`. -/
def tokensAt (position : Nat) : List Char → Run ParseError (List (Located Token))
  | [] => .ok []
  | c :: r =>
    if isBlank c then tokensAt (position + c.utf8Size) r
    else do
      match ← scan? position (c :: r) with
      | none => fail (.unexpectedCharacter c position)
      | some lexeme =>
        let stop := position + utf8Length lexeme.text
        let tokens ← tokensAt stop lexeme.rest
        .ok (⟨lexeme.token, ⟨position, stop⟩⟩ :: tokens)
termination_by cs => cs.length
decreasing_by
  · simp
  · exact lexeme.length_rest_lt

theorem tokensAt_eq (position : Nat) (cs : List Char) :
    tokensAt position cs = regular (Language.tokensAt position cs) := by
  fun_induction Language.tokensAt position cs with
  | case1 => rw [tokensAt]; rfl
  | case2 position c r hblank ih => rw [tokensAt, if_pos hblank, ih]
  | case3 position c r hblank e hscan =>
    rw [tokensAt, if_neg hblank, scan?_eq, hscan]
    rfl
  | case4 position c r hblank hscan =>
    rw [tokensAt, if_neg hblank, scan?_eq, hscan]
    rfl
  | case5 position c r hblank lexeme hscan stop ih =>
    rw [tokensAt, if_neg hblank, scan?_eq, hscan]
    exact regular_bind ih fun _ => rfl

/-- The tokens of a text. -/
def tokenize (source : String) : Run ParseError (List (Located Token)) :=
  tokensAt 0 source.toList

theorem tokenize_eq (source : String) : tokenize source = regular (Language.tokenize source) :=
  tokensAt_eq 0 source.toList

end Criteria.Checked
