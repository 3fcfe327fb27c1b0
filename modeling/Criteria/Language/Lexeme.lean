import Criteria.Language.ParseError
import Criteria.Number.Numeral
import Criteria.Text.Basic
import Criteria.Text.Identifier

/-! # From text to tokens

A text is cut into lexemes with blanks between them. A lexeme is the longest text of its kind at
the front of what is left: a numeral, a string, a word, or a symbol of two characters before one
of a single character.
-/

set_option autoImplicit false

namespace Criteria.Language

open Number Text

/-- A token at the front of `cs`, its characters, and what follows them. -/
structure Lexeme (cs : List Char) where
  token : Token
  text : List Char
  rest : List Char
  split : text ++ rest = cs
  nonempty : text ≠ []

namespace Lexeme

theorem length_rest_lt {cs : List Char} (l : Lexeme cs) : l.rest.length < cs.length := by
  have h := congrArg List.length l.split
  have hpos := List.length_pos_iff.2 l.nonempty
  simp only [List.length_append] at h
  omega

/-- The token of a numeral: an integer of 64 bits, or a float that is finite. -/
def numeralToken (n : Numeral) (text : List Char) (position : Nat) : Except ParseError Token :=
  if n.isInteger then
    match Word.ofInt? 64 n.toInt with
    | some word => .ok (.integer word)
    | none => .error (.invalidInteger (String.ofList text) position)
  else
    let x := n.toBinary .double
    if x.isFinite then .ok (.float x)
    else .error (.invalidFloat (String.ofList text) position)

/-- The character of an escape in a string. -/
def unescape? : Char → Option Char
  | '"' => some '"'
  | '\x27' => some '\x27'
  | '\\' => some '\\'
  | 'n' => some '\n'
  | 't' => some '\t'
  | 'r' => some '\r'
  | _ => none

/-- The inside of a string from `position` on: its value, its characters with the closing quote,
and what follows. The error of a string without end points at its opening quote. -/
def stringBody (opening : Nat) (quote : Char) (position : Nat) :
    List Char → Except ParseError (List Char × List Char × List Char)
  | [] => .error (.unclosedString opening)
  | c :: r =>
    if c = quote then .ok ([], [c], r)
    else if c = '\\' then
      match r with
      | [] => .error (.unclosedString opening)
      | e :: r => do
        match unescape? e with
        | none => .error (.invalidEscape e position)
        | some d =>
          let (value, text, rest) ← stringBody opening quote (position + 1 + e.utf8Size) r
          .ok (d :: value, c :: e :: text, rest)
    else do
      let (value, text, rest) ← stringBody opening quote (position + c.utf8Size) r
      .ok (c :: value, c :: text, rest)

theorem stringBody_append {opening position : Nat} {quote : Char}
    {cs value text rest : List Char}
    (h : stringBody opening quote position cs = .ok (value, text, rest)) : text ++ rest = cs := by
  fun_induction stringBody opening quote position cs generalizing value text rest with
  | case1 => cases h
  | case2 => cases h; rfl
  | case3 => cases h
  | case4 => cases h
  | case5 position e r d hu hq ih =>
    cases hb : stringBody opening quote (position + 1 + e.utf8Size) r with
    | error e' => rw [hb] at h; cases h
    | ok found => rw [hb] at h; cases h; simp [ih hb]
  | case6 position c r hq hc ih =>
    cases hb : stringBody opening quote (position + c.utf8Size) r with
    | error e' => rw [hb] at h; cases h
    | ok found => rw [hb] at h; cases h; simp [ih hb]

/-- The symbol that two characters write. -/
def pair? : Char → Char → Option Symbol
  | '=', '=' => some .equal
  | '!', '=' => some .notEqual
  | '>', '=' => some .greaterEqual
  | '<', '=' => some .lessEqual
  | '&', '&' => some .ampersand
  | '|', '|' => some .pipe
  | _, _ => none

/-- The symbol that one character writes. -/
def single? : Char → Option Symbol
  | '=' => some .assign
  | '>' => some .greater
  | '<' => some .less
  | '&' => some .ampersand
  | '|' => some .pipe
  | '(' => some .leftParen
  | ')' => some .rightParen
  | '\x7b' => some .leftBrace
  | '\x7d' => some .rightBrace
  | ',' => some .comma
  | '.' => some .dot
  | _ => none

/-- The symbol of two characters at the front of a text. -/
def ofPair? (c : Char) : (r : List Char) → Option (Lexeme (c :: r))
  | [] => none
  | d :: r => (pair? c d).map fun s => ⟨.symbol s, [c, d], r, rfl, List.cons_ne_nil _ _⟩

/-- The symbol of one character at the front of a text. -/
def ofSingle? (c : Char) (r : List Char) : Option (Lexeme (c :: r)) :=
  (single? c).map fun s => ⟨.symbol s, [c], r, rfl, List.cons_ne_nil _ _⟩

/-- The token at the front of a text, if one begins there. -/
def scan? (position : Nat) : (cs : List Char) → Except ParseError (Option (Lexeme cs))
  | [] => .ok none
  | c :: r =>
    match hn : Numeral.span? (c :: r) with
    | some (n, text, rest) => do
      let token ← numeralToken n text position
      .ok (some ⟨token, text, rest, Numeral.span?_append hn, Numeral.span?_ne_nil hn⟩)
    | none =>
      if c = '"' ∨ c = '\x27' then
        match hs : stringBody position c (position + c.utf8Size) r with
        | .error e => .error e
        | .ok (value, text, rest) =>
          .ok (some ⟨.string (String.ofList value), c :: text, rest,
            by simp [stringBody_append hs], by simp⟩)
      else if isIdentifierStart c then
        let word := c :: r.takeWhile isIdentifierPart
        .ok (some ⟨.ofWord (String.ofList word), word, r.dropWhile isIdentifierPart,
          by simp [word, List.takeWhile_append_dropWhile], by simp [word]⟩)
      else .ok (ofPair? c r <|> ofSingle? c r)

end Lexeme

/-- The tokens of the text that stands at `position`. -/
def tokensAt (position : Nat) : List Char → Except ParseError (List (Located Token))
  | [] => .ok []
  | c :: r =>
    if isBlank c then tokensAt (position + c.utf8Size) r
    else
      match Lexeme.scan? position (c :: r) with
      | .error e => .error e
      | .ok none => .error (.unexpectedCharacter c position)
      | .ok (some lexeme) => do
        let stop := position + utf8Length lexeme.text
        let tokens ← tokensAt stop lexeme.rest
        .ok (⟨lexeme.token, ⟨position, stop⟩⟩ :: tokens)
termination_by cs => cs.length
decreasing_by
  · simp
  · exact lexeme.length_rest_lt

/-- The tokens of a text. -/
def tokenize (source : String) : Except ParseError (List (Located Token)) :=
  tokensAt 0 source.toList

end Criteria.Language
