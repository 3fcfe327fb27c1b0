import Criteria.Proofs.Language.Cutting

/-! # Tokens read by alternatives

A tokenizer can be put together from readers that are tried one after the other. A reader that gets
stuck gives way to the next one, and a reader that fails ends the reading. What is reported where
all of them get stuck is the character there, or at the end of the text no more than the place
(`Fault.generic`). Such a tokenizer has the tokens and the errors of `tokenize` (`tokenize_eq`),
hence it never reports a mere place. Wherever it stops, the tokens that it has read are those of the
text in front (`Reads.cut`).
-/

set_option autoImplicit false

namespace Criteria.Language.Readers

open Number Text

/-! ## Readers -/

/-- A place in a text, and what stands there. -/
structure Cursor where
  position : Nat
  ahead : List Char

/-- What is reported: an error of the language, or no more than a place. -/
inductive Fault where
  | language (e : ParseError)
  | generic (position : Nat)

/-- How a reader ends without a result: stuck, so that others may be tried, or for good. -/
inductive Stop where
  | stuck (fault : Fault)
  | failed (fault : Fault)

def Stop.fault : Stop → Fault
  | stuck fault => fault
  | failed fault => fault

namespace Cursor

/-- The place behind the first of two parts that make up what stands ahead. -/
def past (here : Cursor) (parts : List Char × List Char) : Cursor :=
  ⟨here.position + utf8Length parts.1, parts.2⟩

/-- The place behind the blanks. -/
def unblanked (here : Cursor) : Cursor :=
  here.past (here.ahead.takeWhile isBlank, here.ahead.dropWhile isBlank)

/-- What is reported where no reader goes on. -/
def fault : Cursor → Fault
  | ⟨position, []⟩ => .generic position
  | ⟨position, c :: _⟩ => .language (.unexpectedCharacter c position)

end Cursor

/-- What is read at a place, and the place behind it. -/
abbrev Reader (α : Type) : Type := Cursor → Except Stop (α × Cursor)

section

variable {α : Type}

def stuck (here : Cursor) : Except Stop α := .error (.stuck here.fault)

/-- An error of the language ends the reading. -/
def orFail (r : Except ParseError α) : Except Stop α := r.mapError fun e => .failed (.language e)

/-- A character of a class. -/
def character (p : Char → Bool) : Reader Char := fun here =>
  match here.ahead with
  | [] => stuck here
  | c :: r => if p c then .ok (c, here.past ([c], r)) else stuck here

/-- The text of a single character. -/
def one (p : Char → Bool) : Reader (List Char) := fun here => do
  let (c, behind) ← character p here
  .ok ([c], behind)

/-- All characters of a class that stand ahead. -/
def run (p : Char → Bool) : Reader (List Char) := fun here =>
  .ok (here.ahead.takeWhile p, here.past (here.ahead.takeWhile p, here.ahead.dropWhile p))

/-- All characters of a class that stand ahead, of which there is one. -/
def run1 (p : Char → Bool) : Reader (List Char) := fun here =>
  if (here.ahead.takeWhile p).isEmpty then stuck here else run p here

/-- A number of characters. -/
def taken (n : Nat) : Reader (List Char) := fun here =>
  if n ≤ here.ahead.length then
    .ok (here.ahead.take n, here.past (here.ahead.take n, here.ahead.drop n))
  else stuck here

/-- One text behind the other. -/
def both (f g : Reader (List Char)) : Reader (List Char) := fun here => do
  let (first, between) ← f here
  let (second, behind) ← g between
  .ok (first ++ second, behind)

/-- A text that may be missing. -/
def optional (f : Reader (List Char)) : Reader (List Char) := fun here =>
  match f here with
  | .error (.stuck _) => .ok ([], here)
  | .error (.failed fault) => .error (.failed fault)
  | .ok read => .ok read

/-- Another reader where the first one gets stuck. -/
def either (f g : Reader α) : Reader α := fun here =>
  match f here with
  | .error (.stuck _) => g here
  | .error (.failed fault) => .error (.failed fault)
  | .ok read => .ok read

end

/-! ## Readers of tokens -/

/-- The text of a numeral. -/
def numeral : Reader (List Char) :=
  both (optional (one (· = '-'))) <| both (run1 Char.isDigit) <|
    both (optional (both (one (· = '.')) (run1 Char.isDigit))) <|
      optional (both (one fun c => c = 'e' || c = 'E')
        (both (optional (one fun c => c = '+' || c = '-')) (run1 Char.isDigit)))

/-- The number that a text writes. -/
def numberOf (text : List Char) (position : Nat) : Except ParseError Token :=
  match Numeral.span? text with
  | some (n, _, _) => Lexeme.numeralToken n text position
  | none => .error (.invalidInteger (String.ofList text) position)

def number : Reader (Located Token) := fun here => do
  let (text, behind) ← numeral here
  let token ← orFail (numberOf text here.position)
  .ok (⟨token, ⟨here.position, behind.position⟩⟩, behind)

/-- A string; its value is found first, and then as many characters are taken as it has. -/
def string : Reader (Located Token) := fun here => do
  let (quote, inside) ← character (fun c => c = '"' || c = '\x27') here
  let (value, text, _) ←
    orFail (Lexeme.stringBody here.position quote inside.position inside.ahead)
  let (_, behind) ← taken text.length inside
  .ok (⟨.string (String.ofList value), ⟨here.position, behind.position⟩⟩, behind)

def word : Reader (Located Token) := fun here => do
  let (text, behind) ← both (run1 isIdentifierStart) (run isIdentifierPart) here
  .ok (⟨.ofWord (String.ofList text), ⟨here.position, behind.position⟩⟩, behind)

/-- A symbol of the given number of characters. -/
def symbol (n : Nat) (symbol? : List Char → Option Symbol) : Reader (Located Token) := fun here =>
  do
  let (text, behind) ← taken n here
  match symbol? text with
  | some s => .ok (⟨.symbol s, ⟨here.position, behind.position⟩⟩, behind)
  | none => stuck here

def pair : Reader (Located Token) := symbol 2 fun
  | [c, d] => Lexeme.pair? c d
  | _ => none

def single : Reader (Located Token) := symbol 1 fun
  | [c] => Lexeme.single? c
  | _ => none

def token : Reader (Located Token) :=
  either number (either string (either word (either pair single)))

/-! ## The tokenizer -/

/-- Tokens as far as there are any, with blanks in front of each. A token that takes nothing would
be read for ever, so a reader may not go on behind one. -/
def tokens (here : Cursor) : Except Stop (List (Located Token) × Cursor) :=
  match token here.unblanked with
  | .error (.stuck _) => .ok ([], here)
  | .error (.failed fault) => .error (.failed fault)
  | .ok (t, behind) =>
    if behind.ahead.length < here.ahead.length then do
      let (ts, last) ← tokens behind
      .ok (t :: ts, last)
    else stuck here
termination_by here.ahead.length

/-- The tokens of a text of which nothing else may be left. -/
def tokenize (source : String) : Except Fault (List (Located Token)) :=
  match tokens ⟨0, source.toList⟩ with
  | .error stop => .error stop.fault
  | .ok (ts, last) =>
    if last.unblanked.ahead.isEmpty then .ok ts else .error last.unblanked.fault

/-! ## Readers put together -/

section

variable {f g : Reader (List Char)} {here between behind place : Cursor} {first second : List Char}

theorem both_of_ok (hf : f here = .ok (first, between)) (hg : g between = .ok (second, behind)) :
    both f g here = .ok (first ++ second, behind) :=
  bind_eq_ok.2 ⟨_, hf, bind_eq_ok.2 ⟨_, hg, rfl⟩⟩

theorem both_of_stuck (hf : f here = stuck place) : both f g here = stuck place :=
  bind_eq_error.2 (.inl hf)

theorem both_of_stuck_behind (hf : f here = .ok (first, between)) (hg : g between = stuck place) :
    both f g here = stuck place :=
  bind_eq_error.2 (.inr ⟨_, hf, bind_eq_error.2 (.inl hg)⟩)

theorem optional_of_ok (h : f here = .ok (first, behind)) :
    optional f here = .ok (first, behind) := by
  rw [optional, h]

theorem optional_of_stuck (h : f here = stuck place) : optional f here = .ok ([], here) := by
  rw [optional, h]
  rfl

end

section

variable {α : Type} {f g : Reader α} {here place : Cursor}

theorem either_of_ok {read : α × Cursor} (h : f here = .ok read) : either f g here = .ok read := by
  rw [either, h]

theorem either_of_failed {fault : Fault} (h : f here = .error (.failed fault)) :
    either f g here = .error (.failed fault) := by
  rw [either, h]

theorem either_of_stuck (h : f here = stuck place) : either f g here = g here := by
  rw [either, h]
  rfl

end

section

variable {p : Char → Bool} {position : Nat} {c : Char} {r : List Char}

theorem character_of_true (h : p c = true) :
    character p ⟨position, c :: r⟩ = .ok (c, ⟨position + c.utf8Size, r⟩) := by
  simp [character, h, Cursor.past]

theorem character_of_false (h : p c = false) :
    character p ⟨position, c :: r⟩ = stuck ⟨position, c :: r⟩ := by
  simp [character, h]

theorem one_of_true (h : p c = true) :
    one p ⟨position, c :: r⟩ = .ok ([c], ⟨position + c.utf8Size, r⟩) := by
  rw [one, character_of_true h]
  rfl

theorem one_of_false (h : p c = false) :
    one p ⟨position, c :: r⟩ = stuck ⟨position, c :: r⟩ := by
  rw [one, character_of_false h]
  rfl

theorem one_nil : one p ⟨position, []⟩ = stuck ⟨position, []⟩ := rfl

theorem taken_append (text rest : List Char) :
    taken text.length ⟨position, text ++ rest⟩ =
      .ok (text, ⟨position + utf8Length text, rest⟩) := by
  simp [taken, Cursor.past]

end

/-! ## Numerals -/

/-- The reader takes what the function cuts off at the front, and it never gets stuck. -/
def Takes (f : Reader (List Char)) (span : List Char → List Char × List Char) : Prop :=
  ∀ position cs,
    f ⟨position, cs⟩ = .ok ((span cs).1, ⟨position + utf8Length (span cs).1, (span cs).2⟩)

theorem run1_of_digits {position : Nat} {cs : List Char} (h : ¬(spanDigits cs).1.isEmpty) :
    run1 Char.isDigit ⟨position, cs⟩ = .ok ((spanDigits cs).1,
      ⟨position + utf8Length (spanDigits cs).1, (spanDigits cs).2⟩) :=
  if_neg h

theorem run1_of_no_digits {position : Nat} {cs : List Char} (h : (spanDigits cs).1.isEmpty) :
    run1 Char.isDigit ⟨position, cs⟩ = stuck ⟨position, cs⟩ :=
  if_pos h

theorem optional_minus_takes : Takes (optional (one (· = '-'))) Numeral.spanMinus := by
  intro position cs
  unfold Numeral.spanMinus
  split
  · exact optional_of_ok (one_of_true rfl)
  · rename_i hminus
    cases cs with
    | nil => exact optional_of_stuck one_nil
    | cons c r =>
      have hc : c ≠ '-' := fun h => hminus r (h ▸ rfl)
      exact optional_of_stuck (one_of_false (by simpa using hc))

theorem optional_sign_takes :
    Takes (optional (one fun c => c = '+' || c = '-')) Numeral.spanSign := by
  intro position cs
  unfold Numeral.spanSign
  split
  · exact optional_of_ok (one_of_true rfl)
  · exact optional_of_ok (one_of_true rfl)
  · rename_i hplus hminus
    cases cs with
    | nil => exact optional_of_stuck one_nil
    | cons c r =>
      have hc : c ≠ '+' ∧ c ≠ '-' := ⟨fun h => hplus r (h ▸ rfl), fun h => hminus r (h ▸ rfl)⟩
      exact optional_of_stuck (one_of_false (by simpa using hc))

theorem optional_fraction_takes :
    Takes (optional (both (one (· = '.')) (run1 Char.isDigit))) Numeral.spanFraction := by
  intro position cs
  unfold Numeral.spanFraction
  split
  · rename_i r
    have hpoint : one (· = '.') ⟨position, '.' :: r⟩ = .ok (['.'], ⟨position + '.'.utf8Size, r⟩) :=
      one_of_true rfl
    dsimp only
    split
    · rename_i hdigits
      exact optional_of_stuck (both_of_stuck_behind hpoint (run1_of_no_digits hdigits))
    · rename_i hdigits
      rw [optional_of_ok (both_of_ok hpoint (run1_of_digits hdigits))]
      simp [Nat.add_assoc]
  · rename_i hpoint
    cases cs with
    | nil => exact optional_of_stuck (both_of_stuck one_nil)
    | cons c r =>
      have hc : c ≠ '.' := fun h => hpoint r (h ▸ rfl)
      exact optional_of_stuck (both_of_stuck (one_of_false (by simpa using hc)))

theorem optional_exponent_takes :
    Takes (optional (both (one fun c => c = 'e' || c = 'E')
      (both (optional (one fun c => c = '+' || c = '-')) (run1 Char.isDigit))))
      Numeral.spanExponent := by
  intro position cs
  cases cs with
  | nil => exact optional_of_stuck (both_of_stuck one_nil)
  | cons c r =>
    unfold Numeral.spanExponent
    dsimp only
    have hsign := optional_sign_takes (position + c.utf8Size) r
    cases hletter : (c = 'e' || c = 'E' : Bool) with
    | false =>
      rw [Bool.false_and, if_neg (by decide)]
      exact optional_of_stuck (both_of_stuck (one_of_false hletter))
    | true =>
      have hone : one (fun c => c = 'e' || c = 'E') ⟨position, c :: r⟩ =
        .ok ([c], ⟨position + c.utf8Size, r⟩) := one_of_true hletter
      by_cases hdigits : (spanDigits (Numeral.spanSign r).2).1.isEmpty
      · rw [if_neg (by simp [hdigits])]
        exact optional_of_stuck
          (both_of_stuck_behind hone (both_of_stuck_behind hsign (run1_of_no_digits hdigits)))
      · rw [if_pos (by simpa using hdigits),
          optional_of_ok (both_of_ok hone (both_of_ok hsign (run1_of_digits hdigits)))]
        simp [Nat.add_assoc]

/-- A numeral is read as its span. Where there is none, the reader gets stuck behind the sign. -/
theorem numeral_of_span? {position : Nat} {cs text rest : List Char} {n : Numeral}
    (h : Numeral.span? cs = some (n, text, rest)) :
    numeral ⟨position, cs⟩ = .ok (text, ⟨position + utf8Length text, rest⟩) := by
  unfold Numeral.span? at h
  dsimp only at h
  split at h
  · cases h
  · rename_i hdigits
    cases h
    rw [numeral, both_of_ok (optional_minus_takes _ _) (both_of_ok (run1_of_digits hdigits)
      (both_of_ok (optional_fraction_takes _ _) (optional_exponent_takes _ _)))]
    simp [Nat.add_assoc]

theorem numeral_of_span?_eq_none (position : Nat) {cs : List Char}
    (h : Numeral.span? cs = none) :
    ∃ place, numeral ⟨position, cs⟩ = stuck place := by
  unfold Numeral.span? at h
  dsimp only at h
  split at h
  · rename_i hdigits
    exact ⟨_, both_of_stuck_behind (optional_minus_takes _ _)
      (both_of_stuck (run1_of_no_digits hdigits))⟩
  · cases h

/-! ## Tokens -/

/-- The token of a lexeme, and the place behind it. -/
def ofLexeme (position : Nat) {cs : List Char} (l : Lexeme cs) : Located Token × Cursor :=
  (⟨l.token, ⟨position, position + utf8Length l.text⟩⟩, ⟨position + utf8Length l.text, l.rest⟩)

/-- The lexeme that is scanned is read; where there is none, the reader gets stuck. -/
def ofScanned (position : Nat) {cs : List Char} :
    Except ParseError (Option (Lexeme cs)) → Except Stop (Located Token × Cursor)
  | .error e => .error (.failed (.language e))
  | .ok none => stuck ⟨position, cs⟩
  | .ok (some l) => .ok (ofLexeme position l)

section

variable {position : Nat} {c : Char} {r : List Char}

theorem number_of_span? (position : Nat) {cs text rest : List Char} {n : Numeral}
    (h : Numeral.span? cs = some (n, text, rest)) :
    number ⟨position, cs⟩ = (do
      let token ← orFail (Lexeme.numeralToken n text position)
      .ok (⟨token, ⟨position, position + utf8Length text⟩⟩,
        ⟨position + utf8Length text, rest⟩)) := by
  have hwhole : Numeral.span? (text ++ ([] ++ rest)) = some (n, text, [] ++ rest) := by
    rwa [List.nil_append, Numeral.span?_append h]
  have halone := Numeral.span?_endsEarlier hwhole
  rw [List.append_nil] at halone
  rw [number, numeral_of_span? h]
  show (orFail (numberOf text position) >>= _) = _
  rw [numberOf, halone]

theorem number_of_span?_eq_none (position : Nat) {cs : List Char}
    (h : Numeral.span? cs = none) :
    ∃ place, number ⟨position, cs⟩ = stuck place := by
  obtain ⟨place, hstuck⟩ := numeral_of_span?_eq_none position h
  exact ⟨place, bind_eq_error.2 (.inl hstuck)⟩

theorem string_of_quote (position : Nat) (r : List Char) (h : c = '"' ∨ c = '\x27') :
    string ⟨position, c :: r⟩ = (do
      let (value, text, rest) ← orFail (Lexeme.stringBody position c (position + c.utf8Size) r)
      .ok (⟨.string (String.ofList value), ⟨position, position + utf8Length (c :: text)⟩⟩,
        ⟨position + utf8Length (c :: text), rest⟩)) := by
  rw [string, character_of_true (by simpa using h)]
  show (orFail (Lexeme.stringBody position c (position + c.utf8Size) r) >>= _) = _
  cases hbody : Lexeme.stringBody position c (position + c.utf8Size) r with
  | error e => rfl
  | ok body =>
    obtain ⟨value, text, rest⟩ := body
    obtain rfl := Lexeme.stringBody_append hbody
    refine bind_eq_ok.2 ⟨_, rfl, bind_eq_ok.2 ⟨_, taken_append text rest, ?_⟩⟩
    simp [Nat.add_assoc]

theorem string_of_no_quote (h : ¬(c = '"' ∨ c = '\x27')) :
    string ⟨position, c :: r⟩ = stuck ⟨position, c :: r⟩ := by
  rw [string, character_of_false (by simpa using h)]
  rfl

/-- A run of some characters of a class and then of others is a run of the class. -/
theorem takeWhile_takeWhile_behind {p q : Char → Bool} (h : ∀ c, p c = true → q c = true)
    (cs : List Char) :
    cs.takeWhile p ++ (cs.dropWhile p).takeWhile q = cs.takeWhile q ∧
      (cs.dropWhile p).dropWhile q = cs.dropWhile q := by
  induction cs with
  | nil => exact ⟨rfl, rfl⟩
  | cons c cs ih =>
    by_cases hc : p c = true
    · simpa [hc, h c hc] using ih
    · simp [hc]

theorem word_of_start (h : isIdentifierStart c = true) :
    word ⟨position, c :: r⟩ = .ok
      (⟨.ofWord (String.ofList (c :: r.takeWhile isIdentifierPart)),
        ⟨position, position + utf8Length (c :: r.takeWhile isIdentifierPart)⟩⟩,
        ⟨position + utf8Length (c :: r.takeWhile isIdentifierPart),
          r.dropWhile isIdentifierPart⟩) := by
  have hpart := isIdentifierPart_of_start h
  obtain ⟨htake, hdrop⟩ :=
    takeWhile_takeWhile_behind (fun _ => isIdentifierPart_of_start) (c :: r)
  have hrun : both (run1 isIdentifierStart) (run isIdentifierPart) ⟨position, c :: r⟩ =
      .ok (c :: r.takeWhile isIdentifierPart,
        ⟨position + utf8Length (c :: r.takeWhile isIdentifierPart),
          r.dropWhile isIdentifierPart⟩) := by
    have hsome : ((c :: r).takeWhile isIdentifierStart).isEmpty = false := by simp [h]
    rw [both_of_ok (if_neg (by simp [hsome])) rfl]
    dsimp only [Cursor.past]
    rw [Nat.add_assoc, ← utf8Length_append, htake, hdrop, List.takeWhile_cons_of_pos hpart,
      List.dropWhile_cons_of_pos hpart]
  rw [word, hrun]
  rfl

theorem word_of_no_start (h : isIdentifierStart c = false) :
    word ⟨position, c :: r⟩ = stuck ⟨position, c :: r⟩ := by
  have hrun : run1 isIdentifierStart ⟨position, c :: r⟩ = stuck ⟨position, c :: r⟩ :=
    if_pos (by simp [h])
  exact bind_eq_error.2 (.inl (both_of_stuck hrun))

theorem symbol_of_some (text rest : List Char) {symbol? : List Char → Option Symbol}
    {s : Symbol} (h : symbol? text = some s) :
    symbol text.length symbol? ⟨position, text ++ rest⟩ =
      .ok (⟨.symbol s, ⟨position, position + utf8Length text⟩⟩,
        ⟨position + utf8Length text, rest⟩) := by
  refine bind_eq_ok.2 ⟨_, taken_append text rest, ?_⟩
  dsimp only
  rw [h]

theorem symbol_of_none (text rest : List Char) {symbol? : List Char → Option Symbol}
    (h : symbol? text = none) :
    symbol text.length symbol? ⟨position, text ++ rest⟩ = stuck ⟨position, text ++ rest⟩ := by
  refine bind_eq_error.2 (.inr ⟨_, taken_append text rest, ?_⟩)
  dsimp only
  rw [h]
  rfl

theorem single_eq :
    single ⟨position, c :: r⟩ = ofScanned position (.ok (Lexeme.ofSingle? c r)) := by
  rw [Lexeme.ofSingle?]
  cases hs : Lexeme.single? c with
  | none => exact symbol_of_none [c] r hs
  | some s => exact symbol_of_some [c] r hs

theorem symbols_eq :
    either pair single ⟨position, c :: r⟩ =
      ofScanned position (.ok (Lexeme.ofPair? c r <|> Lexeme.ofSingle? c r)) := by
  cases r with
  | nil => exact (either_of_stuck rfl).trans single_eq
  | cons d r =>
    rw [Lexeme.ofPair?]
    cases hs : Lexeme.pair? c d with
    | none => exact (either_of_stuck (symbol_of_none [c, d] r hs)).trans single_eq
    | some s => exact either_of_ok (symbol_of_some [c, d] r hs)

/-- The alternatives read the lexeme that is scanned. -/
theorem token_eq (position : Nat) (cs : List Char) :
    token ⟨position, cs⟩ = ofScanned position (Lexeme.scan? position cs) := by
  unfold Lexeme.scan?
  split
  · rfl
  · rename_i c r
    split
    · rename_i n text rest hspan
      have hnumber := number_of_span? position hspan
      cases htoken : Lexeme.numeralToken n text position with
      | error e =>
        rw [htoken] at hnumber
        exact either_of_failed hnumber
      | ok t =>
        rw [htoken] at hnumber
        exact either_of_ok hnumber
    · rename_i hspan
      obtain ⟨place, hnumber⟩ := number_of_span?_eq_none position hspan
      rw [token, either_of_stuck hnumber]
      by_cases hquote : c = '"' ∨ c = '\x27'
      · rw [if_pos hquote]
        have hstring := string_of_quote position r hquote
        split
        · rename_i hbody
          rw [hbody] at hstring
          exact either_of_failed hstring
        · rename_i hbody
          rw [hbody] at hstring
          exact either_of_ok hstring
      · rw [if_neg hquote, either_of_stuck (string_of_no_quote hquote)]
        by_cases hstart : isIdentifierStart c = true
        · rw [if_pos hstart]
          exact either_of_ok (word_of_start hstart)
        · rw [if_neg hstart, either_of_stuck (word_of_no_start (by simpa using hstart))]
          exact symbols_eq

end

/-! ## The loop -/

/-- Tokens that are read one after the other, from one place to another. -/
inductive Reads : Cursor → List (Located Token) → Cursor → Prop
  | nil {here : Cursor} : Reads here [] here
  | cons {here behind last : Cursor} {t : Located Token} {ts : List (Located Token)}
      (h : token here.unblanked = .ok (t, behind)) (tail : Reads behind ts last) :
      Reads here (t :: ts) last

theorem Cursor.exists_blanks (here : Cursor) :
    ∃ blanks, (∀ c ∈ blanks, isBlank c = true) ∧ here.ahead = blanks ++ here.unblanked.ahead ∧
      here.unblanked.position = here.position + utf8Length blanks ∧
      ∀ c ∈ here.unblanked.ahead.head?, isBlank c = false := by
  refine ⟨here.ahead.takeWhile isBlank, fun c hc => List.mem_takeWhile_imp hc,
    List.takeWhile_append_dropWhile.symm, rfl, ?_⟩
  exact (of_takeWhile (rfl : here.ahead.takeWhile isBlank = _) rfl).2

/-- A token is cut off at the place where it is read. -/
theorem exists_word_of_token {here behind : Cursor} {t : Located Token}
    (h : token here = .ok (t, behind)) (hstart : ∀ c ∈ here.ahead.head?, isBlank c = false) :
    ∃ word, here.ahead = word ++ behind.ahead ∧ Lexes word behind.ahead t.value ∧
      behind.position = here.position + utf8Length word ∧
      t.extent = ⟨here.position, behind.position⟩ := by
  obtain ⟨position, cs⟩ := here
  rw [token_eq] at h
  cases hscan : Lexeme.scan? position cs with
  | error e =>
    rw [hscan] at h
    cases h
  | ok found =>
    rw [hscan] at h
    cases found with
    | none => cases h
    | some l =>
      cases h
      refine ⟨l.text, l.split.symm, (Lexeme.byKind_of_scan? hscan).lexes ?_, rfl, rfl⟩
      intro c hc
      refine hstart c ?_
      rw [← l.split]
      obtain ⟨c', text, htext⟩ := List.exists_cons_of_ne_nil l.nonempty
      rw [htext] at hc ⊢
      exact hc

theorem tokensAt_unblanked (here : Cursor) :
    tokensAt here.position here.ahead =
      tokensAt here.unblanked.position here.unblanked.ahead := by
  obtain ⟨blanks, hblanks, hahead, hposition, -⟩ := here.exists_blanks
  rw [hahead, hposition]
  exact tokensAt_blanks hblanks

/-- The tokens from a place on are the one that is read there and those behind it. -/
theorem tokensAt_of_token {here behind : Cursor} {t : Located Token}
    (h : token here.unblanked = .ok (t, behind)) :
    tokensAt here.position here.ahead =
      (tokensAt behind.position behind.ahead).bind fun ts => .ok (t :: ts) := by
  obtain ⟨-, -, -, -, hstart⟩ := here.exists_blanks
  obtain ⟨word, hahead, hlexes, hposition, hextent⟩ := exists_word_of_token h hstart
  obtain ⟨value, extent⟩ := t
  rw [tokensAt_unblanked, hahead, hlexes.tokensAt, ← hposition, ← hextent]

theorem Reads.tokensAt {here last : Cursor} {read : List (Located Token)}
    (h : Reads here read last) :
    Language.tokensAt here.position here.ahead =
      (Language.tokensAt last.position last.ahead).bind fun ts => .ok (read ++ ts) := by
  induction h with
  | @nil here => cases Language.tokensAt here.position here.ahead <;> rfl
  | @cons here behind last t ts h tail ih =>
    rw [tokensAt_of_token h, ih]
    cases Language.tokensAt last.position last.ahead <;> rfl

/-- The text in front of what is not read has the tokens that are read. -/
theorem Reads.cut {here last : Cursor} {read : List (Located Token)} (h : Reads here read last) :
    ∃ front, here.ahead = front ++ last.unblanked.ahead ∧
      last.unblanked.position = here.position + utf8Length front ∧
      Cut here.position front read := by
  induction h with
  | @nil here =>
    obtain ⟨blanks, hblanks, hahead, hposition, -⟩ := here.exists_blanks
    have hcut : Cut here.position (blanks ++ []) [] := .blanks hblanks .nil
    rw [List.append_nil] at hcut
    exact ⟨blanks, hahead, hposition, hcut⟩
  | @cons here behind last t ts h tail ih =>
    obtain ⟨blanks, hblanks, hahead, hposition, hstart⟩ := here.exists_blanks
    obtain ⟨word, hword, hlexes, hbehind, hextent⟩ := exists_word_of_token h hstart
    obtain ⟨front, hfront, hlast, hcut⟩ := ih
    obtain ⟨value, extent⟩ := t
    refine ⟨blanks ++ (word ++ front), ?_, ?_, .blanks hblanks ?_⟩
    · rw [hahead, hword, hfront]
      simp
    · rw [hlast, hbehind, hposition]
      simp [Nat.add_assoc]
    · -- The token is the same one if the text ends in front of what is not read.
      rw [hfront] at hlexes
      rw [hbehind] at hextent hcut
      rw [← hposition]
      obtain rfl : extent = _ := hextent
      exact .lexeme hlexes.endsEarlier hcut

/-- Reading comes to an end: behind the tokens that are read, there is none. -/
structure Halts (here : Cursor) (read : List (Located Token)) (last : Cursor) (stop : Stop) :
    Prop where
  reads : Reads here read last
  stops : token last.unblanked = .error stop

/-- The loop reads on until a reader is stuck or fails. -/
theorem exists_halts (here : Cursor) :
    ∃ read last stop, Halts here read last stop ∧
      tokens here = match stop with
        | .stuck _ => .ok (read, last)
        | .failed fault => .error (.failed fault) := by
  fun_induction tokens here with
  | case1 here fault hstuck => exact ⟨[], here, _, ⟨.nil, hstuck⟩, rfl⟩
  | case2 here fault hfailed => exact ⟨[], here, _, ⟨.nil, hfailed⟩, rfl⟩
  | case3 here t behind htoken hlt ih =>
    obtain ⟨read, last, stop, ⟨hreads, hstops⟩, htokens⟩ := ih
    refine ⟨t :: read, last, stop, ⟨.cons htoken hreads, hstops⟩, ?_⟩
    rw [htokens]
    cases stop <;> rfl
  | case4 here t behind htoken hle =>
    obtain ⟨blanks, -, hahead, -, hstart⟩ := here.exists_blanks
    obtain ⟨word, hword, hlexes, -, -⟩ := exists_word_of_token htoken hstart
    obtain ⟨⟨c, r, rfl, -⟩, -⟩ := hlexes
    refine absurd ?_ hle
    rw [hahead, hword]
    simp
    omega

/-- A reader of tokens that is stuck reports the place where it started. -/
theorem fault_of_stuck {here : Cursor} {fault : Fault} (h : token here = .error (.stuck fault)) :
    fault = here.fault := by
  obtain ⟨position, cs⟩ := here
  rw [token_eq] at h
  cases hscan : Lexeme.scan? position cs with
  | error e =>
    rw [hscan] at h
    cases h
  | ok found =>
    rw [hscan] at h
    cases found with
    | none =>
      cases h
      rfl
    | some l => cases h

/-- Where no token is read although text is left, that is an error of the language. -/
theorem tokensAt_of_stop {here : Cursor} {stop : Stop} (h : token here.unblanked = .error stop)
    (hleft : here.unblanked.ahead ≠ []) :
    ∃ e, tokensAt here.position here.ahead = .error e ∧ stop.fault = .language e := by
  obtain ⟨-, -, -, -, hstart⟩ := here.exists_blanks
  rw [tokensAt_unblanked]
  generalize here.unblanked = place at h hleft hstart
  obtain ⟨position, cs⟩ := place
  obtain ⟨c, r, rfl⟩ := List.exists_cons_of_ne_nil hleft
  have hblank : isBlank c = false := hstart c rfl
  rw [tokensAt, if_neg (by simp [hblank])]
  rw [token_eq] at h
  cases hscan : Lexeme.scan? position (c :: r) with
  | error e =>
    rw [hscan] at h
    cases h
    exact ⟨e, rfl, rfl⟩
  | ok found =>
    rw [hscan] at h
    cases found with
    | none =>
      cases h
      exact ⟨_, rfl, rfl⟩
    | some l => cases h

namespace Halts

variable {source : String} {read : List (Located Token)} {last : Cursor} {stop : Stop}

/-- Where all of a text is read, its tokens are those that are read. -/
theorem tokenize_eq_ok (h : Halts ⟨0, source.toList⟩ read last stop)
    (hleft : last.unblanked.ahead = []) : Language.tokenize source = .ok read := by
  have htokens := h.reads.tokensAt
  rw [tokensAt_unblanked last, hleft, Language.tokensAt] at htokens
  rw [Language.tokenize, htokens]
  simp [Except.bind]

/-- Where text is left, what is wrong with it is what stopped the reading. -/
theorem tokenize_eq_error (h : Halts ⟨0, source.toList⟩ read last stop)
    (hleft : last.unblanked.ahead ≠ []) :
    ∃ e, Language.tokenize source = .error e ∧ stop.fault = .language e := by
  obtain ⟨e, htokens, hfault⟩ := tokensAt_of_stop h.stops hleft
  refine ⟨e, ?_, hfault⟩
  rw [Language.tokenize, h.reads.tokensAt, htokens]
  rfl

end Halts

/-- The tokens that are read are those of the whole text if nothing is left of it. -/
theorem exists_halts_of_source (source : String) :
    ∃ read last stop, Halts ⟨0, source.toList⟩ read last stop ∧
      tokenize source =
        if last.unblanked.ahead.isEmpty then .ok read else .error stop.fault := by
  obtain ⟨read, last, stop, hhalts, htokens⟩ := exists_halts ⟨0, source.toList⟩
  refine ⟨read, last, stop, hhalts, ?_⟩
  rw [tokenize, htokens]
  cases stop with
  | stuck fault =>
    rw [Stop.fault, fault_of_stuck hhalts.stops]
  | failed fault =>
    have hleft : ¬last.unblanked.ahead.isEmpty := by
      intro hleft
      have hstops := hhalts.stops
      generalize last.unblanked = place at hleft hstops
      obtain ⟨position, cs⟩ := place
      obtain rfl := List.isEmpty_iff.1 hleft
      cases hstops
    rw [if_neg hleft]

/-- The readers find the tokens of a text, or else what is wrong with it, and never a mere place. -/
theorem tokenize_eq (source : String) :
    tokenize source = (Language.tokenize source).mapError .language := by
  obtain ⟨read, last, stop, hhalts, htokens⟩ := exists_halts_of_source source
  rw [htokens]
  by_cases hleft : last.unblanked.ahead = []
  · rw [hhalts.tokenize_eq_ok hleft, if_pos (by simp [hleft])]
    rfl
  · obtain ⟨e, herror, hfault⟩ := hhalts.tokenize_eq_error hleft
    rw [herror, hfault, if_neg (by simpa using hleft)]
    rfl

end Criteria.Language.Readers
