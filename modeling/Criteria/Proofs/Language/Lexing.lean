import Criteria.Language.Lexeme
import Criteria.Proofs.Number.DecimalText
import Criteria.Proofs.Schema.Resolution
import Criteria.Text.Basic

/-! # Texts and their tokens

Whatever is cut off a text is a lexeme of some kind (`Lexeme.byKind_of_scan?`), so names in its
tokens are words and its floats are finite (`tokensAt_lexical`). The other way round, a text that is
put together from lexemes, none of which can go on into the next, is cut into those lexemes again
(`Tokenized`).
-/

set_option autoImplicit false

namespace Criteria.Language

open Number Text

/-! ## Words -/

/-- An identifier or a reserved word. -/
def IsWord (name : String) : Prop :=
  ∃ c r, name.toList = c :: r ∧ isIdentifierStart c = true ∧ ∀ d ∈ r, isIdentifierPart d = true

/-- The characters of a word, checked one by one. -/
theorem isWord_of_toList {name : String} {c : Char} {r : List Char} (hname : name.toList = c :: r)
    (h : (isIdentifierStart c && r.all isIdentifierPart) = true) : IsWord name := by
  obtain ⟨hstart, hpart⟩ := Bool.and_eq_true_iff.1 h
  exact ⟨c, r, hname, hstart, List.all_eq_true.1 hpart⟩

theorem Keyword.isWord_text (k : Keyword) : IsWord k.text := by
  cases k <;> exact isWord_of_toList rfl (by decide +kernel)

theorem Keyword.text_of_ofText? {text : String} {k : Keyword} (h : ofText? text = some k) :
    k.text = text := by
  have htext := List.find?_some h
  exact of_decide_eq_true htext

/-- Every word is a name behind a dot. -/
theorem Token.name?_ofWord (word : String) : (ofWord word).name? = some word := by
  unfold ofWord
  split
  · rename_i k hk
    rw [← Keyword.text_of_ofText? hk]
    rfl
  · rfl

/-- A token that a text can have: identifiers are words, and floats are finite. -/
def Token.Lexical : Token → Prop
  | identifier name => IsWord name
  | float x => x.isFinite = true
  | _ => True

theorem Token.Lexical.isWord {t : Token} (h : t.Lexical) {name : String}
    (hname : t.name? = some name) : IsWord name := by
  cases t with
  | identifier _ =>
    cases hname
    exact h
  | keyword k =>
    cases hname
    exact k.isWord_text
  | _ => cases hname

theorem Token.lexical_ofWord {word : String} (h : IsWord word) : (ofWord word).Lexical := by
  unfold ofWord
  split
  · exact trivial
  · exact h

/-! ## How lexemes are found -/

namespace Lexeme

/-- Wherever a numeral stands, it is an integer that fits or the finite number nearest to it. -/
theorem numeralToken_eq_ok {n : Numeral} {text : List Char} {position : Nat} {t : Token} :
    numeralToken n text position = .ok t ↔
      (n.isInteger = true ∧ ∃ word, Word.ofInt? 64 n.toInt = some word ∧ t = .integer word) ∨
        n.isInteger = false ∧ (n.toBinary .double).isFinite = true ∧
          t = .float (n.toBinary .double) := by
  unfold numeralToken
  cases n.isInteger with
  | true =>
    cases Word.ofInt? 64 n.toInt with
    | none => simp
    | some word => simp [@eq_comm Token t]
  | false =>
    by_cases hfinite : (n.toBinary .double).isFinite = true
    · simp [hfinite, @eq_comm Token t]
    · simp [hfinite]

theorem isWord_takeWhile {c : Char} (hc : isIdentifierStart c = true) (r : List Char) :
    IsWord (String.ofList (c :: r.takeWhile isIdentifierPart)) := by
  refine ⟨c, _, String.toList_ofList, hc, ?_⟩
  intro d hd
  exact List.all_eq_true.1 List.all_takeWhile d hd

/-- The inside of a string is the same wherever it stands and whatever follows it. -/
theorem stringBody_anywhere {opening position : Nat} {quote : Char}
    {cs value text rest : List Char}
    (h : stringBody opening quote position cs = .ok (value, text, rest))
    (opening' position' : Nat) (behind : List Char) :
    stringBody opening' quote position' (text ++ behind) = .ok (value, text, behind) := by
  fun_induction stringBody opening quote position cs generalizing value text rest position' with
  | case1 => cases h
  | case2 position r =>
    cases h
    rw [List.singleton_append, stringBody.eq_def]
    dsimp only
    rw [if_pos rfl]
  | case3 => cases h
  | case4 => cases h
  | case5 position e r d hu hq ih =>
    obtain ⟨⟨value, text, rest⟩, hbody, h⟩ := bind_eq_ok.1 h
    cases h
    have hbehind := ih hbody (position' + 1 + e.utf8Size)
    rw [List.cons_append, List.cons_append, stringBody.eq_def]
    dsimp only
    rw [if_neg hq, if_pos rfl, hu]
    exact bind_eq_ok.2 ⟨_, hbehind, rfl⟩
  | case6 position c r hq hc ih =>
    obtain ⟨⟨value, text, rest⟩, hbody, h⟩ := bind_eq_ok.1 h
    cases h
    have hbehind := ih hbody (position' + c.utf8Size)
    rw [List.cons_append, stringBody.eq_def]
    dsimp only
    rw [if_neg hq, if_neg hc]
    exact bind_eq_ok.2 ⟨_, hbehind, rfl⟩

/-- The characters are the lexeme in front of `rest`, by the rule for its kind. -/
inductive ByKind : List Char → List Char → Token → Prop
  | numeral {n : Numeral} {text rest : List Char} {t : Token}
      (hspan : Numeral.span? (text ++ rest) = some (n, text, rest))
      (htoken : ∀ position, numeralToken n text position = .ok t) : ByKind text rest t
  | string {quote : Char} {value text rest : List Char} (hquote : quote = '"' ∨ quote = '\x27')
      (hbody : ∀ opening position,
        stringBody opening quote position (text ++ rest) = .ok (value, text, rest)) :
      ByKind (quote :: text) rest (.string (String.ofList value))
  | word {name : String} {rest : List Char} (hword : IsWord name)
      (hrest : ∀ c ∈ rest.head?, isIdentifierPart c = false) :
      ByKind name.toList rest (.ofWord name)
  | pair {c d : Char} {rest : List Char} {s : Symbol} (h : pair? c d = some s) :
      ByKind [c, d] rest (.symbol s)
  | single {c : Char} {rest : List Char} {s : Symbol} (h : single? c = some s)
      (hrest : ∀ d ∈ rest.head?, pair? c d = none) : ByKind [c] rest (.symbol s)

theorem byKind_ofPair? {c : Char} {r : List Char} {l : Lexeme (c :: r)}
    (h : ofPair? c r = some l) : ByKind l.text l.rest l.token := by
  cases r with
  | nil => cases h
  | cons d r =>
    obtain ⟨s, hs, rfl⟩ := Option.map_eq_some_iff.1 h
    exact .pair hs

theorem byKind_ofSingle? {c : Char} {r : List Char} {l : Lexeme (c :: r)}
    (hpair : ofPair? c r = none) (h : ofSingle? c r = some l) :
    ByKind l.text l.rest l.token := by
  obtain ⟨s, hs, rfl⟩ := Option.map_eq_some_iff.1 h
  refine .single hs ?_
  intro d hd
  cases r with
  | nil => cases hd
  | cons d' r =>
    cases hd
    exact Option.map_eq_none_iff.1 hpair

/-- Whatever is cut off at the front of a text is a lexeme of some kind. -/
theorem byKind_of_scan? {position : Nat} {cs : List Char} {l : Lexeme cs}
    (h : scan? position cs = .ok (some l)) : ByKind l.text l.rest l.token := by
  unfold scan? at h
  split at h
  · cases h
  · rename_i c r
    -- The kinds in the order in which they are tried: numerals, strings, words, symbols.
    split at h
    · rename_i n text rest hspan
      obtain ⟨t, ht, h⟩ := bind_eq_ok.1 h
      cases h
      refine .numeral ?_ fun position => numeralToken_eq_ok.2 (numeralToken_eq_ok.1 ht)
      rw [Numeral.span?_append hspan]
      exact hspan
    · split at h
      · rename_i hquote
        split at h
        · cases h
        · rename_i value text rest hbody
          cases h
          exact .string hquote fun opening position =>
            stringBody_anywhere hbody opening position rest
      · split at h
        · rename_i hstart
          cases h
          have hrest := (of_takeWhile (rfl : r.takeWhile isIdentifierPart = _) rfl).2
          have hkind := ByKind.word (isWord_takeWhile hstart r) hrest
          rw [String.toList_ofList] at hkind
          exact hkind
        · rw [Option.orElse_eq_orElse, Option.orElse_eq_or] at h
          rcases Option.or_eq_some_iff.1 (Except.ok.inj h) with h | ⟨hpair, h⟩
          · exact byKind_ofPair? h
          · exact byKind_ofSingle? hpair h

theorem ByKind.lexical {word rest : List Char} {t : Token} (h : ByKind word rest t) :
    t.Lexical := by
  cases h with
  | numeral hspan htoken =>
    rcases numeralToken_eq_ok.1 (htoken 0) with ⟨-, word, -, rfl⟩ | ⟨-, hfinite, rfl⟩
    · exact trivial
    · exact hfinite
  | string hquote hbody => exact trivial
  | word hword hrest => exact Token.lexical_ofWord hword
  | pair h => exact trivial
  | single h hrest => exact trivial

end Lexeme

/-- The tokens of a text are such as a text can have. -/
theorem tokensAt_lexical {position : Nat} {cs : List Char} {ts : List (Located Token)}
    (h : tokensAt position cs = .ok ts) : ∀ t ∈ ts, t.value.Lexical := by
  fun_induction tokensAt position cs generalizing ts with
  | case1 =>
    cases h
    simp
  | case2 position c r hblank ih => exact ih h
  | case3 => cases h
  | case4 => cases h
  | case5 position c r hblank lexeme hscan stop =>
    rename_i ih
    obtain ⟨tokens, htokens, h⟩ := bind_eq_ok.1 h
    cases h
    intro t ht
    rcases List.mem_cons.1 ht with rfl | ht
    · exact (Lexeme.byKind_of_scan? hscan).lexical
    · exact ih htokens t ht

/-! ## Lexemes -/

/-- The characters are cut off as a lexeme in front of `rest`. -/
structure Lexes (word rest : List Char) (t : Token) : Prop where
  start : ∃ c r, word = c :: r ∧ isBlank c = false
  scanned : ∀ position, ∃ l, Lexeme.scan? position (word ++ rest) = .ok (some l) ∧
    l.token = t ∧ l.rest = rest

theorem Lexes.exists_lexeme {word rest : List Char} {t : Token} (h : Lexes word rest t)
    (position : Nat) :
    ∃ l, Lexeme.scan? position (word ++ rest) = .ok (some l) ∧
      l.token = t ∧ l.text = word ∧ l.rest = rest := by
  obtain ⟨l, hscan, htoken, hrest⟩ := h.scanned position
  have hsplit := l.split
  rw [hrest] at hsplit
  exact ⟨l, hscan, htoken, List.append_cancel_right hsplit, hrest⟩

/-- The first token is that of the lexeme, and the others are those of what follows it. -/
theorem Lexes.tokensAt {word rest : List Char} {t : Token} (h : Lexes word rest t)
    (position : Nat) :
    Language.tokensAt position (word ++ rest) =
      (Language.tokensAt (position + utf8Length word) rest).bind fun tokens =>
        .ok (⟨t, ⟨position, position + utf8Length word⟩⟩ :: tokens) := by
  obtain ⟨l, hscan, htoken, htext, hrest⟩ := h.exists_lexeme position
  obtain ⟨⟨c, r, rfl, hblank⟩, -⟩ := h
  have hscan : Lexeme.scan? position (c :: (r ++ rest)) = .ok (some l) := hscan
  rw [List.cons_append, Language.tokensAt, if_neg (by simp [hblank]), hscan]
  dsimp only
  rw [htoken, htext, hrest]
  rfl

/-- A text that is put together from blanks and lexemes, and the tokens of the lexemes. -/
inductive Tokenized : List Char → List Token → Prop
  | nil : Tokenized [] []
  | blank {c : Char} {cs : List Char} {ts : List Token} (h : isBlank c = true)
      (tail : Tokenized cs ts) : Tokenized (c :: cs) ts
  | lexeme {word rest : List Char} {t : Token} {ts : List Token} (h : Lexes word rest t)
      (tail : Tokenized rest ts) : Tokenized (word ++ rest) (t :: ts)

/-- A text that is put together from lexemes is cut into them again. -/
theorem Tokenized.tokensAt {cs : List Char} {ts : List Token} (h : Tokenized cs ts)
    (position : Nat) :
    ∃ located, Language.tokensAt position cs = .ok located ∧ located.map (·.value) = ts := by
  -- Along the pieces of the text; the position moves on by what each piece takes.
  induction h generalizing position with
  | nil => exact ⟨[], by rw [Language.tokensAt], rfl⟩
  | @blank c cs ts hblank tail ih =>
    obtain ⟨located, hlocated, hvalues⟩ := ih (position + c.utf8Size)
    refine ⟨located, ?_, hvalues⟩
    rw [Language.tokensAt, if_pos hblank]
    exact hlocated
  | @lexeme word rest t ts h tail ih =>
    obtain ⟨located, hlocated, hvalues⟩ := ih (position + utf8Length word)
    refine ⟨⟨t, ⟨position, position + utf8Length word⟩⟩ :: located, ?_, by simp [hvalues]⟩
    rw [h.tokensAt, hlocated]
    rfl

/-- A text that is a single lexeme is one token over the whole text. -/
theorem Lexes.tokenize {word : List Char} {t : Token} (h : Lexes word [] t) :
    Language.tokenize (String.ofList word) = .ok [⟨t, ⟨0, utf8Length word⟩⟩] := by
  have htokens := h.tokensAt 0
  rw [List.append_nil, Nat.zero_add, Language.tokensAt] at htokens
  rw [Language.tokenize, String.toList_ofList, htokens]
  rfl

/-! ## What stands at the front of a text -/

namespace Lexeme

variable {position : Nat}

theorem exists_scan?_numeral {cs text rest : List Char} {n : Numeral} {t : Token} (hne : cs ≠ [])
    (hspan : Numeral.span? cs = some (n, text, rest))
    (htoken : numeralToken n text position = .ok t) :
    ∃ l : Lexeme cs, scan? position cs = .ok (some l) ∧ l.token = t ∧ l.rest = rest := by
  obtain ⟨c, r, rfl⟩ := List.exists_cons_of_ne_nil hne
  rw [scan?]
  split
  · rename_i n' text' rest' hspan'
    rw [hspan] at hspan'
    cases hspan'
    exact ⟨_, bind_eq_ok.2 ⟨t, htoken, rfl⟩, rfl, rfl⟩
  · rename_i hspan'
    rw [hspan] at hspan'
    cases hspan'

/-- A text that starts with neither a digit nor a minus sign starts with no numeral. -/
theorem span?_eq_none {c : Char} {r : List Char} (hminus : c ≠ '-') (hdigit : c.isDigit = false) :
    Numeral.span? (c :: r) = none := by
  have hsign : Numeral.spanMinus (c :: r) = ([], c :: r) := by
    unfold Numeral.spanMinus
    split
    · rename_i heq
      cases heq
      exact absurd rfl hminus
    · rfl
  simp [Numeral.span?, hsign, spanDigits, hdigit]

variable {c : Char} {r : List Char} (hspan : Numeral.span? (c :: r) = none)
include hspan

theorem exists_scan?_string {value text rest : List Char} (hquote : c = '"' ∨ c = '\x27')
    (hbody : stringBody position c (position + c.utf8Size) r = .ok (value, text, rest)) :
    ∃ l : Lexeme (c :: r), scan? position (c :: r) = .ok (some l) ∧
      l.token = .string (String.ofList value) ∧ l.rest = rest := by
  rw [scan?]
  split
  · rename_i hspan'
    rw [hspan] at hspan'
    cases hspan'
  · rw [if_pos hquote]
    split
    · rename_i hbody'
      rw [hbody] at hbody'
      cases hbody'
    · rename_i hbody'
      rw [hbody] at hbody'
      cases hbody'
      exact ⟨_, rfl, rfl, rfl⟩

theorem exists_scan?_word (hquote : ¬(c = '"' ∨ c = '\x27')) (hstart : isIdentifierStart c = true) :
    ∃ l : Lexeme (c :: r), scan? position (c :: r) = .ok (some l) ∧
      l.token = .ofWord (String.ofList (c :: r.takeWhile isIdentifierPart)) ∧
      l.rest = r.dropWhile isIdentifierPart := by
  rw [scan?]
  split
  · rename_i hspan'
    rw [hspan] at hspan'
    cases hspan'
  · rw [if_neg hquote, if_pos hstart]
    exact ⟨_, rfl, rfl, rfl⟩

theorem exists_scan?_symbol (hquote : ¬(c = '"' ∨ c = '\x27'))
    (hstart : isIdentifierStart c = false) :
    scan? position (c :: r) = .ok (ofPair? c r <|> ofSingle? c r) := by
  rw [scan?]
  split
  · rename_i hspan'
    rw [hspan] at hspan'
    cases hspan'
  · rw [if_neg hquote, if_neg (by simp [hstart])]

end Lexeme

/-! ## Lexemes of each kind -/

/-- Whether a character starts neither a numeral nor a string nor a word and is no blank. -/
def isPunctuation (c : Char) : Bool :=
  !isBlank c && c ≠ '-' && !c.isDigit && c ≠ '"' && c ≠ '\x27' && !isIdentifierStart c

theorem exists_scan?_punctuation {c : Char} (h : isPunctuation c = true) (position : Nat)
    (r : List Char) :
    Lexeme.scan? position (c :: r) = .ok (Lexeme.ofPair? c r <|> Lexeme.ofSingle? c r) := by
  simp only [isPunctuation, Bool.and_eq_true, Bool.not_eq_true', decide_eq_true_eq] at h
  obtain ⟨⟨⟨⟨⟨-, hminus⟩, hdigit⟩, hquote⟩, hapostrophe⟩, hstart⟩ := h
  exact Lexeme.exists_scan?_symbol (Lexeme.span?_eq_none hminus hdigit)
    (not_or.2 ⟨hquote, hapostrophe⟩) hstart

theorem isBlank_of_isPunctuation {c : Char} (h : isPunctuation c = true) : isBlank c = false := by
  simp only [isPunctuation, Bool.and_eq_true, Bool.not_eq_true'] at h
  exact h.1.1.1.1.1

theorem isPunctuation_of_single? {c : Char} {s : Symbol} (h : Lexeme.single? c = some s) :
    isPunctuation c = true := by
  unfold Lexeme.single? at h
  split at h <;> first | decide | cases h

theorem isPunctuation_of_pair? {c d : Char} {s : Symbol} (h : Lexeme.pair? c d = some s) :
    isPunctuation c = true := by
  unfold Lexeme.pair? at h
  split at h <;> first | decide | cases h

theorem lexes_pair {c d : Char} {s : Symbol} (h : Lexeme.pair? c d = some s) (rest : List Char) :
    Lexes [c, d] rest (.symbol s) := by
  have hc := isPunctuation_of_pair? h
  refine ⟨⟨c, [d], rfl, isBlank_of_isPunctuation hc⟩, ?_⟩
  intro position
  refine ⟨⟨.symbol s, [c, d], rest, rfl, List.cons_ne_nil _ _⟩, ?_, rfl, rfl⟩
  show Lexeme.scan? position (c :: d :: rest) = _
  rw [exists_scan?_punctuation hc, Lexeme.ofPair?, h]
  rfl

theorem lexes_single {c : Char} {s : Symbol} (h : Lexeme.single? c = some s) {rest : List Char}
    (hrest : ∀ d ∈ rest.head?, Lexeme.pair? c d = none) : Lexes [c] rest (.symbol s) := by
  have hc := isPunctuation_of_single? h
  have hpair : Lexeme.ofPair? c rest = none := by
    cases rest with
    | nil => rfl
    | cons d r =>
      rw [Lexeme.ofPair?, hrest d rfl]
      rfl
  refine ⟨⟨c, [], rfl, isBlank_of_isPunctuation hc⟩, ?_⟩
  intro position
  refine ⟨⟨.symbol s, [c], rest, rfl, List.cons_ne_nil _ _⟩, ?_, rfl, rfl⟩
  show Lexeme.scan? position (c :: rest) = _
  rw [exists_scan?_punctuation hc, hpair, Lexeme.ofSingle?, h]
  rfl

/-- A letter or an underscore starts neither a numeral nor a string and is no blank. -/
theorem isIdentifierStart_spec {c : Char} (h : isIdentifierStart c = true) :
    isBlank c = false ∧ c ≠ '-' ∧ c.isDigit = false ∧ ¬(c = '"' ∨ c = '\x27') := by
  refine ⟨?_, ?_, ?_, ?_⟩
  · by_contra hblank
    have hall : ∀ c, isBlank c = true → isIdentifierStart c = false :=
      forall_isBlank.2 (by decide)
    rw [hall c (by simpa using hblank)] at h
    cases h
  · rintro rfl
    exact absurd h (by decide)
  · by_contra hdigit
    have hc := toNat_of_isDigit (by simpa using hdigit)
    -- Below 128 the letters are those of the alphabet, and digits come before them.
    have hletter : isLetter c = false := by
      rw [isLetter, if_pos (by omega)]
      simp only [Char.isAlpha, Char.isUpper, Char.isLower, Bool.or_eq_false_iff,
        Bool.and_eq_false_iff, decide_eq_false_iff_not, ge_iff_le, UInt32.le_iff_toNat_le]
      have htoNat : c.val.toNat = c.toNat := rfl
      rw [htoNat]
      simp
      omega
    have hunderscore : c ≠ '_' := by
      rintro rfl
      exact absurd hc (by decide)
    simp [isIdentifierStart, hletter, hunderscore] at h
  · rintro (rfl | rfl) <;> exact absurd h (by decide)

theorem lexes_word {name : String} (h : IsWord name) {rest : List Char}
    (hrest : ∀ c ∈ rest.head?, isIdentifierPart c = false) :
    Lexes name.toList rest (.ofWord name) := by
  obtain ⟨c, r, hname, hstart, hpart⟩ := h
  obtain ⟨hblank, hminus, hdigit, hquote⟩ := isIdentifierStart_spec hstart
  refine ⟨⟨c, r, hname, hblank⟩, ?_⟩
  intro position
  have hspan : Numeral.span? (c :: (r ++ rest)) = none := Lexeme.span?_eq_none hminus hdigit
  obtain ⟨l, hscan, htoken, hl⟩ := Lexeme.exists_scan?_word hspan hquote hstart
  rw [takeWhile_append_stop hpart hrest, ← hname, String.ofList_toList] at htoken
  rw [dropWhile_append_stop hpart hrest] at hl
  rw [hname]
  exact ⟨l, hscan, htoken, hl⟩

/-- A written numeral is cut off in front of whatever cannot go on with it. -/
theorem lexes_numeral {negative : Bool} {whole rest : List Char} {fraction : Option (List Char)}
    {t : Token} (hne : whole ≠ []) (hwhole : ∀ c ∈ whole, c.isDigit = true)
    (hfraction : ∀ places ∈ fraction, places ≠ [] ∧ ∀ c ∈ places, c.isDigit = true)
    (hrest : Numeral.Ended rest)
    (htoken : ∀ text position,
      Lexeme.numeralToken ⟨negative, whole, fraction, none⟩ text position = .ok t) :
    Lexes (Numeral.written negative whole fraction) rest t := by
  obtain ⟨c, r, rfl⟩ := List.exists_cons_of_ne_nil hne
  have hspan : Numeral.span? (Numeral.written negative (c :: r) fraction ++ rest) =
      some (⟨negative, c :: r, fraction, none⟩, Numeral.written negative (c :: r) fraction, rest) :=
    Numeral.span?_written hne hwhole hfraction hrest
  refine ⟨?_, fun position => ?_⟩
  · cases negative with
    | true => exact ⟨'-', _, rfl, by decide⟩
    | false =>
      refine ⟨c, _, rfl, ?_⟩
      by_contra hblank
      have hall : ∀ c, isBlank c = true → c.isDigit = false := forall_isBlank.2 (by decide)
      have hc := hwhole c List.mem_cons_self
      rw [hall c (by simpa using hblank)] at hc
      cases hc
  · refine Lexeme.exists_scan?_numeral ?_ hspan (htoken _ position)
    simp [Numeral.written]

theorem lexes_integer {n : Int} {word : Word 64} (h : word.toInt = n) {rest : List Char}
    (hrest : Numeral.Ended rest) : Lexes (toString n).toList rest (.integer word) := by
  have htext : (toString n).toList
      = Numeral.written (decide (n < 0)) (Nat.toDigits 10 n.natAbs) none := by
    rw [toList_toString_int]
    simp [Numeral.written]
  have hvalue : Numeral.toInt ⟨decide (n < 0), Nat.toDigits 10 n.natAbs, none, none⟩ = n := by
    simp only [Numeral.toInt, natOfDigits_toDigits, decide_eq_true_eq]
    split <;> omega
  have hplaces : ∀ places ∈ (none : Option (List Char)),
      places ≠ [] ∧ ∀ c ∈ places, c.isDigit = true := by simp
  rw [htext]
  refine lexes_numeral Nat.toDigits_ne_nil (fun c hc => isDigit_of_mem_toDigits hc) hplaces hrest
    fun text position => ?_
  have hinteger : Numeral.isInteger ⟨decide (n < 0), Nat.toDigits 10 n.natAbs, none, none⟩ = true :=
    rfl
  rw [Lexeme.numeralToken, if_pos hinteger, hvalue, ← h, Word.ofInt?_toInt]

/-- A written numeral with a fraction is cut off as the number of 64 bits nearest to it, if that is
finite. -/
theorem lexes_fraction {negative : Bool} {whole places rest : List Char} {x : Double}
    (hwhole : whole ≠ []) (hplaces : places ≠ [])
    (hdigits : ∀ c ∈ whole ++ places, c.isDigit = true)
    (hx : Numeral.toBinary .double ⟨negative, whole, some places, none⟩ = x)
    (hfinite : x.isFinite = true) (hrest : Numeral.Ended rest) :
    Lexes (Numeral.written negative whole (some places)) rest (.float x) := by
  refine lexes_numeral hwhole (fun c hc => hdigits c (List.mem_append_left _ hc)) ?_ hrest
    fun text position => ?_
  · intro places' h
    cases h
    exact ⟨hplaces, fun c hc => hdigits c (List.mem_append_right _ hc)⟩
  · rw [Lexeme.numeralToken, if_neg (by simp [Numeral.isInteger])]
    dsimp only
    rw [hx, if_pos hfinite]

/-- The text of a finite number of 64 bits is cut off as that number. -/
theorem lexes_double {x : Double} (hx : x.isFinite = true) {rest : List Char}
    (hrest : Numeral.Ended rest) :
    Lexes (Value.withDecimals x.plain).toList rest (.float x) := by
  obtain ⟨negative, whole, places, hwhole, hplaces, hdigits, htext, hvalue⟩ :=
    Binary.exists_numeral (by decide) hx
  rw [htext]
  exact lexes_fraction hwhole hplaces hdigits hvalue hx hrest

/-- A character that stands for itself between quotes is read as it stands. -/
theorem escaped_eq_self {c : Char} (hquote : c ≠ '"') (hbackslash : c ≠ '\\') (hline : c ≠ '\n')
    (hreturn : c ≠ '\r') (htab : c ≠ '\t') : escaped c = [c] := by
  unfold escaped
  split
  all_goals first | rfl | contradiction

theorem stringBody_escaped (opening position : Nat) (value rest : List Char) :
    ∃ text, Lexeme.stringBody opening '"' position (value.flatMap escaped ++ '"' :: rest)
      = .ok (value, text, rest) := by
  induction value generalizing position with
  | nil =>
    refine ⟨['"'], ?_⟩
    rw [List.flatMap_nil, List.nil_append, Lexeme.stringBody.eq_def]
    rfl
  | cons c value ih =>
    rw [List.flatMap_cons, List.append_assoc]
    -- A backslash and a letter are read as one character; all five escapes are alike.
    have hescape (e d : Char) (hd : Lexeme.unescape? e = some d) :
        ∃ text, Lexeme.stringBody opening '"' position
          ('\\' :: e :: (value.flatMap escaped ++ '"' :: rest)) = .ok (d :: value, text, rest) := by
      obtain ⟨text, htext⟩ := ih (position + 1 + e.utf8Size)
      refine ⟨'\\' :: e :: text, ?_⟩
      rw [Lexeme.stringBody.eq_def]
      dsimp only
      rw [if_neg (by decide), if_pos rfl, hd]
      exact bind_eq_ok.2 ⟨_, htext, rfl⟩
    by_cases hquote : c = '"'
    · subst hquote
      exact hescape '"' '"' rfl
    by_cases hbackslash : c = '\\'
    · subst hbackslash
      exact hescape '\\' '\\' rfl
    by_cases hline : c = '\n'
    · subst hline
      exact hescape 'n' '\n' rfl
    by_cases hreturn : c = '\r'
    · subst hreturn
      exact hescape 'r' '\r' rfl
    by_cases htab : c = '\t'
    · subst htab
      exact hescape 't' '\t' rfl
    · obtain ⟨text, htext⟩ := ih (position + c.utf8Size)
      rw [escaped_eq_self hquote hbackslash hline hreturn htab, List.singleton_append]
      refine ⟨c :: text, ?_⟩
      rw [Lexeme.stringBody.eq_def]
      dsimp only
      rw [if_neg hquote, if_neg hbackslash]
      exact bind_eq_ok.2 ⟨_, htext, rfl⟩

/-- Quoted text is cut off as that text. -/
theorem lexes_quoted (s : String) (rest : List Char) :
    Lexes (quoted s).toList rest (.string s) := by
  have htext : (quoted s).toList = '"' :: (s.toList.flatMap escaped ++ ['"']) := by
    simp [quoted]
  rw [htext]
  refine ⟨⟨'"', _, rfl, by decide⟩, ?_⟩
  intro position
  obtain ⟨text, hbody⟩ := stringBody_escaped position (position + '"'.utf8Size) s.toList rest
  have hspan : Numeral.span? ('"' :: (s.toList.flatMap escaped ++ '"' :: rest)) = none :=
    Lexeme.span?_eq_none (by decide) (by decide)
  have hscan := Lexeme.exists_scan?_string hspan (.inl rfl) hbody
  rw [String.ofList_toList] at hscan
  have happend : '"' :: (s.toList.flatMap escaped ++ ['"']) ++ rest
      = '"' :: (s.toList.flatMap escaped ++ '"' :: rest) := by simp
  rw [happend]
  exact hscan

end Criteria.Language
