import Criteria.Proofs.Language.Operands
import Criteria.Proofs.Number.Narrowing

/-! # Values read back from their text

The text of a finite number or of an instant is a single token, and the literal of the token is read
as a value again. An instant comes back if its year in universal time has four digits
(`Value.ofText?_text_of_instant`). A number of 32 bits is read as one of 64 bits first: it comes
back unless it is odd and that number lies half way to a neighbour (`Value.ofText?_text_of_float`).
-/

set_option autoImplicit false

namespace Criteria

open Number Text Calendar Criteria.Language

/-- The value of the type that a text of a single token is read as. -/
def Value.ofText? (type : ValueType) (text : String) : Option Value :=
  match tokenize text with
  | .ok [t] => (Grammar.literalOf? t.value).bind (ofLiteral? type)
  | _ => none

namespace Value

/-- A text that is a single lexeme is read as its literal is. -/
theorem ofText?_eq {type : ValueType} {text : String} {t : Token} {extent : Extent}
    (h : tokenize text = .ok [⟨t, extent⟩]) :
    ofText? type text = (Grammar.literalOf? t).bind (ofLiteral? type) := by
  rw [ofText?, h]

/-! ## Numbers of 32 bits -/

/-- The text of a finite number of 32 bits is cut off as a finite number of 64 bits. Narrowed, that
is the number again unless it lies half way to a neighbour and the last bit of the number is set. -/
theorem exists_lexes_single {x : Single} (hx : x.isFinite = true) :
    ∃ y : Double, y.isFinite = true ∧
      (y.convert .single = x ↔ ¬(y.IsMidway x ∧ x.isOdd = true)) ∧
      ∀ rest, Numeral.Ended rest → Lexes (float x).text.toList rest (.float y) := by
  obtain ⟨negative, whole, places, hwhole, hplaces, hdigits, htext, hvalue⟩ :=
    Binary.exists_numeral (by decide) hx
  obtain ⟨hfinite, hconvert⟩ := Numeral.convert_toBinary_iff Format.double_bisects_single
    (by decide) (by decide) hplaces hx hvalue
  refine ⟨_, hfinite, hconvert, ?_⟩
  intro rest hrest
  show Lexes (withDecimals x.plain).toList rest _
  rw [htext]
  exact lexes_fraction hwhole hplaces hdigits rfl hfinite hrest

/-- The text of a finite number of 32 bits is the token of a finite number of 64 bits. It is read as
the number again unless that of 64 bits lies half way between the number and a neighbour and the
last bit of the number is set. -/
theorem ofText?_text_of_float {x : Single} (hx : x.isFinite = true) :
    ∃ y : Double, y.isFinite = true ∧
      tokenize (float x).text = .ok [⟨.float y, ⟨0, utf8Length (float x).text.toList⟩⟩] ∧
      (ofText? .float (float x).text = some (float x) ↔
        ¬(y.IsMidway x ∧ x.isOdd = true)) := by
  obtain ⟨y, hfinite, hconvert, hlexes⟩ := exists_lexes_single hx
  have htoken := (hlexes [] (by simp [Numeral.Ended])).tokenize
  rw [String.ofList_toList] at htoken
  refine ⟨y, hfinite, htoken, ?_⟩
  rw [ofText?_eq htoken, ← hconvert]
  show (if (y.convert .single).isFinite then some (float (y.convert .single)) else none)
    = some (float x) ↔ y.convert .single = x
  constructor
  · intro h
    rw [Option.ite_none_right_eq_some] at h
    exact float.inj (Option.some.inj h.2)
  · intro h
    rw [h, if_pos hx]

/-- The number of 32 bits nearest to a tenth. -/
def tenth : Single := .signed false ⟨0x3dcccccd, by decide⟩

/-- The number of 64 bits nearest to a tenth. -/
def preciseTenth : Double := .signed false ⟨0x3fb999999999999a, by decide⟩

/-- The last bit of the tenth is set, but the token of its text is no midpoint. -/
theorem ofText?_text_tenth :
    tenth.isFinite = true ∧ ofText? .float (float tenth).text = some (float tenth) := by
  have hfinite : tenth.isFinite = true := by decide
  obtain ⟨y, -, htoken, hiff⟩ := ofText?_text_of_float hfinite
  have htenth : tokenize (float tenth).text = .ok [⟨.float preciseTenth, ⟨0, 3⟩⟩] := by
    decide +kernel
  obtain rfl : preciseTenth = y := by
    rw [htenth] at htoken
    simp only [Except.ok.injEq, List.cons.injEq, Located.mk.injEq, Token.float.injEq] at htoken
    exact htoken.1.1
  have hmidway : ¬ preciseTenth.IsMidway tenth := by decide +kernel
  exact ⟨hfinite, hiff.2 fun h => hmidway h.1⟩

/-- A number of 32 bits whose text reads as the number behind it: the token of the text is the
midpoint between the two. -/
def besideMidpoint : Single := .signed false ⟨0x15ae43fd, by decide⟩

theorem ofText?_text_besideMidpoint :
    besideMidpoint.isFinite = true ∧
      (float besideMidpoint).text = "0.00000000000000000000000007038531" ∧
      ofText? .float (float besideMidpoint).text
        = some (float (.signed false ⟨0x15ae43fe, by decide⟩)) ∧
      ofText? .float (float besideMidpoint).text ≠ some (float besideMidpoint) := by
  decide +kernel

/-! ## Instants -/

/-- The text of an instant is a single token, the string of the instant in universal time. -/
theorem tokenize_text_of_instant (i : Instant) :
    tokenize (timestamp i).text
      = .ok [⟨.string i.text, ⟨0, utf8Length (timestamp i).text.toList⟩⟩] := by
  have hquoted : (timestamp i).text = quoted i.text := (quoted_of_plain (isPlain_instant i)).symm
  have htokenize := (lexes_quoted i.text []).tokenize
  rw [String.ofList_toList] at htokenize
  rw [hquoted]
  exact htokenize

/-- What a text stands for as a timestamp or as-of date is an instant. Its own text is a single
token, which stands for the instant again in the years 0 to 9999 of universal time, and is rejected
in any other year. -/
theorem ofText?_text_of_instant {type : ValueType} (htype : type = .timestamp ∨ type = .asOf)
    {s : String} {v : Value} (h : ofLiteral? type (.string s) = some v) :
    ∃ i : Instant, v = timestamp i ∧
      tokenize v.text = .ok [⟨.string i.text, ⟨0, utf8Length v.text.toList⟩⟩] ∧
      ofText? type v.text = if 0 ≤ i.year ∧ i.year ≤ 9999 then some v else none := by
  have hread : ∀ s, ofLiteral? type (.string s) = (Instant.read? s).map timestamp := by
    rcases htype with rfl | rfl
    · exact fun _ => rfl
    · exact fun _ => rfl
  rw [hread] at h
  obtain ⟨i, hi, rfl⟩ := Option.map_eq_some_iff.1 h
  have htoken := tokenize_text_of_instant i
  refine ⟨i, rfl, htoken, ?_⟩
  rw [ofText?_eq htoken]
  show ofLiteral? type (.string i.text) = _
  rw [hread, Instant.read?_text_eq (Instant.read?_valid hi)]
  split <;> rfl

/-- A leap second with an offset is read back in universal time. -/
theorem ofText?_text_leapSecond :
    ∃ i : Instant, ofLiteral? .asOf (.string "2016-12-31T18:59:60.5-05:00") = some (timestamp i) ∧
      ofText? .asOf (timestamp i).text = some (timestamp i) := by
  have hread : ofLiteral? .asOf (.string "2016-12-31T18:59:60.5-05:00")
      = some (timestamp ⟨1483228799, 1500000000⟩) := by decide +kernel
  obtain ⟨i, hi, -, hback⟩ := ofText?_text_of_instant (.inr rfl) hread
  obtain rfl := timestamp.inj hi
  refine ⟨_, hread, ?_⟩
  rw [hback]
  decide +kernel

/-- The last minute of the year 9999 behind universal time is one of the year 10000, which is
written with a sign and not read. -/
theorem ofText?_text_yearTenThousand :
    ofLiteral? .timestamp (.string "9999-12-31T23:59:59-00:01")
        = some (timestamp ⟨253402300859, 0⟩) ∧
      (timestamp ⟨253402300859, 0⟩).text = "\"+10000-01-01T00:00:59Z\"" ∧
      ofText? .timestamp (timestamp ⟨253402300859, 0⟩).text = none := by
  decide +kernel

end Value

end Criteria
