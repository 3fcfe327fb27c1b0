import Criteria.Number.Shortest

/-! # Layout of decimals

How the digits of a number are laid out as text: in positional notation, or with one digit in
front of the point and an exponent.
-/

set_option autoImplicit false

namespace Criteria.Number

namespace Decimal

/-- The digits of the decimal, most significant first. -/
def digitChars (d : Decimal) : List Char := Nat.toDigits 10 d.digits

/-- The power of ten of the leading digit. -/
def magnitude (d : Decimal) : Int := d.digitChars.length + d.exponent - 1

/-- Positional notation, with a point only where digits follow it. -/
def positional (d : Decimal) : List Char :=
  let ds := d.digitChars
  if 0 ≤ d.exponent then ds ++ List.replicate d.exponent.toNat '0'
  else
    let places := (-d.exponent).toNat
    if places < ds.length then ds.take (ds.length - places) ++ '.' :: ds.drop (ds.length - places)
    else ['0', '.'] ++ List.replicate (places - ds.length) '0' ++ ds

/-- One digit in front of the point, the others behind it, and a signed exponent. -/
def scientific (d : Decimal) : List Char :=
  let ds := d.digitChars
  let fraction := ds.drop 1
  ds.take 1 ++ (if fraction.isEmpty then [] else '.' :: fraction) ++
    'e' :: (if d.magnitude < 0 then '-' else '+') :: Nat.toDigits 10 d.magnitude.natAbs

end Decimal

namespace Binary

variable {f : Format}

/-- The text of a number in positional notation: the fewest digits that read back, a tie going
up. -/
def plain : Binary f → String
  | nan => "NaN"
  | signed negative rank =>
    let magnitude :=
      if rank.val = f.infinityRank then "inf".toList
      else if rank.val = 0 then ['0']
      else (f.shortest .up rank).positional
    String.ofList (if negative then '-' :: magnitude else magnitude)

/-- The text of a number in a JSON document: the fewest digits that read back, a tie going to
the even digit. Magnitudes whose leading digit stands between the powers `least` and `most` are
positional with at least one place, others have an exponent. Numbers that are not finite have
no such text. -/
def jsonText? (least most : Int) : Binary f → Option String
  | nan => none
  | signed negative rank =>
    if rank.val = f.infinityRank then none
    else
      let magnitude :=
        if rank.val = 0 then "0.0".toList
        else
          let d := f.shortest .even rank
          if least ≤ d.magnitude ∧ d.magnitude ≤ most then
            d.positional ++ (if 0 ≤ d.exponent then ".0".toList else [])
          else d.scientific
      some (String.ofList (if negative then '-' :: magnitude else magnitude))

/-- A number of 32 bits in a JSON document. -/
def singleJson? (x : Single) : Option String := x.jsonText? (-6) 12

/-- A number of 64 bits in a JSON document. -/
def doubleJson? (x : Double) : Option String := x.jsonText? (-5) 15

end Binary

end Criteria.Number
