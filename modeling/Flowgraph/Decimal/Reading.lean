import Flowgraph.Decimal.Numeral

namespace Flowgraph.Numeral

/-- Appends digits to a significand while it stays below `2 ^ 64`, and returns the digits that are
left from the first one that does not fit. -/
def gather (significand : Nat) : List Char → Nat × List Char
  | [] => (significand, [])
  | c :: rest =>
    let next := significand * 10 + (c.toNat - '0'.toNat)
    if next < UInt64.size then gather next rest else (significand, c :: rest)

def tenTo (n : Nat) : Float := Float.ofScientific 1 false n

/-- The double `f * 10 ^ e` by one multiplication or division, after dividing by `10 ^ 308` as often
as the exponent needs it. A product beyond the doubles has none. -/
def scale (f : Float) (e : Int) : Option Float :=
  if -308 ≤ e ∧ e ≤ 308 then
    if 0 ≤ e then
      let product := f * tenTo e.toNat
      if product.isInf then none else some product
    else some (f / tenTo (-e).toNat)
  else if f == 0 then some f
  else if 0 ≤ e then none
  else scale (f / tenTo 308) (e + 308)
termination_by (-e).toNat

/-- The double a numeral denotes, read with a significand of 64 bits. Whole digits beyond it only
raise the power of ten and further fraction digits are dropped. A written exponent of more than 31
bits gives zero, unless it makes a significand grow. -/
def float? (n : Numeral) : Option Float :=
  let (whole, excess) := gather 0 n.whole
  let (significand, dropped) := gather whole n.fraction
  let shift : Int := excess.length - (n.fraction.length - dropped.length : Nat)
  let written := n.exponent.getD 0
  let magnitude :=
    if written.natAbs < Nat.pow 2 31 then scale (Float.ofNat significand) (shift + written)
    else if significand = 0 ∨ written < 0 then some 0
    else none
  magnitude.map fun f => if n.negative then -f else f

end Flowgraph.Numeral
