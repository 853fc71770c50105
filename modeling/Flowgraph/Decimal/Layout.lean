import Flowgraph.Decimal.Numeral
import Flowgraph.Decimal.Shortest

namespace Flowgraph

/-- How the shortest digits of a double are set out. `positional` decides from the power of ten of
the first digit, `keepsPoint` writes `.0` behind a whole number. -/
structure Layout where
  tie : Tie
  positional : Int → Bool
  keepsPoint : Bool

namespace Layout

/-- Plain digits at any size. -/
def display : Layout := ⟨.up, fun _ => true, false⟩

/-- Documents keep the point and go over to powers of ten below `10 ^ -5` and from `10 ^ 16` on. -/
def document : Layout := ⟨.even, fun d => -5 ≤ d && d < 16, true⟩

/-- Outlines keep the point and go over to powers of ten below `10 ^ -4` and from `10 ^ 16` on. -/
def outline : Layout := ⟨.up, fun d => -4 ≤ d && d < 16, true⟩

def plain (l : Layout) (negative : Bool) (digits : List Char) (exponent : Int) : Numeral :=
  let first := digits.length - 1 + exponent
  if 0 ≤ exponent then
    ⟨negative, digits ++ List.replicate exponent.toNat '0', if l.keepsPoint then ['0'] else [], none⟩
  else if 0 ≤ first then
    let cut := first.toNat + 1
    ⟨negative, digits.take cut, digits.drop cut, none⟩
  else ⟨negative, ['0'], List.replicate (-first - 1).toNat '0' ++ digits, none⟩

def scientific (negative : Bool) (digits : List Char) (exponent : Int) : Numeral :=
  ⟨negative, digits.take 1, digits.drop 1, some (digits.length - 1 + exponent)⟩

/-- The numeral of a double; an infinite one or one that is no number has none. -/
def numeral? (l : Layout) (x : Float) : Option Numeral :=
  let negative := x.toBits ≥ 0x8000000000000000
  if x.isNaN || x.isInf then none
  else match Binary.ofBits? x.toBits with
    | none => some (l.plain negative ['0'] 0)
    | some b =>
      let (coefficient, exponent) := b.shortest l.tie
      let digits := Nat.toDigits 10 coefficient
      if l.positional (digits.length - 1 + exponent) then some (l.plain negative digits exponent)
      else some (scientific negative digits exponent)

/-- The text of a double, with words for those without a numeral. -/
def text (l : Layout) (x : Float) : String :=
  match l.numeral? x with
  | some n => String.ofList (n.chars false)
  | none => if x.isNaN then "NaN" else if x < 0 then "-inf" else "inf"

end Layout

end Flowgraph
