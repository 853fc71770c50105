namespace Flowgraph

/-- A decimal as it is written: sign, whole digits, the digits after the point (empty when there is
no point) and the power of ten after `e`. -/
structure Numeral where
  negative : Bool
  whole : List Char
  fraction : List Char
  exponent : Option Int
deriving DecidableEq, Repr

namespace Numeral

def ofNat (n : Nat) : Numeral := ⟨false, Nat.toDigits 10 n, [], none⟩

def ofInt (n : Int) : Numeral := ⟨decide (n < 0), Nat.toDigits 10 n.natAbs, [], none⟩

/-- The integer a numeral denotes. A point, an exponent or a minus sign before zero makes it no
integer, whatever its value. -/
def int? (n : Numeral) : Option Int :=
  if n.fraction.isEmpty && n.exponent.isNone then
    let magnitude := Nat.ofDigitChars 10 n.whole 0
    if n.negative then
      if magnitude = 0 then none else some (-(magnitude : Int))
    else some magnitude
  else none

def signChars (negative : Bool) : List Char := if negative then ['-'] else []

def fractionChars : List Char → List Char
  | [] => []
  | digits => '.' :: digits

/-- The power of ten behind the mark `e`; `plus` asks for a sign in front of a non-negative one. -/
def exponentChars (plus : Bool) : Option Int → List Char
  | none => []
  | some e =>
    'e' :: ((if e < 0 then ['-'] else if plus then ['+'] else []) ++ Nat.toDigits 10 e.natAbs)

def chars (plus : Bool) (n : Numeral) : List Char :=
  signChars n.negative ++ n.whole ++ fractionChars n.fraction ++ exponentChars plus n.exponent

theorem int?_ofInt (n : Int) : (ofInt n).int? = some n := by
  have h := Nat.ofDigitChars_ten_toDigits (n := n.natAbs)
  simp only [ofInt, int?, List.isEmpty_nil, Option.isNone_none, Bool.and_self, ↓reduceIte, h,
    decide_eq_true_eq]
  by_cases hn : n < 0
  · have hne : n.natAbs ≠ 0 := by omega
    rw [if_pos hn, if_neg hne]
    exact congrArg some (by omega)
  · rw [if_neg hn]
    exact congrArg some (by omega)

end Numeral

end Flowgraph
