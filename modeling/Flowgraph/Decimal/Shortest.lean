namespace Flowgraph

/-- Where a value lies midway between two decimals of the same length: the larger one, or the one
whose last digit is even. -/
inductive Tie where
  | up
  | even
deriving DecidableEq, Repr

/-- The positive number `mantissa * 2 ^ exponent` among its neighbours of the same precision.
`narrow` says that the gap below it is half as wide as the gap above. -/
structure Binary where
  mantissa : Nat
  exponent : Int
  narrow : Bool
deriving DecidableEq, Repr

namespace Binary

/-- The magnitude held in the bits of a double, when it is neither zero, infinite nor no number. -/
def ofBits? (bits : UInt64) : Option Binary :=
  let fraction : Nat := bits.toNat % Nat.pow 2 52
  let biased : Nat := bits.toNat / Nat.pow 2 52 % Nat.pow 2 11
  if biased = 2047 then none
  else if biased = 0 then
    if fraction = 0 then none else some ⟨fraction, -1074, false⟩
  else some ⟨Nat.pow 2 52 + fraction, biased - 1075, fraction == 0 && biased > 1⟩

/-- The factor that brings a multiple of `10 ^ e` to the common scale with quarters of the last
binary place. -/
def gridUnit (b : Binary) (e : Int) : Nat :=
  Nat.pow 10 e.toNat * Nat.pow 2 (2 - b.exponent).toNat

/-- The factor that brings a quarter of the last binary place to the common scale. -/
def quarterUnit (b : Binary) (e : Int) : Nat :=
  Nat.pow 2 (b.exponent - 2).toNat * Nat.pow 10 (-e).toNat

/-- Whether `c * 10 ^ e` rounds to `b`: it lies between the midpoints to both neighbours, and on a
midpoint only when the mantissa is even. -/
def rounds (b : Binary) (e : Int) (c : Nat) : Bool :=
  let below := (4 * b.mantissa - if b.narrow then 1 else 2) * b.quarterUnit e
  let above := (4 * b.mantissa + 2) * b.quarterUnit e
  let here := c * b.gridUnit e
  if b.mantissa % 2 = 0 then below ≤ here && here ≤ above else below < here && here < above

/-- The multiple of `10 ^ e` that stands for `b`: of the two around it the one that rounds to it,
and of two such the nearer. -/
def onGrid? (b : Binary) (tie : Tie) (e : Int) : Option Nat :=
  let exact := 4 * b.mantissa * b.quarterUnit e
  let low := exact / b.gridUnit e
  match b.rounds e low, b.rounds e (low + 1) with
  | false, false => none
  | true, false => some low
  | false, true => some (low + 1)
  | true, true =>
    let down := exact - low * b.gridUnit e
    let up := (low + 1) * b.gridUnit e - exact
    if down < up then some low
    else if up < down then some (low + 1)
    else match tie with
      | .up => some (low + 1)
      | .even => if low % 2 = 0 then some low else some (low + 1)

def search (b : Binary) (tie : Tie) : Nat → Int → Nat × Int
  | 0, e => (4 * b.mantissa * b.quarterUnit e / b.gridUnit e, e)
  | room + 1, e =>
    match b.onGrid? tie e with
    | some c => (c, e)
    | none => search b tie room (e - 1)

/-- The coefficient and power of ten of the shortest decimal that rounds to `b`. The search starts
above the first digit and refines the grid until some point of it rounds to `b`. -/
def shortest (b : Binary) (tie : Tie) : Nat × Int :=
  b.search tie 40 ((b.exponent + b.mantissa.log2 + 1) * 30103 / 100000 + 2)

end Binary

end Flowgraph
