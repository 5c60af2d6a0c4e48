/-!
The shortest decimal of a double: of all decimals that round to it, one with the fewest digits, and
of those the nearest to it. Everything is computed in natural numbers from the 64 bits.
-/

namespace VisualProgram

structure Decimal where
  digits : Nat
  exponent : Int
  deriving DecidableEq

structure Magnitude where
  mantissa : Nat
  exponent : Int
  /-- The double below is half as far away as the double above. -/
  narrowBelow : Bool
  deriving DecidableEq

namespace Magnitude

def ofBits (bits : UInt64) : Magnitude :=
  let fraction : Nat := bits.toNat % Nat.pow 2 52
  let biased : Nat := bits.toNat / Nat.pow 2 52 % Nat.pow 2 11
  if biased = 0 then ⟨fraction, -1074, false⟩
  else ⟨Nat.pow 2 52 + fraction, (biased : Int) - 1075, fraction = 0 && biased > 1⟩

structure Interval where
  low : Nat
  value : Nat
  high : Nat
  denominator : Nat
  closed : Bool

def interval (m : Magnitude) : Interval :=
  let up := Nat.pow 2 (m.exponent - 2).toNat
  { low := (4 * m.mantissa - if m.narrowBelow then 1 else 2) * up
    value := 4 * m.mantissa * up
    high := (4 * m.mantissa + 2) * up
    denominator := Nat.pow 2 (2 - m.exponent).toNat
    closed := m.mantissa % 2 = 0 }

end Magnitude

namespace Magnitude.Interval

def holds (i : Interval) (down up n : Nat) : Bool :=
  let x := n * down * i.denominator
  if i.closed then i.low * up ≤ x && x ≤ i.high * up else i.low * up < x && x < i.high * up

/-- The neighbours of the value on the grid `down / up` that lie in the interval, the nearer one if
both do, the even one if they are equally near. -/
def neighbour? (i : Interval) (down up : Nat) : Option Nat :=
  let unit := down * i.denominator
  let below := i.value * up / unit
  let rest := i.value * up % unit
  match i.holds down up below && below ≠ 0, i.holds down up (below + 1) with
  | true, true =>
    if 2 * rest < unit || 2 * rest = unit && below % 2 = 0 then some below else some (below + 1)
  | true, false => some below
  | false, true => some (below + 1)
  | false, false => none

def leading (i : Interval) : Int :=
  if i.denominator ≤ i.value then ((Nat.toDigits 10 (i.value / i.denominator)).length : Int) - 1
  else -(((List.range 400).find? fun k => i.denominator ≤ i.value * Nat.pow 10 k).getD 0 : Int)

def withDigits? (i : Interval) (count : Nat) : Option Decimal :=
  let place := i.leading - count + 1
  (i.neighbour? (Nat.pow 10 place.toNat) (Nat.pow 10 (-place).toNat)).map fun n => ⟨n, place⟩

end Magnitude.Interval

def Decimal.normalize (d : Decimal) : Decimal :=
  let zeros := ((Nat.toDigits 10 d.digits).reverse.takeWhile (· == '0')).length
  if d.digits = 0 then ⟨0, 0⟩ else ⟨d.digits / Nat.pow 10 zeros, d.exponent + zeros⟩

/-- Seventeen digits always suffice. -/
def Magnitude.shortest (m : Magnitude) : Decimal :=
  if m.mantissa = 0 then ⟨0, 0⟩
  else
    let i := m.interval
    (((List.range 17).findSome? fun n => i.withDigits? (n + 1)).getD ⟨0, 0⟩).normalize

end VisualProgram
