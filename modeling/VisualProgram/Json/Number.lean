import VisualProgram.Json.Reader
import VisualProgram.Text.Digits

/-!
Numbers. A numeral without fraction and exponent is an integer if it fits into 64 bits; every other
numeral is a double.
-/

namespace VisualProgram.Json

open Text

structure Numeral where
  negative : Bool
  whole : List Char
  fraction : Option (List Char)
  exponent : Option Int
  deriving DecidableEq

inductive Number where
  | natural (n : Nat)
  /-- The number `-n`, where `n` is from `1` to `2 ^ 63`. -/
  | negative (n : Nat)
  | double (bits : UInt64)
  deriving DecidableEq

def Number.found : Number → Found
  | .natural n => .integer n
  | .negative n => .integer (-n)
  | .double bits => .double bits

def appendDigits (n : Nat) : List Char → Nat × List Char
  | [] => (n, [])
  | c :: cs =>
    if 10 * n + digitValue c < UInt64.size then appendDigits (10 * n + digitValue c) cs
    else (n, c :: cs)

/-- Rounded at each step of at most 308 places. -/
def scaleByTen (x : Float) (exponent : Int) : Option Float :=
  if exponent.natAbs ≤ 308 then
    let power := Float.ofScientific 1 false exponent.natAbs
    if exponent < 0 then some (x / power)
    else if (x * power).isInf then none
    else some (x * power)
  else if x == 0 then some x
  else if 0 ≤ exponent then none
  else scaleByTen (x / Float.ofScientific 1 false 308) (exponent + 308)
termination_by exponent.natAbs

def Numeral.double (n : Numeral) : Option Float := do
  let fraction := n.fraction.getD []
  let (high, skipped) := appendDigits 0 n.whole
  let (all, dropped) := appendDigits high fraction
  let places := fraction.length - dropped.length
  let exponent : Int := n.exponent.getD 0 + skipped.length - places
  let x ← scaleByTen (UInt64.ofNat all).toFloat exponent
  return if n.negative then -x else x

def Numeral.value (n : Numeral) : Option Number :=
  let whole := digitsValue n.whole
  let integer := n.fraction.isNone && n.exponent.isNone
  if integer && !n.negative && whole < UInt64.size then some (.natural whole)
  else if integer && n.negative && 1 ≤ whole && 2 * whole ≤ UInt64.size then some (.negative whole)
  else n.double.map fun x => .double x.toBits

namespace Reader

def accept (p : Char → Bool) : Reader (Option Char) where
  run
    | [] => .ok (none, [])
    | c :: s => if p c then .ok (some c, s) else .ok (none, c :: s)
  length_le {s _ _} h := by
    split at h
    · cases h
      exact Nat.le_refl _
    · split at h
      · cases h
        exact Nat.le_succ _
      · cases h
        exact Nat.le_refl _

def digits : Reader (List Char) where
  run s := .ok (s.takeWhile Char.isDigit, s.dropWhile Char.isDigit)
  length_le h := by
    cases h
    exact (List.dropWhile_sublist _).length_le

def someDigits (torn : Fault) : Reader (List Char) := do
  let ds ← digits
  if ds.isEmpty then
    match ← next with
    | none => fail torn
    | some _ => fail .malformed
  else pure ds

def numeral (torn : Fault) : Reader Numeral := do
  let sign ← accept (· == '-')
  let whole ← someDigits torn
  if whole.head? == some '0' && whole.length != 1 then fail .malformed
  let fraction ←
    match ← accept (· == '.') with
    | none => pure none
    | some _ => some <$> someDigits torn
  let exponent ←
    match ← accept fun c => c == 'e' || c == 'E' with
    | none => pure none
    | some _ =>
      let down ← accept fun c => c == '+' || c == '-'
      let size ← someDigits torn
      let n : Int := digitsValue size
      pure (some (if down == some '-' then -n else n))
  pure ⟨sign.isSome, whole, fraction, exponent⟩

def number : Reader Number := do
  match (← numeral .endOfInput).value with
  | some n => pure n
  | none => fail .malformed

end Reader

end VisualProgram.Json
