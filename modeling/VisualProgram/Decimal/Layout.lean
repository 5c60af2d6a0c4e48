import VisualProgram.Decimal.Shortest

/-!
How a double is written in a message: positional from `1e-5` up to `1e16`, with at least one place
after the point, and otherwise with an exponent that always has a sign.
-/

namespace VisualProgram

namespace Decimal

def zeros (n : Int) : String :=
  String.ofList (List.replicate n.toNat '0')

def positional (d : Decimal) : String :=
  let digits := Nat.toDigits 10 d.digits
  let whole := digits.length + d.exponent
  if 0 ≤ d.exponent then String.ofList digits ++ zeros d.exponent ++ ".0"
  else if 0 < whole then
    String.ofList (digits.take whole.toNat) ++ "." ++ String.ofList (digits.drop whole.toNat)
  else "0." ++ zeros (-whole) ++ String.ofList digits

def scientific (d : Decimal) : String :=
  let digits := Nat.toDigits 10 d.digits
  let exponent := d.exponent + digits.length - 1
  String.ofList (digits.take 1) ++ (if digits.length ≤ 1 then "" else ".") ++
    String.ofList (digits.drop 1) ++ (if exponent < 0 then "e-" else "e+") ++
    String.ofList (Nat.toDigits 10 exponent.natAbs)

def render (d : Decimal) : String :=
  let leading := d.exponent + (Nat.toDigits 10 d.digits).length - 1
  if -5 ≤ leading ∧ leading ≤ 15 then d.positional else d.scientific

end Decimal

def doubleText (bits : UInt64) : String :=
  (if 2 * bits.toNat < UInt64.size then "" else "-") ++ (Magnitude.ofBits bits).shortest.render

end VisualProgram
