import PlcScan.Text.Basic

namespace PlcScan

namespace Text

def readSign : Text → Bool × Text
  | '+' :: rest => (false, rest)
  | '-' :: rest => (true, rest)
  | t => (false, t)

def toNat (digits : Text) : Nat := Nat.ofDigitChars 10 digits 0

end Text

structure Decimal where
  negative : Bool
  coefficient : Nat
  exponent : Int
  deriving DecidableEq, Repr

namespace Decimal

def ofText? (t : Text) : Option Decimal :=
  let (negative, body) := t.readSign
  let whole := body.takeWhile Char.isDigit
  match body.dropWhile Char.isDigit with
  | [] => if whole = [] then none else some ⟨negative, Text.toNat whole, 0⟩
  | '.' :: fraction =>
    if fraction.all Char.isDigit && (whole ++ fraction) != [] then
      some ⟨negative, Text.toNat (whole ++ fraction), -fraction.length⟩
    else none
  | _ => none

def digits (d : Decimal) : Text := Text.ofNat d.coefficient

def adjusted (d : Decimal) : Int := d.exponent + d.digits.length - 1

def plain (digits : Text) (places : Nat) : Text :=
  if places = 0 then digits
  else
    let filled := List.replicate (places + 1 - digits.length) '0' ++ digits
    let whole := filled.length - places
    filled.take whole ++ '.' :: filled.drop whole

def scientific (digits : Text) (adjusted : Int) : Text :=
  let mantissa := match digits with
    | first :: rest@(_ :: _) => first :: '.' :: rest
    | _ => digits
  mantissa ++ 'E' :: (if adjusted < 0 then Text.ofInt adjusted else '+' :: Text.ofInt adjusted)

/-- Plain down to millionths, scientific below and where zeros before the dot would be missing. -/
def text (d : Decimal) : Text :=
  let unsigned :=
    if d.exponent ≤ 0 && -6 ≤ d.adjusted then plain d.digits (-d.exponent).toNat
    else scientific d.digits d.adjusted
  if d.negative then '-' :: unsigned else unsigned

end Decimal

end PlcScan
