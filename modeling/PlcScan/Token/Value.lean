import PlcScan.Token.Basic
import PlcScan.Decimal
import PlcScan.Escape

namespace PlcScan

inductive Value
  | text (t : Text)
  | integer (n : Int)
  | decimal (d : Decimal)
  deriving DecidableEq, Repr

inductive ValueFault
  | tooManyDigits (count : Nat)
  | notInteger (lexeme : Text)
  | notDecimal
  | escape (fault : Escape.Fault)
  deriving DecidableEq, Repr

def Escape.Fault.message : Escape.Fault → Text
  | dangling => []
  | unsupported c => Text.quote [c]

namespace ValueFault

def message : ValueFault → Text
  | tooManyDigits count =>
    "Exceeds the limit (4300 digits) for integer string conversion: value has ".toList ++
      Text.ofNat count ++
      " digits; use sys.set_int_max_str_digits() to increase the limit".toList
  | notInteger lexeme =>
    "invalid literal for int() with base 10: ".toList ++ lexeme.quote.take 200
  | notDecimal => "[<class 'decimal.ConversionSyntax'>]".toList
  | escape fault => fault.message

end ValueFault

def digitLimit : Nat := 4300

/-- Reads an optional sign and digits; the limit is checked before what follows the digits. -/
def Text.toInt (t : Text) : Except ValueFault Int :=
  let (negative, body) := t.readSign
  let digits := body.takeWhile Char.isDigit
  if digitLimit < digits.length then .error (.tooManyDigits digits.length)
  else if digits = [] || digits.length < body.length then .error (.notInteger t)
  else .ok (if negative then -(Text.toNat digits : Int) else Text.toNat digits)

def Token.body (t : Token) : Text := t.lexeme.tail.dropLast

def Token.value (t : Token) : Except ValueFault Value :=
  match t.kind with
  | .identifier | .operator => .ok (.text t.lexeme)
  | .integer => t.lexeme.toInt.map .integer
  | .decimal =>
    match Decimal.ofText? t.lexeme with
    | some d => .ok (.decimal d)
    | none => .error .notDecimal
  | .character | .string => ((unescape t.body).map .text).mapError .escape

end PlcScan
