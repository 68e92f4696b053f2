import PlcScan.Pattern
import PlcScan.Fault
import PlcScan.Token.Basic

/-!
The rules of the token grammar. A rule looks at the text in front of it only, and says how many
characters it takes and whether they are a token. A rule that is entered at a character that it does
not begin with leaves out its first step.
-/

namespace PlcScan

inductive Halt
  | fault (fault : Fault)
  | noDigit
  | noProgress
  deriving DecidableEq, Repr

structure Munch (α : Type) where
  used : Nat
  result : Except Halt α

namespace Munch

def after (n : Nat) (m : Munch α) : Munch α := { m with used := n + m.used }

def accept (n : Nat) (a : α) : Munch α := ⟨n, .ok a⟩

def refuse (n : Nat) (f : Fault) : Munch α := ⟨n, .error (.fault f)⟩

end Munch

namespace Rule

def leading (k : CharClass) : Text → Nat
  | [] => 0
  | c :: _ => if k.mem c then 1 else 0

def run (k : CharClass) (t : Text) : Nat := (t.takeWhile k.mem).length

def identifier (o : Options) (t : Text) : Munch Kind :=
  let start := leading .identifierStart t
  .accept (start + run o.identifierPart (t.drop start)) .identifier

def fraction : Text → Munch Kind
  | '.' :: d :: rest =>
    if CharClass.digit.mem d then .accept (2 + run .digit rest) .decimal else .accept 0 .integer
  | _ => .accept 0 .integer

def leadingZero : Fault :=
  .invalidNumber "Numbers other than 0 cannot start with a leading zero.".toList

def unsigned (o : Options) : Text → Munch Kind
  | [] => ⟨0, .error .noDigit⟩
  | c :: rest =>
    if CharClass.zero.mem c then
      if o.rejectLeadingZeros && leading .digit rest = 1 then .refuse 1 leadingZero
      else (fraction rest).after 1
    else if CharClass.nonzeroDigit.mem c then
      (fraction (rest.drop (run .digit rest))).after (1 + run .digit rest)
    else ⟨0, .error .noDigit⟩

def number (o : Options) (t : Text) : Munch Kind :=
  let sign := leading .sign t
  (unsigned o (t.drop sign)).after sign

def escape (t : Text) : Munch Unit :=
  let backslash := leading .backslash t
  match t.drop backslash with
  | [] => .refuse backslash (.invalidEscape .endOfInput)
  | c :: _ =>
    if CharClass.escapeChar.mem c then .accept (backslash + 1) ()
    else .refuse backslash (.invalidEscape (.char c))

def closingQuote : Text → Munch Kind
  | [] => .refuse 0 (.malformedCharacter .endOfInput)
  | c :: _ =>
    if CharClass.singleQuote.mem c then .accept 1 .character
    else .refuse 0 (.malformedCharacter (.char c))

def characterRest : Text → Munch Kind
  | [] => .refuse 0 (.malformedCharacter .endOfInput)
  | c :: rest =>
    if CharClass.backslash.mem c then
      match escape (c :: rest) with
      | ⟨n, .ok ()⟩ => (closingQuote ((c :: rest).drop n)).after n
      | ⟨n, .error h⟩ => ⟨n, .error h⟩
    else if CharClass.characterBody.mem c then (closingQuote rest).after 1
    else .refuse 0 (.malformedCharacter (.char c))

def character (t : Text) : Munch Kind :=
  let quote := leading .singleQuote t
  (characterRest (t.drop quote)).after quote

/--
What follows the opening quote of a string literal. A backslash that ends the text begins no escape,
so the string is unterminated.
-/
def stringRest : Text → Munch Kind
  | [] => .refuse 0 .unterminatedString
  | ['\\'] => .refuse 0 .unterminatedString
  | '\\' :: c :: rest =>
    if CharClass.escapeChar.mem c then (stringRest rest).after 2
    else .refuse 1 (.invalidEscape (.char c))
  | c :: rest =>
    if CharClass.doubleQuote.mem c then .accept 1 .string
    else if CharClass.stringBody.mem c then (stringRest rest).after 1
    else .refuse 0 .unterminatedString

def string (t : Text) : Munch Kind :=
  let quote := leading .doubleQuote t
  (stringRest (t.drop quote)).after quote

def longOperators : List Text := ["==".toList, "!=".toList, "&&".toList, "||".toList]

def operator (t : Text) : Munch Kind :=
  match longOperators.find? (·.isPrefixOf t) with
  | some op => .accept op.length .operator
  | none => .accept (if t.head?.any Text.isOperator then 1 else 0) .operator

def token (o : Options) : Text → Munch Kind
  | [] => .refuse 0 (.invalidCharacter .endOfInput)
  | c :: rest =>
    if CharClass.identifierStart.mem c then identifier o (c :: rest)
    else if CharClass.digit.mem c || (CharClass.sign.mem c && leading .digit rest = 1) then
      number o (c :: rest)
    else if CharClass.singleQuote.mem c then character (c :: rest)
    else if CharClass.doubleQuote.mem c then string (c :: rest)
    else if Text.isOperator c then operator (c :: rest)
    else .refuse 0 (.invalidCharacter (.char c))

end Rule

end PlcScan
