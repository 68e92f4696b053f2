import PlcScan.Diagnostic
import PlcScan.Text.Printable

namespace PlcScan

inductive Found
  | endOfInput
  | nothing
  | char (c : Char)
  deriving DecidableEq, Repr

namespace Found

def describe : Found → Text
  | endOfInput => "end of input".toList
  | nothing => ['\'', '\'']
  | char c =>
    if Text.isPrintable c then ['\'', c, '\'']
    else 'U' :: '+' :: (Text.ofNatHex 4 c.toNat).map Char.toUpper

end Found

inductive Fault
  | invalidCharacter (found : Found)
  | unterminatedString
  | invalidNumber (reason : Text)
  | invalidEscape (found : Found)
  | malformedCharacter (found : Found)
  deriving DecidableEq, Repr

namespace Fault

def code : Fault → Text
  | invalidCharacter _ => "L001".toList
  | unterminatedString => "L002".toList
  | invalidNumber _ => "L003".toList
  | invalidEscape _ => "L006".toList
  | malformedCharacter _ => "L009".toList

def subject : Fault → Text
  | invalidCharacter found => "invalid character ".toList ++ found.describe
  | unterminatedString => "unterminated string literal".toList
  | invalidNumber _ => "invalid numeric literal".toList
  | invalidEscape found => "invalid escape sequence ".toList ++ found.describe
  | malformedCharacter found =>
    "malformed character literal: unexpected ".toList ++ found.describe

def message (f : Fault) (offset : Int) : Text :=
  f.subject ++ " at offset ".toList ++ Text.ofInt offset

def help : Fault → Text
  | invalidCharacter _ =>
    "Only printable characters and the whitespace characters ".toList ++
      "space, \\b, \\n, \\r and \\t may appear outside literals.".toList
  | unterminatedString =>
    "String literals must be closed with a matching \" on the same line.".toList
  | invalidNumber reason => reason
  | invalidEscape _ => "Supported escapes are \\b \\n \\r \\t \\' \\\" and \\\\.".toList
  | malformedCharacter _ =>
    "Character literals hold exactly one character or escape, e.g. 'a' or '\\n'.".toList

def suggestions : Fault → Option (List Text)
  | unterminatedString =>
    some ["Add a closing \" quote".toList, "Use \\n instead of a literal line break".toList]
  | malformedCharacter _ => some ["Use double quotes for strings: \"ab\"".toList]
  | _ => none

/-- An unterminated string is reported where it starts, every other fault where reading ended. -/
def offset (start used : Nat) : Fault → Nat
  | unterminatedString => start
  | _ => start + used

end Fault

structure LexicalError where
  fault : Fault
  location : Location
  deriving DecidableEq, Repr

namespace LexicalError

def message (e : LexicalError) : Text := e.fault.message e.location.offset

def diagnostic (e : LexicalError) : Diagnostic where
  message := e.message
  location := e.location
  code := some e.fault.code
  help := some e.fault.help
  suggestions := e.fault.suggestions

def render (e : LexicalError) : Text := e.diagnostic.render

end LexicalError

inductive Breach
  | pastEnd (offset : Int)
  | noDigit (offset : Int)
  | noProgress (offset : Int)
  deriving DecidableEq, Repr

def Breach.message : Breach → Text
  | pastEnd offset => "advanced past end of input at offset ".toList ++ Text.ofInt offset
  | noDigit offset => "number rule chosen without a digit at offset ".toList ++ Text.ofInt offset
  | noProgress offset => "no progress at offset ".toList ++ Text.ofInt offset

inductive Failure
  | lexical (error : LexicalError)
  | internal (breach : Breach)
  deriving DecidableEq, Repr

end PlcScan
