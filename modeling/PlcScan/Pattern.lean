import PlcScan.Options
import PlcScan.Text.Printable

namespace PlcScan

inductive Pattern
  | never
  | charClass (k : CharClass)
  | literal (t : Text)
  | anyInLine
  | oneOf (ranges : List (Char × Char))
  | noneOf (ranges : List (Char × Char))
  | operator
  | blank
  deriving DecidableEq, Repr

namespace Pattern

def inRanges (ranges : List (Char × Char)) (c : Char) : Bool :=
  ranges.any fun range => range.1 ≤ c && c ≤ range.2

def test (o : Options) : Pattern → Char → Bool
  | never, _ => false
  | charClass k, c => k.mem c
  | literal t, c => t = [c]
  | anyInLine, c => c != '\n'
  | oneOf ranges, c => inRanges ranges c
  | noneOf ranges, c => !inRanges ranges c
  | operator, c => Text.isOperator c
  | blank, c => o.isBlank c

def ranges : Text → List (Char × Char)
  | a :: '-' :: b :: rest => (a, b) :: ranges rest
  | a :: rest => (a, a) :: ranges rest
  | [] => []

/-- A regular expression, as far as it can match one character. -/
def ofExpression : Text → Pattern
  | ['.'] => anyInLine
  | [c] => literal [c]
  | '[' :: '^' :: body => noneOf (ranges body.dropLast)
  | '[' :: body => oneOf (ranges body.dropLast)
  | _ => never

end Pattern

def Text.starts : (tests : List (Char → Bool)) → Text → Bool
  | [], _ => true
  | _ :: _, [] => false
  | test :: tests, c :: rest => test c && starts tests rest

end PlcScan
