import PlcScan.Token.Basic
import PlcScan.Fault
import PlcScan.Pattern

namespace PlcScan

structure Cursor where
  source : Text
  position : Nat := 0
  pending : Nat := 0
  deriving DecidableEq, Repr

namespace Cursor

def start (c : Cursor) : Int := c.position - c.pending

def rest (c : Cursor) : Text := c.source.drop c.position

def charAt? (c : Cursor) (n : Int) : Option Char :=
  if 0 ≤ c.position + n then c.source[(c.position + n).toNat]? else none

def has (c : Cursor) (n : Int) : Bool :=
  0 ≤ c.position + n && c.position + n < c.source.length

def move (c : Cursor) (n : Nat) : Cursor :=
  { c with position := c.position + n, pending := c.pending + n }

def advance (c : Cursor) : Except Breach Cursor :=
  if c.position < c.source.length then .ok (c.move 1) else .error (.pastEnd c.position)

def resetPending (c : Cursor) : Cursor := { c with pending := 0 }

def emit (c : Cursor) (kind : Kind) : Token × Cursor :=
  (⟨kind, c.source.slice c.start c.position, c.start⟩, c.resetPending)

def peek (c : Cursor) (tests : List (Char → Bool)) : Bool := c.rest.starts tests

def accept (c : Cursor) (tests : List (Char → Bool)) : Bool × Cursor :=
  if c.peek tests then (true, c.move tests.length) else (false, c)

end Cursor

end PlcScan
