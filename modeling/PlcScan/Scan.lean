import PlcScan.Rule

/-!
Scanning a whole text. The text is cut into pieces, blank characters and lexemes, until it is used
up or a rule halts. Tokens are the lexemes with the offsets that the pieces before them add up to.
-/

namespace PlcScan

inductive Piece
  | blank (c : Char)
  | lexeme (kind : Kind) (text : Text)
  deriving DecidableEq, Repr

namespace Piece

def text : Piece → Text
  | blank c => [c]
  | lexeme _ t => t

def width : (pieces : List Piece) → Nat
  | [] => 0
  | piece :: rest => piece.text.length + width rest

def tokens : (offset : Nat) → List Piece → List Token
  | _, [] => []
  | offset, blank _ :: rest => tokens (offset + 1) rest
  | offset, lexeme kind t :: rest => ⟨kind, t, offset⟩ :: tokens (offset + t.length) rest

end Piece

structure Stop where
  used : Nat
  halt : Halt
  deriving DecidableEq, Repr

structure Scan where
  pieces : List Piece
  stop : Option Stop
  deriving DecidableEq, Repr

namespace Scan

def cons (p : Piece) (s : Scan) : Scan := { s with pieces := p :: s.pieces }

def of (o : Options) (rule : Text → Munch Kind) : Text → Scan
  | [] => ⟨[], none⟩
  | c :: rest =>
    if o.isBlank c then (of o rule rest).cons (.blank c)
    else
      match rule (c :: rest) with
      | ⟨used, .error halt⟩ => ⟨[], some ⟨used, halt⟩⟩
      | ⟨0, .ok _⟩ => ⟨[], some ⟨0, .noProgress⟩⟩
      | ⟨used + 1, .ok kind⟩ =>
        (of o rule (rest.drop used)).cons (.lexeme kind (c :: rest.take used))
termination_by t => t.length
decreasing_by all_goals simp only [List.length_drop, List.length_cons]; omega

end Scan

/--
The failure of a rule that was entered at `start` with `pending` characters before it that belong to
no token yet, and halted after `used` more.
-/
def Halt.failure (source filename : Text) (start used pending : Nat) : Halt → Failure
  | fault f => .lexical ⟨f, .of source (f.offset start used) filename⟩
  | noDigit => .internal (.noDigit (start - pending : Int))
  | noProgress => .internal (.noProgress start)

def Scan.outcome (source filename : Text) (s : Scan) : Except Failure (List Token) :=
  match s.stop with
  | none => .ok (Piece.tokens 0 s.pieces)
  | some stop => .error (stop.halt.failure source filename (Piece.width s.pieces) stop.used 0)

def lexWith (rule : Text → Munch Kind) (o : Options) (filename source : Text) :
    Except Failure (List Token) :=
  (Scan.of o rule source).outcome source filename

def lex (o : Options) (filename source : Text) : Except Failure (List Token) :=
  lexWith (Rule.token o) o filename source

def Rule.stuck (_ : Text) : Munch Kind := .accept 0 .operator

end PlcScan
