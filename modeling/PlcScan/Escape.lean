import PlcScan.Text.Basic

namespace PlcScan

namespace Escape

inductive Fault
  | dangling
  | unsupported (c : Char)
  deriving DecidableEq, Repr

def value? : Char → Option Char
  | 'b' => some '\x08'
  | 'n' => some '\n'
  | 'r' => some '\r'
  | 't' => some '\t'
  | '\'' => some '\''
  | '"' => some '"'
  | '\\' => some '\\'
  | _ => none

end Escape

def unescape : Text → Except Escape.Fault Text
  | [] => .ok []
  | ['\\'] => .error .dangling
  | '\\' :: c :: rest =>
    match Escape.value? c with
    | none => .error (.unsupported c)
    | some v => (unescape rest).map (v :: ·)
  | c :: rest => (unescape rest).map (c :: ·)

end PlcScan
