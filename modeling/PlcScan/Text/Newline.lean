import PlcScan.Text.Basic

namespace PlcScan.Text

def unifyNewlines : Text → Text
  | [] => []
  | '\r' :: '\n' :: rest => '\n' :: unifyNewlines rest
  | c :: rest => (if c = '\r' then '\n' else c) :: unifyNewlines rest

/--
Walks over the text from offset `i`, where line number `line` began at offset `start`, and returns
the number and the starting offset of the line that it ends in.
-/
def lineAtEnd : Text → (i line start : Nat) → Nat × Nat
  | [], _, line, start => (line, start)
  | '\r' :: '\n' :: rest, i, line, _ => lineAtEnd rest (i + 2) (line + 1) (i + 2)
  | c :: rest, i, line, start =>
    if c = '\r' || c = '\n' then lineAtEnd rest (i + 1) (line + 1) (i + 1)
    else lineAtEnd rest (i + 1) line start

end PlcScan.Text
