import PlcScan.Text.Newline
import PlcScan.Text.Quoted

namespace PlcScan

structure Location where
  filename : Text
  line : Nat
  column : Int
  offset : Int
  deriving DecidableEq, Repr

namespace Location

/--
Only the text before the offset counts, so between a carriage return and its line feed a new line
has begun. An offset past the end continues the last line, one before the text lies on the first.
-/
def of (source : Text) (offset : Int) (filename : Text) : Location :=
  let (line, start) := Text.lineAtEnd (source.take offset.toNat) 0 1 0
  ⟨filename, line, offset - start + 1, offset⟩

def brief (l : Location) : Text :=
  l.filename ++ ':' :: Text.ofNat l.line ++ ':' :: Text.ofInt l.column

def detail (l : Location) : Text :=
  "SourceLocation(".toList ++ l.filename.quote ++ ", ".toList ++ Text.ofNat l.line ++
    ", ".toList ++ Text.ofInt l.column ++ ", ".toList ++ Text.ofInt l.offset ++ [')']

end Location

end PlcScan
