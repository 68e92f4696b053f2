namespace PlcScan

/-- A text is its list of code points, so offsets, lengths and columns count code points. -/
abbrev Text := List Char

namespace Text

def ofNat (n : Nat) : Text := Nat.toDigits 10 n

def ofInt : Int → Text
  | .ofNat n => ofNat n
  | .negSucc n => '-' :: ofNat (n + 1)

def ofNatHex (width n : Nat) : Text :=
  let digits := Nat.toDigits 16 n
  List.replicate (width - digits.length) '0' ++ digits

def slice (t : Text) (start stop : Int) : Text :=
  (t.drop start.toNat).take (stop - start.toNat).toNat

def fields (separator : Char) : Text → List Text
  | [] => [[]]
  | c :: rest =>
    if c = separator then [] :: fields separator rest
    else match fields separator rest with
      | [] => [[c]]
      | part :: parts => (c :: part) :: parts

def lines (ts : List Text) : Text := ts.flatMap (· ++ ['\n'])

def join (glue : Text) : List Text → Text
  | [] => []
  | [t] => t
  | t :: u :: rest => t ++ glue ++ join glue (u :: rest)

end Text

end PlcScan
