import PlcScan.CharClass

namespace PlcScan

structure Options where
  identifierHyphens : Bool := true
  rejectLeadingZeros : Bool := false
  /-- What is skipped between tokens; only entries of one character count. -/
  whitespace : List Text := [[' '], ['\x08'], ['\n'], ['\r'], ['\t']]
  deriving DecidableEq, Repr

namespace Options

def isBlank (o : Options) (c : Char) : Bool := o.whitespace.contains [c]

def identifierPart (o : Options) : CharClass :=
  if o.identifierHyphens then .identifierPart else .identifierPartNoHyphen

end Options

end PlcScan
