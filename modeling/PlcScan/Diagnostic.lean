import PlcScan.Location

namespace PlcScan

structure Diagnostic where
  message : Text
  location : Location
  severity : Text := "error".toList
  code : Option Text := none
  help : Option Text := none
  suggestions : Option (List Text) := none
  deriving DecidableEq, Repr

namespace Diagnostic

def renderLines (d : Diagnostic) : List Text :=
  [d.severity.map Char.toUpper ++ ": ".toList ++ d.message,
    "  --> ".toList ++ d.location.brief ++ " (offset ".toList ++ Text.ofInt d.location.offset ++
      [')']] ++
  (match d.help with
    | none | some [] => []
    | some help => ["  help: ".toList ++ help]) ++
  (match d.suggestions with
    | none | some [] => []
    | some suggestions => "  suggestions:".toList :: suggestions.map ("    - ".toList ++ ·))

def render (d : Diagnostic) : Text := Text.lines d.renderLines

end Diagnostic

end PlcScan
