import PlcScan.CommandLine.Run

namespace PlcScan.CommandLine

def readFile (path : Text) : IO (Except PathFault Utf8.Bytes) := do
  try
    let handle ← IO.FS.Handle.mk (String.ofList path) .read
    return .ok (← handle.readBinToEnd).toList
  catch
    | .noFileOrDirectory .. => return .error .notFound
    | .inappropriateType _ 20 _ => return .error .notDirectory
    | .inappropriateType .. => return .error .isDirectory
    | e => throw e

def readInput (arguments : List Text) : IO (Utf8.Bytes × Reader) := do
  match Request.ofTexts arguments with
  | .ok (.lex settings) =>
    if settings.source = Settings.standardInput then
      return ((← (← IO.getStdin).readBinToEnd).toList, fun _ => .error .notFound)
    else
      let content ← readFile settings.source
      return ([], fun _ => content)
  | _ => return ([], fun _ => .error .notFound)

end PlcScan.CommandLine

open PlcScan PlcScan.CommandLine in
def main (arguments : List String) : IO UInt32 := do
  let arguments := arguments.map String.toList
  let (stdin, reader) ← readInput arguments
  let outcome := run arguments stdin reader
  IO.print (String.ofList outcome.stdout)
  IO.eprint (String.ofList outcome.stderr)
  match outcome.ending with
  | .exit code => return code.toUInt32
  | .escape cause =>
    IO.eprintln (String.ofList cause.message)
    return 1
