import PlcScan.CommandLine.Arguments
import PlcScan.SourceFile
import PlcScan.Text.Newline

namespace PlcScan.CommandLine

open Utf8 (Bytes)

inductive Escaped
  | read (path : Text) (fault : ReadFault)
  | internal (breach : Breach)
  deriving DecidableEq, Repr

def Escaped.message : Escaped → Text
  | read path fault => fault.message path
  | internal breach => breach.message

inductive Ending
  | exit (code : Nat)
  | escape (cause : Escaped)
  deriving DecidableEq, Repr

structure Outcome where
  ending : Ending
  stdout : Text
  stderr : Text
  deriving DecidableEq, Repr

def usageLines : List Text :=
  ["usage: plc-lex [-h] [--no-identifier-hyphens] [--reject-leading-zeros] [-v]".toList,
    "               [path]".toList]

def helpLines : List Text :=
  usageLines ++
  ["".toList,
    "Lex a PLC source file".toList,
    "".toList,
    "positional arguments:".toList,
    "  path                  Path to PLC source, or - for stdin (default)".toList,
    "".toList,
    "options:".toList,
    "  -h, --help            show this help message and exit".toList,
    "  --no-identifier-hyphens".toList,
    "                        Do not allow '-' inside identifiers".toList,
    "  --reject-leading-zeros".toList,
    "                        Treat numbers such as 007 as errors".toList,
    "  -v, --verbose         Enable debug logging".toList]

def listing (t : Token) : Text :=
  t.kind.name ++ '\t' :: Text.ofInt t.offset ++ '\t' :: t.lexeme.quote

inductive Event
  | started (name : Text) (length : Nat)
  | finished (name : Text) (count : Nat)
  | failed (name : Text) (error : LexicalError)
  deriving DecidableEq, Repr

def Event.message : Event → Text
  | started name length =>
    "lexing ".toList ++ name ++ " (".toList ++ Text.ofNat length ++ " characters)".toList
  | finished name count =>
    "lexed ".toList ++ Text.ofNat count ++ " tokens from ".toList ++ name
  | failed name error =>
    "lexing ".toList ++ name ++ " failed at offset ".toList ++
      Text.ofInt error.location.offset ++ ": ".toList ++ error.message

def Event.line (e : Event) : Text := "DEBUG:plc.lexer.lexer:".toList ++ e.message

namespace Settings

def options (s : Settings) : Options where
  identifierHyphens := !s.noIdentifierHyphens
  rejectLeadingZeros := s.rejectLeadingZeros

def source (s : Settings) : Text := s.path.getD standardInput

def sourceName (s : Settings) : Text :=
  if s.source = standardInput then "<stdin>".toList else s.source

/--
Standard input is taken to be strict UTF-8 with all line breaks turned into line feeds. This is an
assumption about the process that runs the command; files are read as they are.
-/
def readSource (s : Settings) (stdin : Bytes) (reader : Reader) : Except ReadFault Text :=
  if s.source = standardInput then
    ((Utf8.decode stdin).map Text.unifyNewlines).mapError .encoding
  else readText reader s.source

def log (s : Settings) (events : List Event) : Text :=
  if s.verbose then Text.lines (events.map Event.line) else []

def lexText (s : Settings) (t : Text) : Outcome :=
  let started := Event.started s.sourceName t.length
  match lex s.options s.sourceName t with
  | .ok tokens =>
    { ending := .exit 0
      stdout := Text.lines (tokens.map listing)
      stderr := s.log [started, .finished s.sourceName tokens.length] }
  | .error (.lexical e) =>
    { ending := .exit 1
      stdout := []
      stderr := s.log [started, .failed s.sourceName e] ++ e.render }
  | .error (.internal breach) =>
    { ending := .escape (.internal breach)
      stdout := []
      stderr := s.log [started] }

def run (s : Settings) (stdin : Bytes) (reader : Reader) : Outcome :=
  match s.readSource stdin reader with
  | .ok t => s.lexText t
  | .error (.path .notFound) =>
    ⟨.exit 2, [], Text.lines ["error: file not found: ".toList ++ s.source]⟩
  | .error fault => ⟨.escape (.read s.source fault), [], []⟩

end Settings

def run (arguments : List Text) (stdin : Bytes) (reader : Reader) : Outcome :=
  match Request.ofTexts arguments with
  | .error e =>
    ⟨.exit 2, [], Text.lines (usageLines ++ ["plc-lex: error: ".toList ++ e.message])⟩
  | .ok .help => ⟨.exit 0, Text.lines helpLines, []⟩
  | .ok (.lex settings) => settings.run stdin reader

end PlcScan.CommandLine
