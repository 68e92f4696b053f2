import PlcScan.Text.DecimalDigit
import PlcScan.Text.Quoted

namespace PlcScan.CommandLine

inductive Flag
  | help
  | noIdentifierHyphens
  | rejectLeadingZeros
  | verbose
  deriving DecidableEq, Repr

namespace Flag

def all : List Flag := [help, noIdentifierHyphens, rejectLeadingZeros, verbose]

def long : Flag → Text
  | help => "--help".toList
  | noIdentifierHyphens => "--no-identifier-hyphens".toList
  | rejectLeadingZeros => "--reject-leading-zeros".toList
  | verbose => "--verbose".toList

def short? : Flag → Option Char
  | help => some 'h'
  | verbose => some 'v'
  | _ => none

def ofShort? (c : Char) : Option Flag := all.find? (·.short? == some c)

def name (f : Flag) : Text :=
  match f.short? with
  | some c => ['-', c, '/'] ++ f.long
  | none => f.long

end Flag

inductive UsageError
  | ambiguous (word : Text)
  | ignoredValue (flag : Flag) (value : Text)
  | unrecognized (words : List Text)
  deriving DecidableEq, Repr

def UsageError.message : UsageError → Text
  | ambiguous word =>
    "ambiguous option: ".toList ++ word ++ " could match ".toList ++
      Text.join ", ".toList (Flag.all.map Flag.long)
  | ignoredValue flag value =>
    "argument ".toList ++ flag.name ++ ": ignored explicit argument ".toList ++ value.quote
  | unrecognized words => "unrecognized arguments: ".toList ++ Text.join [' '] words

inductive Word
  | operand (t : Text)
  | separator
  | long (flag : Flag) (value : Option Text)
  | short (flag : Flag) (value : Option Text)
  | unknown (t : Text)
  deriving DecidableEq, Repr

namespace Word

def cutValue (t : Text) : Text × Option Text :=
  match t.dropWhile (· != '=') with
  | [] => (t, none)
  | _ :: value => (t.takeWhile (· != '='), some value)

/-- Digits, or digits around a dot with at least one after it; a final line feed does not count. -/
def isUnsignedNumber (t : Text) : Bool :=
  let body := if t.getLast? = some '\n' then t.dropLast else t
  match body.dropWhile Text.isDecimalDigit with
  | [] => body != []
  | '.' :: rest => rest != [] && rest.all Text.isDecimalDigit
  | _ => false

def other (t : Text) : Word :=
  if isUnsignedNumber t.tail || t.contains ' ' then operand t else unknown t

def ofText : Text → Except UsageError Word
  | '-' :: '-' :: rest =>
    let t := '-' :: '-' :: rest
    let (name, value) := cutValue t
    match Flag.all.filter (name.isPrefixOf ·.long) with
    | [] => .ok (other t)
    | [flag] => .ok (long flag value)
    | _ => .error (.ambiguous t)
  | '-' :: c :: rest =>
    match Flag.ofShort? c with
    | none => .ok (other ('-' :: c :: rest))
    | some flag =>
      match rest with
      | [] => .ok (short flag none)
      | '=' :: value => .ok (short flag (some value))
      | _ => .ok (short flag (some rest))
  | t => .ok (operand t)

def ofTexts : List Text → Except UsageError (List Word)
  | [] => .ok []
  | t :: rest =>
    if t = ['-', '-'] then .ok (separator :: rest.map operand)
    else do
      let word ← ofText t
      return word :: (← ofTexts rest)

def cluster (flag : Flag) : Text → Except UsageError (List Flag)
  | [] => .ok [flag]
  | c :: rest =>
    match Flag.ofShort? c with
    | none => .error (.ignoredValue flag (c :: rest))
    | some next => (cluster next rest).map (flag :: ·)

/--
The option parser that the command runs with reads what is attached to a short flag as more short
flags, behind an equals sign too, so `-v=h` asks for help. Nothing behind the sign is a value.
-/
def shortFlags (flag : Flag) : Option Text → Except UsageError (List Flag)
  | none => .ok [flag]
  | some [] => .error (.ignoredValue flag [])
  | some rest => cluster flag rest

end Word

structure Settings where
  path : Option Text := none
  noIdentifierHyphens : Bool := false
  rejectLeadingZeros : Bool := false
  verbose : Bool := false
  surplus : List Text := []
  deriving DecidableEq, Repr

inductive Request
  | help
  | lex (settings : Settings)
  deriving DecidableEq, Repr

namespace Settings

def withPath (s : Settings) (t : Text) : Settings := { s with path := some t }

def withSurplus (s : Settings) (t : Text) : Settings := { s with surplus := s.surplus ++ [t] }

def withFlags (s : Settings) : List Flag → Option Settings
  | [] => some s
  | .help :: _ => none
  | .noIdentifierHyphens :: rest => { s with noIdentifierHyphens := true }.withFlags rest
  | .rejectLeadingZeros :: rest => { s with rejectLeadingZeros := true }.withFlags rest
  | .verbose :: rest => { s with verbose := true }.withFlags rest

def standardInput : Text := ['-']

/--
Acts on the words in order. A separator is dropped next to the path and has no place elsewhere; if
it stands last and there is no path, the input is standard input.
-/
def act (s : Settings) : List Word → Except UsageError Request
  | [] => if s.surplus = [] then .ok (.lex s) else .error (.unrecognized s.surplus)
  | .operand t :: .separator :: rest =>
    match s.path with
    | none => (s.withPath t).act rest
    | some _ => ((s.withSurplus t).withSurplus ['-', '-']).act rest
  | .operand t :: rest =>
    match s.path with
    | none => (s.withPath t).act rest
    | some _ => (s.withSurplus t).act rest
  | .separator :: .operand t :: rest =>
    match s.path with
    | none => (s.withPath t).act rest
    | some _ => ((s.withSurplus ['-', '-']).withSurplus t).act rest
  | .separator :: rest =>
    match s.path with
    | none => (s.withPath standardInput).act rest
    | some _ => (s.withSurplus ['-', '-']).act rest
  | .unknown t :: rest => (s.withSurplus t).act rest
  | .long flag (some value) :: _ => .error (.ignoredValue flag value)
  | .long flag none :: rest =>
    match s.withFlags [flag] with
    | none => .ok .help
    | some s => s.act rest
  | .short flag value :: rest =>
    match Word.shortFlags flag value with
    | .error e => .error e
    | .ok flags =>
      match s.withFlags flags with
      | none => .ok .help
      | some s => s.act rest

end Settings

def Request.ofTexts (arguments : List Text) : Except UsageError Request := do
  Settings.act {} (← Word.ofTexts arguments)

end PlcScan.CommandLine
