import PlcScan.Cursor
import PlcScan.Scan

/-!
Scanning in single steps. A session holds the options and a cursor. After a command that failed the
next one goes on from where it left the cursor, with the characters that it had taken still pending.
-/

namespace PlcScan

structure Session where
  options : Options
  filename : Text
  cursor : Cursor
  deriving DecidableEq, Repr

inductive RuleName
  | token
  | identifier
  | number
  | character
  | string
  | operator
  deriving DecidableEq, Repr

namespace RuleName

def rule (o : Options) : RuleName → Text → Munch Kind
  | token => Rule.token o
  | identifier => Rule.identifier o
  | number => Rule.number o
  | character => Rule.character
  | string => Rule.string
  | operator => Rule.operator

end RuleName

inductive Command
  | has (n : Int)
  | charAt (n : Int)
  | advance
  | resetPending
  | emit (kind : Kind)
  | read (rule : RuleName)
  | escape
  | all
  | locate (offset : Option Int)
  | peek (patterns : List Pattern)
  | accept (patterns : List Pattern)
  deriving DecidableEq, Repr

inductive Reply
  | done
  | truth (b : Bool)
  | char (c : Option Char)
  | token (t : Token)
  | tokens (ts : List Token)
  | location (l : Location)
  | failure (f : Failure)
  deriving DecidableEq, Repr

def Cursor.emitAll (c : Cursor) : List Piece → List Token × Cursor
  | [] => ([], c)
  | .blank _ :: rest => (c.move 1).resetPending.emitAll rest
  | .lexeme kind t :: rest =>
    let (token, next) := (c.move t.length).emit kind
    let (tokens, last) := next.emitAll rest
    (token :: tokens, last)

namespace Session

def start (o : Options) (filename source : Text) : Session := ⟨o, filename, { source }⟩

def source (s : Session) : Text := s.cursor.source

def moveTo (s : Session) (c : Cursor) : Session := { s with cursor := c }

/-- Takes what a rule takes; on success `emit` turns the cursor into a reply and the next cursor. -/
def enter (s : Session) (m : Munch α) (emit : Cursor → α → Reply × Cursor) : Session × Reply :=
  let c := s.cursor.move m.used
  match m.result with
  | .ok a => let (reply, next) := emit c a; (s.moveTo next, reply)
  | .error halt =>
    (s.moveTo c,
      .failure (halt.failure s.source s.filename s.cursor.position m.used s.cursor.pending))

/-- Scans the whole text from its beginning. What a rule took before it halted stays pending. -/
def scanAll (s : Session) : Session × Reply :=
  let scan := Scan.of s.options (Rule.token s.options) s.source
  let (tokens, c) := Cursor.emitAll { source := s.source } scan.pieces
  match scan.stop with
  | none => (s.moveTo c, .tokens tokens)
  | some stop =>
    (s.moveTo (c.move stop.used),
      .failure (stop.halt.failure s.source s.filename c.position stop.used c.pending))

def perform (s : Session) : Command → Session × Reply
  | .has n => (s, .truth (s.cursor.has n))
  | .charAt n => (s, .char (s.cursor.charAt? n))
  | .advance =>
    match s.cursor.advance with
    | .ok c => (s.moveTo c, .done)
    | .error b => (s, .failure (.internal b))
  | .resetPending => (s.moveTo s.cursor.resetPending, .done)
  | .emit kind => let (t, c) := s.cursor.emit kind; (s.moveTo c, .token t)
  | .read rule =>
    s.enter (rule.rule s.options s.cursor.rest) fun c kind =>
      let (t, next) := c.emit kind
      (.token t, next)
  | .escape => s.enter (Rule.escape s.cursor.rest) fun c _ => (.done, c)
  | .all => s.scanAll
  | .locate offset =>
    (s, .location (.of s.source (offset.getD s.cursor.position) s.filename))
  | .peek patterns => (s, .truth (s.cursor.peek (patterns.map (·.test s.options))))
  | .accept patterns =>
    let (b, c) := s.cursor.accept (patterns.map (·.test s.options))
    (s.moveTo c, .truth b)

def performAll (s : Session) : List Command → List (Session × Reply)
  | [] => []
  | command :: rest =>
    let (next, reply) := s.perform command
    (next, reply) :: performAll next rest

end Session

end PlcScan
