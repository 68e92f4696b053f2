import PlcScan.Text.Quoted

namespace PlcScan

inductive Kind
  | identifier
  | integer
  | decimal
  | character
  | string
  | operator
  deriving DecidableEq, Repr

namespace Kind

def name : Kind → Text
  | identifier => "IDENTIFIER".toList
  | integer => "INTEGER".toList
  | decimal => "DECIMAL".toList
  | character => "CHARACTER".toList
  | string => "STRING".toList
  | operator => "OPERATOR".toList

def all : List Kind := [identifier, integer, decimal, character, string, operator]

def ofName? (name : Text) : Option Kind := all.find? (·.name == name)

end Kind

structure Token where
  kind : Kind
  lexeme : Text
  offset : Int
  deriving DecidableEq, Repr

namespace Token

def stop (t : Token) : Int := t.offset + t.lexeme.length

def isLiteral (t : Token) : Bool :=
  [Kind.integer, .decimal, .character, .string].contains t.kind

def brief (t : Token) : Text := t.kind.name ++ '(' :: t.lexeme.quote ++ [')']

def detail (t : Token) : Text :=
  "Token(".toList ++ t.kind.name ++ ", ".toList ++ t.lexeme.quote ++ ", ".toList ++
    Text.ofInt t.offset ++ [')']

end Token

end PlcScan
