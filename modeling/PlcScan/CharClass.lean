import PlcScan.Text.Basic

namespace PlcScan

inductive CharClass
  | identifierStart
  | identifierPart
  | identifierPartNoHyphen
  | sign
  | digit
  | nonzeroDigit
  | zero
  | dot
  | singleQuote
  | doubleQuote
  | backslash
  | escapeChar
  | characterBody
  | stringBody
  deriving DecidableEq, Repr

namespace CharClass

def mem : CharClass → Char → Bool
  | identifierStart, c => c = '@' || c.isAlpha
  | identifierPart, c => c.isAlphanum || c = '_' || c = '-'
  | identifierPartNoHyphen, c => c.isAlphanum || c = '_'
  | sign, c => c = '+' || c = '-'
  | digit, c => c.isDigit
  | nonzeroDigit, c => c.isDigit && c != '0'
  | zero, c => c = '0'
  | dot, c => c = '.'
  | singleQuote, c => c = '\''
  | doubleQuote, c => c = '"'
  | backslash, c => c = '\\'
  | escapeChar, c => ['b', 'n', 'r', 't', '\'', '"', '\\'].contains c
  | characterBody, c => c != '\'' && c != '\n' && c != '\r' && c != '\\'
  | stringBody, c => c != '"' && c != '\n' && c != '\r' && c != '\\'

end CharClass

end PlcScan
