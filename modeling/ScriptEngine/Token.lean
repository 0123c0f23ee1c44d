import ScriptEngine.Source.Span

namespace ScriptEngine

inductive Keyword where
  | varWord | functionWord | returnWord | ifWord | elseWord | whileWord | throwWord
  | tryWord | catchWord | trueWord | falseWord | nullWord | thisWord | typeofWord
deriving DecidableEq, Repr

namespace Keyword

def spelling : Keyword → String
  | .varWord => "var"
  | .functionWord => "function"
  | .returnWord => "return"
  | .ifWord => "if"
  | .elseWord => "else"
  | .whileWord => "while"
  | .throwWord => "throw"
  | .tryWord => "try"
  | .catchWord => "catch"
  | .trueWord => "true"
  | .falseWord => "false"
  | .nullWord => "null"
  | .thisWord => "this"
  | .typeofWord => "typeof"

def all : List Keyword :=
  [.varWord, .functionWord, .returnWord, .ifWord, .elseWord, .whileWord, .throwWord, .tryWord,
    .catchWord, .trueWord, .falseWord, .nullWord, .thisWord, .typeofWord]

def ofSpelling? (s : String) : Option Keyword :=
  all.find? (·.spelling = s)

end Keyword

inductive Mark where
  | parenOpen | parenClose | braceOpen | braceClose | bracketOpen | bracketClose
  | comma | dot | colon | semicolon | assign
  | plus | minus | star | slash | percent
  | doubleAmpersand | doublePipe
  | bang | bangEqual | bangEqualEqual | equalEqual | equalEqualEqual
  | less | lessEqual | greater | greaterEqual
deriving DecidableEq, Repr

namespace Mark

def spelling : Mark → List Char
  | .parenOpen => ['(']
  | .parenClose => [')']
  | .braceOpen => ['\x7b']
  | .braceClose => ['\x7d']
  | .bracketOpen => ['[']
  | .bracketClose => [']']
  | .comma => [',']
  | .dot => ['.']
  | .colon => [':']
  | .semicolon => [';']
  | .assign => ['=']
  | .plus => ['+']
  | .minus => ['-']
  | .star => ['*']
  | .slash => ['/']
  | .percent => ['%']
  | .doubleAmpersand => ['&', '&']
  | .doublePipe => ['|', '|']
  | .bang => ['!']
  | .bangEqual => ['!', '=']
  | .bangEqualEqual => ['!', '=', '=']
  | .equalEqual => ['=', '=']
  | .equalEqualEqual => ['=', '=', '=']
  | .less => ['<']
  | .lessEqual => ['<', '=']
  | .greater => ['>']
  | .greaterEqual => ['>', '=']

/-- Longer marks stand before their own beginnings. -/
def all : List Mark :=
  [.bangEqualEqual, .equalEqualEqual, .bangEqual, .equalEqual, .lessEqual, .greaterEqual,
    .doubleAmpersand, .doublePipe, .parenOpen, .parenClose, .braceOpen, .braceClose, .bracketOpen,
    .bracketClose, .comma, .dot, .colon, .semicolon, .assign, .plus, .minus, .star, .slash,
    .percent, .bang, .less, .greater]

def leading? (cs : List Char) : Option Mark :=
  all.find? (·.spelling.isPrefixOf cs)

theorem spelling_prefix_of_leading? {cs : List Char} {m : Mark} (h : leading? cs = some m) :
    m.spelling <+: cs := by
  simpa using List.find?_some h

end Mark

inductive TokenKind where
  | identifier
  | number
  | string
  | keyword (k : Keyword)
  | mark (m : Mark)
  | unknown
deriving DecidableEq, Repr

structure Token where
  kind : TokenKind
  lexeme : String
  span : Span
deriving DecidableEq, Repr

structure Tokens where
  items : List Token
  finish : Span
deriving DecidableEq, Repr

end ScriptEngine
