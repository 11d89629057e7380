import LexScript.Text.Characters

/-!
# Tokens
-/

namespace LexScript

/-- The kinds of tokens. Those whose name ends in `Word` are reserved words. -/
inductive TokenKind
  | eof | number | string | identifier
  | openCurly | closeCurly | openParen | closeParen
  | assignment | equals | not | notEquals
  | less | lessEquals | greater | greaterEquals
  | or | and
  | semicolon | colon | comma | arrow
  | plus | dash | slash | star | percent
  | letWord | fnWord | returnWord | ifWord | elseWord | whileWord | forWord | printWord
  | trueWord | falseWord
  deriving DecidableEq

def TokenKind.name : TokenKind → String
  | eof => "EOF"
  | number => "Number"
  | string => "String"
  | identifier => "Identifier"
  | openCurly => "OpenCurly"
  | closeCurly => "CloseCurly"
  | openParen => "OpenParen"
  | closeParen => "CloseParen"
  | assignment => "Assignment"
  | equals => "Equals"
  | not => "Not"
  | notEquals => "NotEquals"
  | less => "Less"
  | lessEquals => "LessEquals"
  | greater => "Greater"
  | greaterEquals => "GreaterEquals"
  | or => "Or"
  | and => "And"
  | semicolon => "Semicolon"
  | colon => "Colon"
  | comma => "Comma"
  | arrow => "Arrow"
  | plus => "Plus"
  | dash => "Dash"
  | slash => "Slash"
  | star => "Star"
  | percent => "Percent"
  | letWord => "Let"
  | fnWord => "Fn"
  | returnWord => "Return"
  | ifWord => "If"
  | elseWord => "Else"
  | whileWord => "While"
  | forWord => "For"
  | printWord => "Print"
  | trueWord => "True"
  | falseWord => "False"

/-- A token and the line on which it starts. The value of a string token is the string that the
literal stands for; that of any other token is its source text. -/
structure Token where
  kind : TokenKind
  value : String
  line : Nat
  deriving DecidableEq

namespace Token

def endOfFile (line : Nat) : Token := ⟨.eof, "EOF", line⟩

def text (t : Token) : String :=
  t.kind.name ++ " " ++ Text.quoted t.value ++ " (line " ++ toString t.line ++ ")"

end Token
end LexScript
