import LexScript.Error
import LexScript.Token
import LexScript.Tree.Expr

/-!
# A place in a list of tokens

Reading stops at the first end of file token and never moves past it, so a cursor keeps the tokens
before it and that token apart.
-/

namespace LexScript

/-- The tokens still to be read, the end of file token after them, and the identity that the next
identifier gets. -/
structure Cursor where
  ahead : List Token
  stop : Token
  nextId : Nat

namespace Cursor

/-- The start of a list of tokens. Where the list has no end of file, one is added on the line of the
last token. -/
def start (tokens : List Token) : Cursor where
  ahead := tokens.takeWhile (·.kind ≠ .eof)
  stop := (tokens.find? (·.kind = .eof)).getD (.endOfFile ((tokens.getLast?.map Token.line).getD 1))
  nextId := 0

def token (c : Cursor) : Token := c.ahead.headD c.stop

/-- The cursor after its token; the end of file is never passed. -/
def next (c : Cursor) : Cursor := { c with ahead := c.ahead.tail }

end Cursor

abbrev Parse := StateT Cursor (Except Error)

namespace Parse

def peek : Parse TokenKind := return (← get).token.kind

def line : Parse Nat := return (← get).token.line

def advance : Parse Token := modifyGet fun c => (c.token, c.next)

def unexpected : Parse α := do
  let token := (← get).token
  throw ⟨.unexpectedToken token.value, token.line⟩

def refuse (message : String) : Parse α := do
  let token := (← get).token
  throw ⟨.unexpectedTokenBecause token.value message, token.line⟩

def skip : Parse Unit := modify Cursor.next

def expect (kind : TokenKind) : Parse Unit := do
  if (← peek) = kind then skip else unexpected

def expectOr (kind : TokenKind) (message : String) : Parse Unit := do
  if (← peek) = kind then skip else refuse message

/-- An identifier with this name and an identity of its own. -/
def fresh (name : String) : Parse Identifier :=
  modifyGet fun c => (⟨name, c.nextId⟩, { c with nextId := c.nextId + 1 })

def identifier (message : String) : Parse Identifier := do
  if (← peek) = .identifier then fresh (← advance).value else refuse message

/-- Gives a reader that needs fuel an amount in proportion to the tokens ahead. No reader calls itself
or another one more than a few times without taking a token, so the fuel is never spent. -/
def withFuel (reader : Nat → Parse α) : Parse α := do
  reader (8 * (← get).ahead.length + 8)

end Parse
end LexScript
