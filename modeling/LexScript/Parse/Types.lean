import LexScript.Parse.Cursor

/-!
# Reading types

A type is one of three names, or `fn(T, …)` with an optional `-> T`. The list of parameter types may
end in a comma.
-/

namespace LexScript.Parse

mutual

def typeWithin : Nat → Parse Ty
  | 0 => unexpected
  | fuel + 1 => do
    match ← peek with
    | .identifier =>
      let token ← advance
      match token.value with
      | "number" => return .number
      | "bool" => return .boolean
      | "string" => return .string
      | other => throw ⟨.unexpectedTokenBecause other "unknown type", token.line⟩
    | .fnWord =>
      skip
      expectOr .openParen "expected `(` in function type"
      let parameters ← typesWithin fuel
      expectOr .closeParen "expected `)` in function type"
      return .function parameters (← returnTypeWithin fuel)
    | _ => refuse "expected a type"

/-- Reads types up to a closing parenthesis, or until no comma follows. -/
def typesWithin : Nat → Parse (List Ty)
  | 0 => unexpected
  | fuel + 1 => do
    if (← peek) = .closeParen then return []
    let first ← typeWithin fuel
    if (← peek) ≠ .comma then return [first]
    skip
    return first :: (← typesWithin fuel)

/-- Reads an arrow and a type. Without an arrow the type is void. -/
def returnTypeWithin : Nat → Parse Ty
  | 0 => unexpected
  | fuel + 1 => do
    if (← peek) ≠ .arrow then return .void
    skip
    typeWithin fuel

end

def type : Parse Ty := withFuel typeWithin

def returnType : Parse Ty := withFuel returnTypeWithin

end LexScript.Parse
