/-!
# Command line arguments

Arguments are read from left to right. An option takes its value from the same argument or the next
one, flags of one letter may be joined, and after `--` everything is a file name. The first mistake
ends the reading, and so does a request for the version or for help; which options exclude each other
is looked at last.
-/

namespace LexScript.CommandLine

inductive Misuse
  | unexpected (argument : String)
  | repeated (option : String)
  | missingValue (option : String)
  | invalidValue (option value : String)
  | unneededValue (option : String)
  | conflict (first second : String)
  | noInput
  deriving DecidableEq

/-- What the arguments ask for instead of a run. -/
inductive Halt
  | version
  | help
  | misuse (fault : Misuse)
  deriving DecidableEq

structure Arguments where
  file : Option String
  source : Option String
  check : Bool
  noTypeCheck : Bool
  maxCallDepth : Option Nat
  verbosity : Nat
  deriving DecidableEq

namespace Arguments

def empty : Arguments := ⟨none, none, false, false, none, 0⟩

end Arguments

inductive Flag
  | check
  | noTypeCheck
  | verbose
  | version
  | help

inductive ValueOption
  | source
  | maxCallDepth

def ValueOption.name : ValueOption → String
  | source => "--eval"
  | maxCallDepth => "--max-call-depth"

def longOption? : String → Option (Flag ⊕ ValueOption)
  | "check" => some (.inl .check)
  | "no-typecheck" => some (.inl .noTypeCheck)
  | "verbose" => some (.inl .verbose)
  | "version" => some (.inl .version)
  | "help" => some (.inl .help)
  | "eval" => some (.inr .source)
  | "max-call-depth" => some (.inr .maxCallDepth)
  | _ => none

def shortOption? : Char → Option (Flag ⊕ ValueOption)
  | 'v' => some (.inl .verbose)
  | 'V' => some (.inl .version)
  | 'h' => some (.inl .help)
  | 'e' => some (.inr .source)
  | _ => none

/-- An unsigned number of 64 bits, with an optional plus sign. -/
def readCount? (text : String) : Option Nat :=
  let digits : List Char :=
    match text.toList with
    | '+' :: rest => rest
    | rest => rest
  let count := digits.foldl (fun n c => 10 * n + (c.toNat - '0'.toNat)) 0
  if digits ≠ [] ∧ digits.all Char.isDigit ∧ count < Nat.pow 2 64 then some count else none

namespace Arguments

/-- Takes a flag. Only the verbose flag may be given more than once. -/
def flag (a : Arguments) : Flag → Except Halt Arguments
  | .check =>
    if a.check then .error (.misuse (.repeated "--check")) else .ok { a with check := true }
  | .noTypeCheck =>
    if a.noTypeCheck then .error (.misuse (.repeated "--no-typecheck"))
    else .ok { a with noTypeCheck := true }
  | .verbose => .ok { a with verbosity := a.verbosity + 1 }
  | .version => .error .version
  | .help => .error .help

def valued (a : Arguments) (o : ValueOption) (value : String) : Except Halt Arguments :=
  match o with
  | .source =>
    if a.source.isSome then .error (.misuse (.repeated o.name))
    else .ok { a with source := some value }
  | .maxCallDepth =>
    if a.maxCallDepth.isSome then .error (.misuse (.repeated o.name))
    else
      match readCount? value with
      | some count => .ok { a with maxCallDepth := some count }
      | none => .error (.misuse (.invalidValue o.name value))

def position (a : Arguments) (name : String) : Except Halt Arguments :=
  if a.file.isSome then .error (.misuse (.unexpected name))
  else if name = "" then .error (.misuse (.invalidValue "[FILE]" name))
  else .ok { a with file := some name }

/-- Takes the letters of an argument that begins with a dash. A letter with a value takes what follows
it, after an equals sign if there is one; if nothing follows, the value is still awaited. -/
def letters (a : Arguments) : List Char → Except Halt (Arguments × Option ValueOption)
  | [] => .ok (a, none)
  | c :: rest =>
    match shortOption? c, rest with
    | some (.inl flag), rest => do letters (← a.flag flag) rest
    | some (.inr o), [] => .ok (a, some o)
    | some (.inr o), '=' :: value | some (.inr o), value => do
      return (← a.valued o (String.ofList value), none)
    | none, _ => .error (.misuse (.unexpected (String.ofList ['-', c])))

def long (a : Arguments) (argument : List Char) :
    Except Halt (Arguments × Option ValueOption) :=
  let name := String.ofList (argument.takeWhile (· ≠ '='))
  match longOption? name, argument.dropWhile (· ≠ '=') with
  | some (.inl flag), [] => return (← a.flag flag, none)
  | some (.inl _), _ => .error (.misuse (.unneededValue ("--" ++ name)))
  | some (.inr o), [] => .ok (a, some o)
  | some (.inr o), _ :: value => return (← a.valued o (String.ofList value), none)
  | none, _ => .error (.misuse (.unexpected ("--" ++ name)))

def isOption (argument : String) : Bool :=
  match argument.toList with
  | '-' :: _ :: _ => true
  | _ => false

def option (a : Arguments) (argument : String) :
    Except Halt (Arguments × Option ValueOption) :=
  match argument.toList with
  | '-' :: '-' :: rest => a.long rest
  | rest => a.letters rest.tail

/-- Reads arguments. `awaited` is the option whose value comes next, which must not look like an
option itself. -/
def read (a : Arguments) (awaited : Option ValueOption) : List String → Except Halt Arguments
  | [] =>
    match awaited with
    | some o => .error (.misuse (.missingValue o.name))
    | none => .ok a
  | argument :: rest =>
    match awaited with
    | some o =>
      if isOption argument then .error (.misuse (.missingValue o.name))
      else do read (← a.valued o argument) none rest
    | none =>
      if argument = "--" then rest.foldlM position a
      else if isOption argument then do
        let (a, awaited) ← a.option argument
        read a awaited rest
      else do read (← a.position argument) none rest

def ofList (arguments : List String) : Except Halt Arguments := do
  let a ← read empty none arguments
  if a.check ∧ a.noTypeCheck then throw (.misuse (.conflict "--check" "--no-typecheck"))
  if a.file.isSome ∧ a.source.isSome then throw (.misuse (.conflict "[FILE]" "--eval"))
  if a.file.isNone ∧ a.source.isNone then throw (.misuse .noInput)
  return a

end Arguments
end LexScript.CommandLine
