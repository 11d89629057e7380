import LexScript.CommandLine.Arguments
import LexScript.Run

/-!
# Replies to a command line

What a command writes and how it exits: with zero if all went well, with one after an error in the
program, and with two if the program could not be had.
-/

namespace LexScript.CommandLine

inductive ReadFault
  | notFound
  | directory
  | notDirectory
  | denied
  | notText

def ReadFault.text : ReadFault → String
  | notFound => "No such file or directory (os error 2)"
  | directory => "Is a directory (os error 21)"
  | notDirectory => "Not a directory (os error 20)"
  | denied => "Permission denied (os error 13)"
  | notText => "stream did not contain valid UTF-8"

def Misuse.text : Misuse → String
  | unexpected argument => "error: unexpected argument: " ++ argument ++ "\n"
  | repeated option => "error: given more than once: " ++ option ++ "\n"
  | missingValue option => "error: a value is required for " ++ option ++ "\n"
  | invalidValue option value => "error: invalid value for " ++ option ++ ": " ++ value ++ "\n"
  | unneededValue option => "error: no value is taken by " ++ option ++ "\n"
  | conflict first second => "error: " ++ first ++ " can not be used with " ++ second ++ "\n"
  | noInput => "error: a file or --eval is required\n"

def versionText : String := "kaori 0.1.0\n"

def helpText : String :=
  "Usage: kaori [OPTIONS] [FILE]\n\n" ++
  "Arguments:\n" ++
  "  [FILE]  Source file to run\n\n" ++
  "Options:\n" ++
  "  -e, --eval <SOURCE>       Run the given source text instead of a file\n" ++
  "      --check               Resolve and type check only, without running the program\n" ++
  "      --no-typecheck        Skip the type checker\n" ++
  "      --max-call-depth <N>  Maximum number of nested function calls\n" ++
  "  -v, --verbose             Accepted any number of times\n" ++
  "  -h, --help                Print help\n" ++
  "  -V, --version             Print version\n"

/-- What a command leaves: its exit code, what it wrote, and what it wrote about errors. The last is
missing where arguments are refused, since its wording is of no account. -/
structure Reply where
  exit : UInt8
  output : String
  errors : Option String

def Halt.reply : Halt → Reply
  | version => ⟨0, versionText, some ""⟩
  | help => ⟨0, helpText, some ""⟩
  | misuse _ => ⟨2, "", none⟩

def unreadable (file : String) (fault : ReadFault) : Reply :=
  ⟨2, "", some ("error: could not read " ++ file ++ ": " ++ fault.text ++ "\n")⟩

def Arguments.options (a : Arguments) : Options :=
  ⟨!a.noTypeCheck, !a.check, a.maxCallDepth.getD Options.default.maxCallDepth⟩

def errorText : Option Error → String
  | some e => e.message ++ "\n"
  | none => ""

def exitCode : Option Error → UInt8
  | some _ => 1
  | none => 0

/-- The source text, from the arguments or from a file. -/
def Arguments.getSource [Monad m] (a : Arguments) (read : String → m (Except ReadFault String)) :
    m (Except Reply String) :=
  match a.source, a.file with
  | some source, _ => return .ok source
  | none, some file => return (← read file).mapError (unreadable file)
  | none, none => return .error (Halt.misuse .noInput).reply

/-- The reply to a list of arguments, where a run takes at most so many steps. -/
def reply (steps : Nat) (read : String → Except ReadFault String) (arguments : List String) : Reply :=
  match Arguments.ofList arguments with
  | .error halt => halt.reply
  | .ok a =>
    match Id.run (a.getSource fun file => pure (read file)) with
    | .error refusal => refusal
    | .ok source =>
      let (output, error) := a.options.run steps source
      ⟨exitCode error, output, some (errorText error)⟩

end LexScript.CommandLine
