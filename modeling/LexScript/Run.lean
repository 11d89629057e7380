import LexScript.Machine.Step
import LexScript.Parse.Program
import LexScript.Scope.Resolution
import LexScript.Token.Lexeme
import LexScript.Typing.Program

/-!
# Running programs

A source text becomes tokens, a program, and the addresses of its names; then it is checked and run.
The first error of any phase ends it, and what was printed before stays.
-/

namespace LexScript

/-- Which phases follow once the names are resolved, and the bound on calls in progress. -/
structure Options where
  typeCheck : Bool
  execute : Bool
  maxCallDepth : Nat

/-- Everything is on, and ten thousand calls may be in progress. -/
def Options.default : Options := ⟨true, true, 10000⟩

def Program.ofSource (source : String) : Except Error Program :=
  Token.ofSource source >>= Program.ofTokens

def Program.launch (program : Program) (σ : Store) : Machine := ⟨.enter program.declarations, [], σ⟩

/-- The phases before the run, and the run that is about to begin. Without a run to be done there is
nothing after them but success. -/
def Options.launch (options : Options) (source : String) (sink : Sink) :
    Except Error (Setting × Machine) := do
  let program ← Program.ofSource source
  let addresses ← Resolutions.ofProgram program
  if options.typeCheck then program.check addresses
  let start := program.launch (.start sink)
  let machine : Machine := if options.execute then start else { start with control := .ended .normal }
  return (⟨addresses, options.maxCallDepth⟩, machine)

/-- What a source text prints in so many steps, and the error with which it ends, if there is one. -/
def Options.run (options : Options) (steps : Nat) (source : String) : String × Option Error :=
  match options.launch source .unlimited with
  | .error e => ("", some e)
  | .ok (setting, machine) =>
    let finish := machine.run setting steps
    (finish.store.sink.text, finish.error?)

end LexScript
