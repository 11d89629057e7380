import LexScript.Text.Characters
import LexScript.Value.Operator
import LexScript.Number.Parts
import LexScript.Number.Text
import LexScript.Number.Read
import LexScript.Token.Lexeme
import LexScript.Tree.Expr
import LexScript.Tree.Program
import LexScript.Parse.Cursor
import LexScript.Parse.Expr
import LexScript.Parse.Program
import LexScript.Scope.Stack
import LexScript.Scope.Names
import LexScript.Scope.Resolution
import LexScript.Typing.Expr
import LexScript.Typing.Program
import LexScript.Machine.State
import LexScript.Machine.Step
import LexScript.Run
import LexScript.Session
import LexScript.CommandLine.Arguments
import LexScript.CommandLine.Reply
import LexScript.Main
import LexScript.Proofs.Token.Munch
import LexScript.Proofs.Scope.Names
import LexScript.Proofs.Scope.Place
import LexScript.Proofs.Scope.Part
import LexScript.Proofs.Scope.Recording
import LexScript.Proofs.Parse.Identities
import LexScript.Proofs.Scope.Lexical
import LexScript.Proofs.Machine.Addresses
import LexScript.Proofs.Machine.TypeSoundness
import LexScript.Proofs.ErrorPhases
import LexScript.Proofs.Machine.Restoration
import LexScript.Proofs.Machine.DepthLimit
import LexScript.Proofs.Machine.SurplusArguments
import LexScript.Proofs.Machine.Reach
import LexScript.Proofs.Machine.Rerun
import LexScript.Proofs.Machine.MissingArguments
import LexScript.Proofs.Machine.Ready
import LexScript.Proofs.Parse.Precedence
import LexScript.Proofs.Machine.ReadyRun
import LexScript.Proofs.Machine.Entered
import LexScript.Proofs.Machine.Initialisation
import LexScript.Proofs.Parse.Language
import LexScript.Proofs.Machine.Respelling
import LexScript.Proofs.Machine.Swaps
import LexScript.Proofs.Machine.LimitedOutput
import LexScript.Proofs.Machine.Termination
import LexScript.Proofs.Machine.Equivalence
import LexScript.Proofs.Parse.Recursion
import LexScript.Proofs.Typing.Operations
import LexScript.Proofs.Parse.WrittenTypes
import LexScript.Proofs.Typing.Restoration
import LexScript.Proofs.Scope.Handles
import LexScript.Proofs.Value.Repetition
