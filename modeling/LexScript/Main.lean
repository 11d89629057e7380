import LexScript.CommandLine.Reply

/-!
# The command

Reads files and writes lines as a run prints them.
-/

namespace LexScript.CommandLine

def readFile (name : String) : IO (Except ReadFault String) := do
  try
    let bytes ← IO.FS.readBinFile name
    match String.fromUTF8? bytes with
    | some text => return .ok text
    | none => return .error .notText
  catch
    | .permissionDenied .. => return .error .denied
    | .inappropriateType .. => return .error .directory
    | _ => return .error .notFound

/-- Goes on with a run to its end, and writes what it prints after every few thousand steps. -/
partial def finish (setting : Setting) (machine : Machine) : IO (Option Error) := do
  let machine := machine.run setting 4096
  (← IO.getStdout).putStr machine.store.sink.text
  (← IO.getStdout).flush
  match machine.outcome? with
  | some _ => return machine.error?
  | none => finish setting { machine with store := machine.store.drained }

def writeReply (r : Reply) : IO UInt32 := do
  (← IO.getStdout).putStr r.output
  (← IO.getStderr).putStr (r.errors.getD "")
  return r.exit.toUInt32

def runSource (options : Options) (source : String) : IO UInt32 := do
  let error ←
    match options.launch source .unlimited with
    | .error e => pure (some e)
    | .ok (setting, machine) => finish setting machine
  (← IO.getStderr).putStr (errorText error)
  return (exitCode error).toUInt32

end LexScript.CommandLine

open LexScript.CommandLine in
def main (arguments : List String) : IO UInt32 := do
  match Arguments.ofList arguments with
  | .error (.misuse fault) =>
    (← IO.getStderr).putStr fault.text
    writeReply (Halt.misuse fault).reply
  | .error halt => writeReply halt.reply
  | .ok a =>
    match ← a.getSource readFile with
    | .error refusal => writeReply refusal
    | .ok source => runSource a.options source
