import ScriptEngine.CommandLine.Outcome

/-! # The command line

Reads the file of a command, prints the outcome and exits with its code.
-/

open ScriptEngine

/-- The reason behind an error of the system. -/
def faultOf : IO.Error → ReadFault
  | .noFileOrDirectory _ code details | .inappropriateType _ code details
  | .permissionDenied _ code details | .invalidArgument _ code details =>
    .other s!"{details} (os error {code})"
  | e => .other (toString e)

/-- The bytes of a file, or the reason why it cannot be read. -/
def readInput (path : String) : IO (Except ReadFault ByteArray) := do
  try
    let bytes ← IO.FS.readBinFile path
    pure (.ok bytes)
  catch e => pure (.error (faultOf e))

def main (args : List String) : IO UInt32 := do
  let outcome ← match Command.ofArguments? args with
    | none => pure Outcome.misuse
    | some command => do
      let content ← readInput command.input
      pure (Outcome.ofCommand command content)
  IO.print outcome.out
  IO.eprint outcome.err
  pure outcome.code.toUInt32
