import ScriptEngine.Listing

/-! # Findings

What can be wrong with an instruction list, each finding with the name of its procedure and, where there is
one, the index of the instruction.
-/

namespace ScriptEngine

/-- What is wrong with one instruction. -/
inductive Flaw where
  | tooManyArguments (argc limit : Nat)
  | branchOutOfRange (offset : Offset)
  | handlerOutOfRange (offset : Offset)
  | handlerNotCatch (found : String)
  | orphanCatch
  | reservedArity (name : String) (expected found : Nat)
  | duplicateKeyword (name : String)
  | stackUnderflow
  | stackMismatch (expected found : Nat)
deriving DecidableEq, Repr

/-- A finding of the verification. -/
inductive Finding where
  /-- The program was refused, so that there is nothing to verify. -/
  | refused (report : String)
  | tooManyInstructions (procedure : String) (size limit : Nat)
  | unbalancedTry (procedure : String) (enters exits : Nat)
  | flaw (procedure : String) (index : Nat) (what : Flaw)
deriving DecidableEq, Repr

def Flaw.message : Flaw → String
  | tooManyArguments argc limit => s!"call passes {argc} arguments, limit is {limit}"
  | branchOutOfRange offset => s!"branch {signed offset.toInt} lands outside the instruction list"
  | handlerOutOfRange offset => s!"try handler {signed offset.toInt} lands outside the instruction list"
  | handlerNotCatch found => s!"try handler points at {found} instead of CATCH"
  | orphanCatch => "CATCH without a TRY"
  | reservedArity name expected found => s!"{name} takes {expected} arguments, found {found}"
  | duplicateKeyword name => s!"keyword '{name}' given twice"
  | stackUnderflow => "stack underflow"
  | stackMismatch expected found =>
    s!"stack depth {found} disagrees with {expected} on another path"

def Finding.message : Finding → String
  | refused report => s!"program failed to parse: {report}"
  | tooManyInstructions procedure size limit =>
    s!"{procedure}: {size} instructions exceeds the limit of {limit}"
  | unbalancedTry procedure enters exits => s!"{procedure}: {enters} TRY but {exits} END_TRY"
  | flaw procedure index what => s!"{procedure}@{index}: {what.message}"

/-- Whether control flow is broken, so that paths cannot be followed. -/
def Flaw.isFatal : Flaw → Bool
  | branchOutOfRange _ | handlerOutOfRange _ | handlerNotCatch _ => true
  | _ => false

end ScriptEngine
