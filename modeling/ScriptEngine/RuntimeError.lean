import ScriptEngine.Number.Shortest
import ScriptEngine.SyntaxError

/-! # Errors of a run

What can go wrong while a script runs, in three tiers: a run-time error, which scripts can catch once it is
located; termination by the host or the debugger; and a broken invariant of the engine, which only a
malformed instruction list can cause. A program that was refused reports its fault on every use.
-/

namespace ScriptEngine

/-- The causes of run-time errors. -/
inductive RuntimeError where
  | unknownVariable (name : String)
  | unknownFunction (name : String)
  | unknownMember (typeName member : String)
  | readOnlyMember (typeName member : String)
  | missingArgument (function parameter : String)
  | tooManyArguments (function : String) (expected found : Nat)
  | positionalAfterKeyword (function : String)
  | unknownKeyword (function name : String)
  | duplicateArgument (function name : String)
  | typeMismatch (operation expected found : String)
  | indexOutOfBounds (index : Int) (length : Nat)
  | integerOutOfRange (value : Float) (bits : Nat)
  | keyNotFound (key : String)
  | divisionByZero
  | unhashable (typeName : String)
  | notCallable (what : String)
  | invalidArgument (function message : String)
  | rangeTooLong (length : Float) (limit : Nat)
  | recursionLimit (limit : Nat)
  | stackOverflow (limit : Nat)
  | output (reason : String)
  | raised (message : String)
deriving Repr

/-- The wording of a cause. -/
def RuntimeError.message : RuntimeError → String
  | unknownVariable name => s!"unknown variable '{name}'"
  | unknownFunction name => s!"unknown function '{name}'"
  | unknownMember typeName member => s!"{typeName} has no member '{member}'"
  | readOnlyMember typeName member => s!"member '{member}' of {typeName} cannot be assigned"
  | missingArgument function parameter => s!"missing argument '{parameter}' in call to {function}"
  | tooManyArguments function expected found =>
    s!"{function} takes {expected} argument(s) but {found} were given"
  | positionalAfterKeyword function =>
    s!"positional argument follows keyword argument in call to {function}"
  | unknownKeyword function name => s!"{function} has no parameter named '{name}'"
  | duplicateArgument function name =>
    s!"argument '{name}' given more than once in call to {function}"
  | typeMismatch operation expected found => s!"{operation} expects {expected}, found {found}"
  | indexOutOfBounds index length => s!"index {index} out of bounds (length {length})"
  | integerOutOfRange value bits => s!"{Number.text value} is not a {bits}-bit integer"
  | keyNotFound key => s!"key {key} not found"
  | divisionByZero => "division by zero"
  | unhashable typeName => s!"{typeName} is not hashable"
  | notCallable what => s!"{what} is not callable"
  | invalidArgument function message => s!"invalid argument to {function}: {message}"
  | rangeTooLong length limit => s!"range of {Number.text length} elements exceeds limit {limit}"
  | recursionLimit limit => s!"call depth exceeded limit {limit}"
  | stackOverflow limit => s!"operand stack exceeded limit {limit}"
  | output reason => s!"output error: {reason}"
  | raised message => message

/-- A run-time error with the place of the instruction that raised it; `reported` once the host's error
watcher saw it. -/
structure LocatedError where
  file : String
  place : Position
  error : RuntimeError
  reported : Bool

/-- A located error as one text, the one that a handler of the script receives. -/
def LocatedError.message (e : LocatedError) : String :=
  s!"{e.file}:{e.place.line}:{e.place.column}: {e.error.message}"

/-- Everything that a run can end with except a value. -/
inductive ScriptError where
  | refused (report : ParseError)
  | runtime (located : LocatedError)
  | terminated
  | internal (what : String)

namespace ScriptError

def message : ScriptError → String
  | refused report => report.message
  | runtime located => located.message
  | terminated => "execution terminated"
  | internal what => s!"internal error: {what}"

/-- A run-time error at a place, not reported yet. -/
def located (file : String) (place : Position) (error : RuntimeError) : ScriptError :=
  .runtime ⟨file, place, error, false⟩

/-- Whether a handler of the script may take the error. -/
def isRecoverable : ScriptError → Bool
  | runtime _ => true
  | _ => false

end ScriptError

end ScriptEngine
