import ScriptEngine.Source

/-! # Errors of a source text

What can be wrong with a source text, and the report of such an error: file, place, cause and the
offending line.
-/

namespace ScriptEngine

/-- The causes for which a source text is refused. -/
inductive SyntaxError where
  | unterminatedString
  | unterminatedComment
  | unexpectedCharacter (c : Char)
  | malformedNumber (text : String)
  | unexpectedToken (expected found : String)
  | invalidAssignmentTarget
  | duplicateParameter (name : String)
  | nonLiteralDefault (parameter : String)
  | classShadowsName (name : String)
  | staticOutsideClass
  | unresolvedPlaceholder (index : Nat)
deriving DecidableEq, Repr

/-- The wording of a cause. -/
def SyntaxError.message : SyntaxError → String
  | unterminatedString => "unterminated string literal"
  | unterminatedComment => "unterminated block comment"
  | unexpectedCharacter c => s!"unexpected character '{c}'"
  | malformedNumber text => s!"malformed number '{text}'"
  | unexpectedToken expected found => s!"expected {expected}, found {found}"
  | invalidAssignmentTarget => "cannot assign to this expression"
  | duplicateParameter name => s!"duplicate parameter '{name}'"
  | nonLiteralDefault parameter => s!"default value for parameter '{parameter}' must be a literal"
  | classShadowsName name => s!"class '{name}' shadows an existing top-level name"
  | staticOutsideClass => "'static' is only allowed inside a class body"
  | unresolvedPlaceholder index => s!"unresolved placeholder at instruction {index}"

/-- A cause and its place. -/
structure Fault where
  position : Position
  cause : SyntaxError
deriving DecidableEq, Repr

/-- The report of a refused source text. -/
structure ParseError where
  file : String
  position : Position
  cause : SyntaxError
  snippet : String
deriving DecidableEq, Repr

/-- The report of a fault found in `source`. -/
def Fault.report (fault : Fault) (file source : String) : ParseError :=
  ⟨file, fault.position, fault.cause, snippet source fault.position⟩

/-- The report as one text: place and cause, then the snippet. -/
def ParseError.message (e : ParseError) : String :=
  s!"{e.file}:{e.position.line}:{e.position.column}: {e.cause.message}\n{e.snippet}"

end ScriptEngine
