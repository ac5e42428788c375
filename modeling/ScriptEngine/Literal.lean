/-! # Literal constants

The constants that a source text can spell.
-/

namespace ScriptEngine

/-- A constant of the source text. -/
inductive Literal where
  | null
  | bool (b : Bool)
  | number (n : Float)
  | string (s : String)

end ScriptEngine
