import ScriptEngine.Literal
import ScriptEngine.Table

/-! # Values

What scripts compute with. Null, booleans, numbers and strings are themselves; pairs and bound methods hold
their parts and cannot change. Everything that can change, or that is known by its identity alone, is a
reference to a cell of the store. A pair also carries an identity, since a pair is equal to itself even if
one of its parts is not.
-/

namespace ScriptEngine

/-- The kinds of cells of the store. -/
inductive CellKind where
  | list | map | set | inst | native | object
deriving DecidableEq, Hashable, Repr

/-- A reference to a cell of a kind. -/
structure Ref (kind : CellKind) where
  index : Nat
deriving DecidableEq, Repr

/-- A loaded program, by the order of loading. -/
abbrev ProgramId := Nat

/-- A procedure of a program. -/
structure ProcedureId where
  program : ProgramId
  index : Nat
deriving DecidableEq, Hashable, Repr, Inhabited

/-- A class of a program. -/
structure ClassId where
  program : ProgramId
  index : Nat
deriving DecidableEq, Hashable, Repr, Inhabited

/-- A value that scripts can see. -/
inductive Value where
  | null
  | bool (b : Bool)
  | number (n : Float)
  | string (s : String)
  | list (ref : Ref .list)
  | map (ref : Ref .map)
  | set (ref : Ref .set)
  | pair (identity : Nat) (first second : Value)
  | procedure (id : ProcedureId)
  | method (receiver : Value) (procedure : ProcedureId)
  | native (ref : Ref .native)
  | classRef (id : ClassId)
  | inst (ref : Ref .inst)
  | object (ref : Ref .object)
deriving Inhabited

/-- The value of a constant. -/
def Literal.toValue : Literal → Value
  | .null => .null
  | .bool b => .bool b
  | .number n => .number n
  | .string s => .string s

/-- Variables, members or statics by name. -/
abbrev Bindings := Table Value

namespace Value

def isNull : Value → Bool
  | null => true
  | _ => false

def asBool? : Value → Option Bool
  | bool b => some b
  | _ => none

def asNumber? : Value → Option Float
  | number n => some n
  | _ => none

def asString? : Value → Option String
  | string s => some s
  | _ => none

/-- Whether calling the value runs code of its own. -/
def isCallable : Value → Bool
  | procedure _ | method .. | native _ | classRef _ => true
  | _ => false

end Value

end ScriptEngine
