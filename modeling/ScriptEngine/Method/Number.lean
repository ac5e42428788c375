import ScriptEngine.Method.Basic
import ScriptEngine.Number.Arithmetic

/-! # Methods of numbers and booleans -/

namespace ScriptEngine.Method

/-- Division and remainder, which refuse a zero divisor. -/
def divide (s : Store) (f : Float → Float) (name : String) (args : Arguments) :
    Except RuntimeError Value := do
  let d ← operand s name args
  if d == 0 then .error .divisionByZero else pure (.number (f d))

/-- A method without arguments. -/
def nullary (name : String) (args : Arguments) (v : Value) : Except RuntimeError Value := do
  args.expectCount name 0
  pure v

/-- The methods of a number. -/
def number (s : Store) (n : Float) (name : String) (args : Arguments) :
    Except RuntimeError Value :=
  let arithmetic (f : Float → Float) : Except RuntimeError Value := do
    let x ← operand s name args
    pure (.number (f x))
  let compare (f : Float → Bool) : Except RuntimeError Value := do
    let x ← operand s name args
    pure (.bool (f x))
  match name with
  | "__add__" => arithmetic (n + ·)
  | "__sub__" => arithmetic (n - ·)
  | "__mul__" => arithmetic (n * ·)
  | "__div__" => divide s (n / ·) name args
  | "__mod__" => divide s (Number.remainder n) name args
  | "__lt__" => compare fun x => n < x
  | "__le__" => compare fun x => n ≤ x
  | "__gt__" => compare fun x => n > x
  | "__ge__" => compare fun x => n ≥ x
  | "__neg__" => nullary name args (.number (-n))
  | "abs" => nullary name args (.number n.abs)
  | "floor" => nullary name args (.number n.floor)
  | "ceil" => nullary name args (.number n.ceil)
  | "round" => nullary name args (.number n.round)
  | "sqrt" => nullary name args (.number n.sqrt)
  | "isInteger" => nullary name args (.bool (Number.isIntegral n))
  | _ => .error (.unknownMember "number" name)

/-- The methods of a boolean. -/
def bool (b : Bool) (name : String) (args : Arguments) : Except RuntimeError Value :=
  match name with
  | "__not__" => nullary name args (.bool (!b))
  | _ => .error (.unknownMember "bool" name)

end ScriptEngine.Method
