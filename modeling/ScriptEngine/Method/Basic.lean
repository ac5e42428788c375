import ScriptEngine.Call.Arguments
import ScriptEngine.Run.Exec
import ScriptEngine.Store.Text

/-! # Arguments of built-in methods

What the methods of every kind share: their arguments, and numbers used as integers and indices. A method
computes on the store alone. It checks everything before it changes anything, so that a call that fails
leaves the store as it was.
-/

namespace ScriptEngine

/-- The integer that a value is, if it fits into a signed word of some bits. -/
def Value.asInteger? (bits : Nat) : Value → Option Int
  | .number n =>
    let bound : Int := Nat.pow 2 (bits - 1)
    (Number.toInt? n).filter fun i => -bound ≤ i && i < bound
  | _ => none

/-- A value as an index into a container of some length. -/
def Store.index (s : Store) (v : Value) (length : Nat) : Except RuntimeError Nat :=
  match v with
  | .number n =>
    match v.asInteger? 32 with
    | none => .error (.integerOutOfRange n 32)
    | some i =>
      if i < 0 ∨ i ≥ length then .error (.indexOutOfBounds i length) else .ok i.toNat
  | _ => .error (.typeMismatch "indexing" "number" (s.typeName v))

namespace Method

/-- The only argument. -/
def one (name : String) (args : Arguments) : Except RuntimeError Value := do
  args.expectCount name 1
  args.expect name 0

/-- The two arguments. -/
def two (name : String) (args : Arguments) : Except RuntimeError (Value × Value) := do
  args.expectCount name 2
  let a ← args.expect name 0
  let b ← args.expect name 1
  pure (a, b)

/-- The number that is the only argument. -/
def operand (s : Store) (name : String) (args : Arguments) : Except RuntimeError Float := do
  args.expectCount name 1
  args.number s name 0

/-- The string that is the only argument. -/
def textOperand (s : Store) (name : String) (args : Arguments) : Except RuntimeError String := do
  let v ← one name args
  match v with
  | .string t => pure t
  | _ => .error (.typeMismatch name "string" (s.typeName v))

/-- The only argument as an index into a container of some length. -/
def indexOperand (s : Store) (name : String) (args : Arguments) (length : Nat) :
    Except RuntimeError Nat := do
  let v ← one name args
  s.index v length

/-- The number of elements as a value. -/
def sizeValue (n : Nat) : Value := .number (Number.ofInt n)

/-- A position as a value, with -1 for none. -/
def positionValue : Option Nat → Value
  | some n => sizeValue n
  | none => .number (-1)

end Method

end ScriptEngine
