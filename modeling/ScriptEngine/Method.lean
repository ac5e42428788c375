import ScriptEngine.Method.Keyed
import ScriptEngine.Method.Sequence
import ScriptEngine.Method.Text

/-! # Built-in methods

The methods that values answer without a script or a host: the operators and container operations of each
kind, and three that every value answers.
-/

namespace ScriptEngine.Method

/-- Whether every value answers a method, objects and instances included. -/
def isUniversal (name : String) : Bool :=
  name == "__eq__" || name == "__ne__" || name == "toString"

/-- Calls a method of the kind of a value. -/
def ofKind (rules : ObjectRules) (receiver : Value) (name : String) (args : Arguments) :
    StoreM Value := do
  let s ← get
  match receiver with
  | .number n => StoreM.ofExcept (number s n name args)
  | .string t => text rules t name args
  | .bool b => StoreM.ofExcept (bool b name args)
  | .list r => list rules r name args
  | .map r => map rules r name args
  | .set r => set rules r name args
  | .pair _ first second => StoreM.ofExcept (pair s first second name args)
  | other => StoreM.fail (.unknownMember (s.typeName other) name)

/-- Calls a built-in method. -/
def call (rules : ObjectRules) (receiver : Value) (name : String) (args : Arguments) :
    StoreM Value := do
  match name with
  | "__eq__" =>
    let other ← StoreM.ofExcept (one name args)
    StoreM.read fun s => .bool (s.equals rules receiver other)
  | "__ne__" =>
    let other ← StoreM.ofExcept (one name args)
    StoreM.read fun s => .bool !(s.equals rules receiver other)
  | "toString" =>
    StoreM.ofExcept (args.expectCount name 0)
    let s ← get
    let text ← StoreM.ofOption (s.text? rules receiver)
    pure (.string text)
  | _ => ofKind rules receiver name args

end ScriptEngine.Method
