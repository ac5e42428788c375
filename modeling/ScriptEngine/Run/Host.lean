import ScriptEngine.Run.Frame
import ScriptEngine.Store.Equality

/-! # The host of a run

A host adds objects and native functions to the language. What it decides without running anything are its
object rules; reading members, calling and the like are computations, which may call back into the script
through the runs that are handed to them. Those runs are one level further down the bound on nesting.
-/

namespace ScriptEngine

/-- The nested runs that a computation may start. -/
structure Calls where
  /-- Runs a frame from entry to exit. -/
  run : Frame → Exec ScriptError Value
  /-- Calls a value as the host does. -/
  invoke : Value → Arguments → Exec ScriptError Value
  /-- Calls a native function. -/
  native : Ref .native → Arguments → Exec RuntimeError Value

/-- What a host adds to the language. -/
structure Host where
  rules : ObjectRules
  getMember : Calls → Ref .object → HostObject → String → Exec RuntimeError Value
  setMember : Calls → Ref .object → HostObject → String → Value → Exec RuntimeError Unit
  callMethod : Calls → Ref .object → HostObject → String → Arguments → Exec RuntimeError Value
  call : Calls → Ref .object → HostObject → Arguments → Exec RuntimeError Value
  native : Calls → String → List Value → Arguments → Exec RuntimeError Value

namespace Host

/-- The method of an object that is none of its own: the member of that name, which must be a native
function. -/
def callFound (calls : Calls) (kind name : String) (member : Value) (args : Arguments) :
    Exec RuntimeError Value :=
  match member with
  | .native f => calls.native f args
  | other => do
    let s ← get
    Exec.fail (.notCallable s!"{kind}.{name} ({s.store.typeName other})")

/-- A host without objects or functions. -/
def none : Host where
  rules := .identity
  getMember := fun _ _ object name => Exec.fail (.unknownMember object.kind name)
  setMember := fun _ _ object name _ => Exec.fail (.readOnlyMember object.kind name)
  callMethod := fun _ _ object name _ => Exec.fail (.unknownMember object.kind name)
  call := fun _ _ object _ => Exec.fail (.notCallable object.kind)
  native := fun _ name _ _ => Exec.fail (.unknownFunction name)

end Host

end ScriptEngine
