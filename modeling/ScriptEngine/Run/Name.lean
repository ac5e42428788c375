import ScriptEngine.Run.Invoke

/-! # Names

What a name means where it is loaded or called: first what the frame sees, then the members of the modules
of its program, then the built-in functions. A call of `len` by name asks its argument for its size, so that
instances and objects can answer.
-/

namespace ScriptEngine.Name

/-- What a name means. -/
inductive Meaning where
  | value (v : Value)
  | builtin (b : Builtin)
  | unknown

variable (host : Host) (calls : Calls)

/-- Looks a name up for a frame. -/
def resolve (f : Frame) (name : String) : Exec RuntimeError Meaning := do
  let s ← get
  match f.lookup s.store name with
  | some v => pure (.value v)
  | none =>
    match ← Member.inModules host calls name (s.store.program f.program).modules with
    | some v => pure (.value v)
    | none =>
      match Builtin.ofName? name with
      | some b => pure (.builtin b)
      | none => pure .unknown

/-- Reads a name as a variable. A built-in function becomes a value. -/
def load (f : Frame) (name : String) : Exec RuntimeError Value := do
  match ← resolve host calls f name with
  | .value v => pure v
  | .builtin b => Exec.allocate (·.addNative ⟨name, .builtin b⟩)
  | .unknown => Exec.fail (.unknownVariable name)

/-- Calls a name. -/
def call (f : Frame) (name : String) (args : Arguments) : Exec ScriptError Value := do
  let site := f.site
  match ← (resolve host calls f name).mapError site.locate with
  | .value callee => Invoke.value host calls site callee none args
  | .builtin .len =>
    let receiver ← Exec.ofExcept ((args.single name).mapError site.locate)
    Invoke.send host calls site receiver "size" []
  | .builtin b => (b.call host calls args).mapError site.locate
  | .unknown => Exec.fail (site.locate (.unknownFunction name))

end ScriptEngine.Name
