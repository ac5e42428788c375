import ScriptEngine.Run.Host

/-! # Members and objects

Reading and writing members of values, and the operations of objects from outside the script. The members
of a module can be read and called; nothing else can be done with it.
-/

namespace ScriptEngine.Member

variable (host : Host) (calls : Calls)

/-- Reads a member of an object. -/
def ofObject (r : Ref .object) (name : String) : Exec RuntimeError Value := do
  match ← Exec.readStore (·.object r) with
  | .module title members =>
    match members.get? name with
    | some v => pure v
    | none => Exec.fail (.unknownMember title name)
  | .host object => host.getMember calls r object name

/-- Writes a member of an object. -/
def setOfObject (r : Ref .object) (name : String) (v : Value) : Exec RuntimeError Unit := do
  match ← Exec.readStore (·.object r) with
  | .module .. => Exec.fail (.readOnlyMember "module" name)
  | .host object => host.setMember calls r object name v

/-- Calls a method of an object. -/
def callOnObject (r : Ref .object) (name : String) (args : Arguments) :
    Exec RuntimeError Value := do
  match ← Exec.readStore (·.object r) with
  | .module .. =>
    let member ← ofObject host calls r name
    Host.callFound calls "module" name member args
  | .host object => host.callMethod calls r object name args

/-- Calls an object itself. -/
def callObject (r : Ref .object) (args : Arguments) : Exec RuntimeError Value := do
  match ← Exec.readStore (·.object r) with
  | .module .. => Exec.fail (.notCallable "module")
  | .host object => host.call calls r object args

/-- The member of a value that is read without asking a host. A method of an instance comes bound to it. -/
def plain? (s : Store) (receiver : Value) (name : String) : Option Value :=
  match receiver with
  | .inst r =>
    (s.inst r).members.get? name <|>
      ((s.classOf r).methods.get? name).map fun id => .method receiver id
  | .classRef id => (s.classDef id).statics.get? name
  | .pair _ first second =>
    if name = "first" then some first else if name = "second" then some second else none
  | _ => none

/-- Reads a member of a value. -/
def get (receiver : Value) (name : String) : Exec RuntimeError Value := do
  match receiver with
  | .object r => ofObject host calls r name
  | _ =>
    let s ← Exec.readStore id
    match plain? s receiver name with
    | some v => pure v
    | none => Exec.fail (.unknownMember (s.typeName receiver) name)

/-- Writes a member of a value. -/
def set (receiver : Value) (name : String) (v : Value) : Exec RuntimeError Unit := do
  match receiver with
  | .inst r => Exec.modifyStore (·.setField r name v)
  | .classRef id => Exec.modifyStore (·.setStatic id name v)
  | .object r => setOfObject host calls r name v
  | _ =>
    let kind ← Exec.readStore (·.typeName receiver)
    Exec.fail (.readOnlyMember kind name)

/-- The first of some modules that has a member of a name. A module without one is passed over; any other
failure is not. -/
def inModules (name : String) : List Value → Exec RuntimeError (Option Value)
  | [] => pure none
  | m :: rest => fun s =>
    match get host calls m name s with
    | .ok v s => .ok (some v) s
    | .error (.failed (.unknownMember ..)) s => inModules name rest s
    | .error halt s => .error halt s

end ScriptEngine.Member
