import ScriptEngine.Call.Binding
import ScriptEngine.Run.Builtin

/-! # Calls

What it means to call a value and to send a name to a receiver. A procedure runs in a new frame; a class
makes an instance; a native function runs at once. Errors that no instruction of a new frame raises are
reported at the site of the call. A call holds what is called and its receiver until it is over; the
arguments are handed over to the callee.
-/

namespace ScriptEngine.Invoke

/-- The member that every instance is made with: the name of its class. -/
def typeMember : String := "__type__"

/-- The method that initialises an instance. -/
def constructor : String := "__init__"

/-- The variable that holds the receiver of a method. -/
def receiverName : String := "this"

variable (host : Host) (calls : Calls)

/-- Calls a native function. -/
def native (f : Ref .native) (args : Arguments) : Exec RuntimeError Value := do
  let target ← Exec.readStore (·.native f)
  match target.body with
  | .builtin b => b.call host calls args
  | .host captured => host.native calls target.name captured args

/-- The frame of a procedure that is called with some arguments. -/
def enter (site : Site) (id : ProcedureId) (receiver : Option Value) (args : Arguments) :
    Exec ScriptError Frame := do
  let s ← get
  let p := s.store.procedure id
  if (s.store.program id.program).released then
    Exec.fail (.internal s!"procedure {p.name} outlived its program")
  else
    let bound ← Exec.ofExcept ((Binding.bind p.name p.params args).mapError site.locate)
    let locals := match receiver with
      | some v => bound.set receiverName v
      | none => bound
    pure (.enter s p id.program (.procedure locals))

/-- Calls a procedure. -/
def procedure (site : Site) (id : ProcedureId) (receiver : Option Value) (args : Arguments) :
    Exec ScriptError Value := do
  let frame ← enter site id receiver args
  calls.run frame

/-- Makes an instance of a class and lets its constructor initialise it. -/
def instantiate (site : Site) (id : ClassId) (args : Arguments) : Exec ScriptError Value := do
  let c ← Exec.readStore (·.classDef id)
  let members : Bindings := Table.ofList [(typeMember, .string c.name)]
  let made ← Exec.allocate (·.addInstance ⟨id, members⟩)
  match c.methods.get? constructor with
  | some init =>
    let _ ← (procedure calls site init (some made) args).holding (.ofValues [made])
    pure made
  | none =>
    if args.isEmpty then pure made
    else Exec.fail (site.locate (.tooManyArguments c.name 0 args.length))

/-- Calls a value. A receiver becomes a variable of the callee if that is a procedure. -/
def value (site : Site) (callee : Value) (receiver : Option Value) (args : Arguments) :
    Exec ScriptError Value :=
  Exec.holding (.ofValues [callee]) do
  match callee with
  | .procedure id => procedure calls site id receiver args
  | .method bound id => procedure calls site id (some bound) args
  | .classRef id => instantiate calls site id args
  | .native f => (native host calls f args).mapError site.locate
  | .object r => (Member.callObject host calls r args).mapError site.locate
  | other =>
    let kind ← Exec.readStore (·.typeName other)
    Exec.fail (site.locate (.notCallable kind))

/-- What a name means to a receiver that is not left to the methods of its kind. -/
inductive Answer where
  | callable (callee : Value) (receiver : Option Value)
  | method (id : ProcedureId)
  | hosted (r : Ref .object)
  | builtin

/-- Who answers a name that is sent to a receiver. The members of an instance come before the methods of
its class, except for its type name. -/
def answer (s : Store) (receiver : Value) (name : String) : Answer :=
  match receiver with
  | .inst r =>
    let member := if name = typeMember then none else (s.inst r).members.get? name
    match member, (s.classOf r).methods.get? name with
    | some callee, _ => .callable callee (some receiver)
    | none, some id => .method id
    | none, none => .builtin
  | .classRef id =>
    match (s.classDef id).statics.get? name with
    | some callee => .callable callee none
    | none => .builtin
  | .object r => if Method.isUniversal name then .builtin else .hosted r
  | _ => .builtin

/-- Sends a name to a receiver. -/
def send (site : Site) (receiver : Value) (name : String) (args : Arguments) :
    Exec ScriptError Value :=
  Exec.holding (.ofValues [receiver]) do
  match ← Exec.readStore (answer · receiver name) with
  | .callable callee this => value host calls site callee this args
  | .method id => procedure calls site id (some receiver) args
  | .hosted r => (Member.callOnObject host calls r name args).mapError site.locate
  | .builtin => (Exec.ofStore (Method.call host.rules receiver name args)).mapError site.locate

end ScriptEngine.Invoke
