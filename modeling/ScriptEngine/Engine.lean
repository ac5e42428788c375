import ScriptEngine.Lowering
import ScriptEngine.Run.Execute

/-! # The engine

What a host does with scripts: load a source text, run its top-level code once, call what it defined, and
read and write its members. An engine is a host together with bounds on the length of its runs; the bounds
are not part of the language, and an ordinary run never meets them.
-/

namespace ScriptEngine

/-- A host with the bounds of its runs: how deep runs nest, and how many instructions one frame executes. -/
structure Engine where
  host : Host
  depth : Nat
  steps : Nat

namespace Engine

/-- More than any run can use. -/
def outOfReach : Nat := 1000000000000000

/-- An engine for a host, with bounds out of reach. -/
def ofHost (host : Host) : Engine := ⟨host, outOfReach, outOfReach⟩

/-- The runs that an operation of the host starts. -/
def calls (e : Engine) : Calls := .nested e.host e.steps e.depth

/-- Adds a program to the store. -/
def add {ε : Type} (p : Program) : Exec ε ProgramId := Exec.allocate (·.addProgram p)

/-- Loads a source text. A text that is refused is loaded as well, and says so on every use. -/
def load {ε : Type} (source file : String) (breakpoints : Bool) : Exec ε ProgramId := do
  let id ← Exec.readStore fun s => s.programs.size
  add (Program.ofSource source file ⟨id, breakpoints⟩)

/-- Fails if a program was refused. -/
def check (id : ProgramId) : Exec ScriptError Unit := do
  match ← Exec.readStore fun s => (s.program id).failure with
  | some report => Exec.fail (.refused report)
  | none => pure ()

/-- The member of a program. -/
def member? (id : ProgramId) (name : String) : Exec ScriptError (Option Value) := do
  check id
  Exec.readStore fun s => (s.program id).members.get? name

/-- Writes a member of a program. -/
def setMember (id : ProgramId) (name : String) (v : Value) : Exec ScriptError Unit := do
  check id
  Exec.modifyStore (·.define id name v)

/-- Keeps a value for the host under a name. -/
def keep {ε : Type} (name : String) (v : Value) : Exec ε Unit := Exec.modifyControl (·.keep name v)

/-- Adds a module to a program. Modules that were added later are searched first. -/
def addModule {ε : Type} (id : ProgramId) (m : Value) : Exec ε Unit :=
  Exec.modifyStore (·.modifyProgram id fun p => { p with modules := m :: p.modules })

/-- Sets or clears the breakpoints on a line and yields how many statements it belongs to. -/
def setBreakpoint {ε : Type} (id : ProgramId) (line : Nat) (on : Bool) : Exec ε Nat :=
  fun ⟨store, control⟩ =>
    let covered := ((store.program id).setBreakpoint line on).1
    .ok covered ⟨store.modifyProgram id fun p => (p.setBreakpoint line on).2, control⟩

/-- Lets go of a program. Its procedures cannot be called any more. -/
def release {ε : Type} (id : ProgramId) : Exec ε Unit :=
  Exec.modifyStore (·.modifyProgram id fun p => { p with released := true })

end Engine

namespace Calls

variable (calls : Calls)

/-- Runs top-level code or the setup of a class. -/
def runTopLevel (id : ProgramId) (p : ProcedureId) : Exec ScriptError Unit := do
  let s ← get
  let frame := Frame.enter s (s.store.procedure p) id (.topLevel .empty)
  let _ ← calls.run frame

/-- Sets up the classes of a program and runs its top-level code, the first time that it is asked to. -/
def start (id : ProgramId) : Exec ScriptError Unit := do
  Engine.check id
  let p ← Exec.readStore (·.program id)
  if p.initialized then pure ()
  else
    Exec.modifyStore (·.modifyProgram id fun p => { p with initialized := true })
    (p.classSetups ++ p.topLevel.toList).forM (calls.runTopLevel id)

/-- Starts a program and calls one of its members. -/
def callMember (id : ProgramId) (name : String) (args : Arguments) : Exec ScriptError Value := do
  calls.start id
  match ← Engine.member? id name with
  | some callee => calls.invoke callee args
  | none =>
    let file ← Exec.readStore fun s => (s.program id).file
    Exec.fail (.located file ⟨0, 0⟩ (.unknownFunction name))

end Calls

namespace Engine

variable (e : Engine)

def start (id : ProgramId) : Exec ScriptError Unit := e.calls.start id

/-- Calls a value. -/
def invoke (callee : Value) (args : Arguments) : Exec ScriptError Value := e.calls.invoke callee args

def callMember (id : ProgramId) (name : String) (args : Arguments) : Exec ScriptError Value :=
  e.calls.callMember id name args

end Engine

/-- What a host does with a program that runs code of it. -/
inductive Operation where
  | start
  | callMember (name : String) (args : Arguments)
  | invoke (callee : Value) (args : Arguments)

/-- Does what a host asks of a program. Starting it yields nothing. -/
def Operation.perform (calls : Calls) (id : ProgramId) : Operation → Exec ScriptError Value
  | start => do
    calls.start id
    pure .null
  | callMember name args => calls.callMember id name args
  | invoke callee args => calls.invoke callee args

end ScriptEngine
