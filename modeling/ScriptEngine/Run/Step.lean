import ScriptEngine.Run.Machine
import ScriptEngine.Run.Name

/-! # Steps

What a single instruction does, and where the frame goes on.
-/

namespace ScriptEngine

/-- Where a frame goes on after an instruction. -/
inductive Flow where
  | next
  | jump (target : Nat)
  | leave (v : Value)

namespace Machine

variable (host : Host) (calls : Calls)

/-- Assigns a variable: the arguments are its name and the value. -/
def assignArguments : Arguments → MachineM Unit
  | ⟨_, target⟩ :: ⟨_, v⟩ :: _ =>
    match target with
    | .string name => assign name v
    | _ => failBroken "set target is not a name"
  | _ => failBroken "set needs a name and a value"

/-- Calls by name without a receiver. -/
def callNamed (call : CallSite) : MachineM Unit := do
  moveTo call.place
  let args ← popArguments call
  if call.name = "set" then assignArguments args
  else
    refreshCall
    let f ← readFrame id
    let v ← onState (Name.call host calls f call.name args)
    push v

/-- The member name that is the first argument of a member access. -/
def memberName (args : Arguments) : MachineM String := do
  match args.value? 0 with
  | some (.string name) => pure name
  | some other =>
    let m ← get
    failHere (.typeMismatch "member access" "string" (m.state.store.typeName other))
  | none => failBroken "member access without a name"

/-- Calls by name on a receiver. Reading and writing members are calls too. -/
def sendNamed (call : CallSite) : MachineM Unit := do
  moveTo call.place
  let args ← popArguments call
  let receiver ← pop
  match call.name with
  | "getMember" =>
    let name ← memberName args
    let v ← located (Member.get host calls receiver name)
    push v
  | "setMember" =>
    let name ← memberName args
    let v := (args.value? 1).getD .null
    located (Member.set host calls receiver name v)
    push v
  | name =>
    refreshCall
    let site ← readFrame Frame.site
    let v ← onState (Invoke.send host calls site receiver name args)
    push v

/-- Whether a branch is taken. A conditional one asks the top of the stack. -/
def decides : BranchKind → MachineM Bool
  | .always => pure true
  | kind => do
    let condition ← pop
    match condition with
    | .bool b => pure (b == (kind == .ifTrue))
    | other =>
      let m ← get
      failHere (.typeMismatch "condition" "bool" (m.state.store.typeName other))

/-- Branches, or leaves the procedure with the top of the stack. -/
def branch (kind : BranchKind) (offset : Offset) : MachineM Flow := do
  if ← decides kind then
    let f ← readFrame id
    match landing? f.pc offset f.procedure.code.size with
    | some (.index target) => pure (.jump target)
    | some .exit => pure (.leave (f.stack.top?.getD .null))
    | none => failBroken "branch target outside the instruction list"
  else pure .next

/-- Opens a guarded region. -/
def enterTry (offset : Offset) : MachineM Unit := do
  let f ← readFrame id
  match landing? f.pc offset f.procedure.code.size with
  | some (.index target) =>
    modifyFrame fun f => { f with handlers := ⟨target, f.stack.height⟩ :: f.handlers }
    modifyControl Control.enterTry
  | _ => failBroken "try handler outside the instruction list"

/-- Closes the innermost guarded region. -/
def leaveTry : MachineM Unit := do
  let f ← readFrame id
  match f.handlers with
  | [] => failBroken "END_TRY without TRY"
  | _ :: rest =>
    modifyFrame fun f => { f with handlers := rest }
    modifyControl (·.leaveTries 1)

/-- Lets the debugger look at the run and does what it answers. -/
def interrupt : MachineM Unit := do
  refreshCall
  let m ← get
  let (action, control) := m.state.control.stop m.state.store
  modifyControl fun _ => control
  if action = .terminate then fail .terminated

/-- Passes a marker: a terminated run ends, and the debugger is asked in step mode and at a breakpoint. -/
def passMarker (index : Nat) (lines : Lines) : MachineM Unit := do
  let m ← get
  if m.state.control.terminated then fail .terminated
  else
    moveTo (.ofLine lines.first)
    let marker := (m.state.store.program m.frame.program).markers[index]?
    let wanted := m.state.control.stepMode || marker.any Marker.isArmed
    if m.state.control.debugger.isSome && wanted then interrupt

/-- Takes the message of an error into a handler. -/
def takeMessage (binding : Option String) : MachineM Unit := do
  let message ← pop
  match binding with
  | some name => assign name message
  | none => pure ()

/-- Executes an instruction. -/
def step : Instruction → MachineM Flow
  | .value v => do
    push v
    pure .next
  | .load name place => do
    moveTo place
    let f ← readFrame id
    let v ← located (Name.load host calls f name)
    push v
    pure .next
  | .call site => do
    callNamed host calls site
    pure .next
  | .send site => do
    sendNamed host calls site
    pure .next
  | .branch kind offset => branch kind offset
  | .stop index lines => do
    passMarker index lines
    pure .next
  | .discard => do
    let _ ← pop
    pure .next
  | .enterTry offset => do
    enterTry offset
    pure .next
  | .leaveTry => do
    leaveTry
    pure .next
  | .caught binding => do
    takeMessage binding
    pure .next

end Machine

end ScriptEngine
