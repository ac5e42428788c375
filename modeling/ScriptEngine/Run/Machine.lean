import ScriptEngine.Run.Frame

/-! # The machine

A frame together with the state of its run, and the computations of single instructions. The operand stack
has its top first; arguments are pushed in source order, so the last one is on top.
-/

namespace ScriptEngine

/-- A frame that is running. -/
structure Machine where
  frame : Frame
  state : State

/-- Computations of a running frame. -/
abbrev MachineM := EStateM (Halt ScriptError) Machine

namespace Machine

variable {α : Type}

def fail (error : ScriptError) : MachineM α := throw (.failed error)

/-- Reads the frame. -/
def readFrame (f : Frame → α) : MachineM α := do
  let m ← get
  pure (f m.frame)

def modifyFrame (f : Frame → Frame) : MachineM Unit :=
  modify fun ⟨frame, state⟩ => ⟨f frame, state⟩

def modifyControl (f : Control → Control) : MachineM Unit :=
  modify fun ⟨frame, state⟩ => ⟨frame, { state with control := f state.control }⟩

/-- A computation on the state, during which the frame holds what it has. -/
def onState (x : Exec ScriptError α) : MachineM α := fun ⟨frame, state⟩ =>
  match x.holding frame.hold state with
  | .ok a state => .ok a ⟨frame, state⟩
  | .error halt state => .error halt ⟨frame, state⟩

/-- A computation on the state whose errors arise at the current place. -/
def located (x : Exec RuntimeError α) : MachineM α := do
  let site ← readFrame Frame.site
  onState (x.mapError site.locate)

/-- Fails at the current place. -/
def failHere (error : RuntimeError) : MachineM α := do
  let e ← readFrame (·.locate error)
  fail e

/-- Fails because an invariant is broken. -/
def failBroken (what : String) : MachineM α := do
  let e ← readFrame (·.broken what)
  fail e

/-- Pushes a value unless the stack is full. -/
def push (v : Value) : MachineM Unit := do
  let f ← readFrame id
  if f.stack.height ≥ f.maxStack then failHere (.stackOverflow f.maxStack)
  else modifyFrame fun f => { f with stack := f.stack.push v }

/-- Pops the top of the stack. -/
def pop : MachineM Value := do
  let f ← readFrame id
  match f.stack.pop? with
  | none => failBroken "operand stack underflow"
  | some (v, rest) =>
    modifyFrame fun f => { f with stack := rest }
    pure v

/-- Pops the arguments of a call. -/
def popArguments (call : CallSite) : MachineM Arguments := do
  let f ← readFrame id
  if f.stack.height < call.argc then failBroken "operand stack underflow"
  else
    modifyFrame fun f => { f with stack := f.stack.drop call.argc }
    pure (List.zipWith Argument.mk call.keywords (f.stack.latest call.argc))

/-- Moves the current place. -/
def moveTo (place : Position) : MachineM Unit := modifyFrame fun f => { f with place }

/-- Brings the frame's entry of the call stack up to date, if anyone can look at it. -/
def refreshCall : MachineM Unit :=
  modify fun ⟨frame, state⟩ =>
    if state.control.isObserved then
      let locals := frame.visible state.store
      ⟨frame, { state with control := state.control.refreshCall frame.place.line locals }⟩
    else ⟨frame, state⟩

/-- Assigns a name. -/
def assign (name : String) (v : Value) : MachineM Unit :=
  modify fun ⟨frame, store, control⟩ =>
    let (frame, store) := frame.assign store name v
    ⟨frame, store, control⟩

end Machine

end ScriptEngine
