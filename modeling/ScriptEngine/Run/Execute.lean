import ScriptEngine.Run.Step

/-! # Runs of frames

A frame executes instructions until it leaves its procedure, runs past the end of the list, or fails. A
run-time error goes to the innermost open guarded region of the frame, and otherwise out of the frame; the
error watcher of the host sees it where it was raised, and only if no guarded region is open anywhere.
Whatever happens, the frame takes back its entry of the call stack and its open regions.
-/

namespace ScriptEngine

namespace Machine

/-- Goes on in the handler of the innermost guarded region. -/
def enterHandler (error : LocatedError) (h : Handler) (outer : List Handler) : MachineM Unit := do
  modifyControl (·.leaveTries 1)
  modifyFrame fun f =>
    { f with handlers := outer, stack := f.stack.truncate h.depth }
  push (.string error.message)
  modifyFrame fun f => { f with pc := h.target }

/-- Lets an error leave the frame, which shows it to the error watcher if nothing is going to catch it. -/
def escape (error : LocatedError) : MachineM Unit := do
  let m ← get
  if error.reported || m.state.control.inTry then fail (.runtime error)
  else
    refreshCall
    let m ← get
    let (seen, control) := m.state.control.report (.runtime error) m.state.store
    modifyControl fun _ => control
    fail (.runtime { error with reported := seen })

/-- Answers an error: succeeds if the frame goes on in a handler. -/
def recover : ScriptError → MachineM Unit
  | .runtime error => do
    let f ← readFrame id
    match f.handlers with
    | h :: outer => enterHandler error h outer
    | [] => escape error
  | error => fail error

variable (host : Host) (calls : Calls)

/-- Executes instructions, at most `steps` of them. -/
def execute : (steps : Nat) → MachineM Value
  | 0, m => .error .exhausted m
  | steps + 1, m =>
    match m.frame.procedure.code[m.frame.pc]? with
    | none => .ok .null m
    | some instruction =>
      match step host calls instruction m with
      | .ok .next ⟨frame, state⟩ => execute steps ⟨{ frame with pc := frame.pc + 1 }, state⟩
      | .ok (.jump target) ⟨frame, state⟩ => execute steps ⟨{ frame with pc := target }, state⟩
      | .ok (.leave v) m => .ok v m
      | .error (.failed error) m =>
        match recover error m with
        | .ok () m => execute steps m
        | .error halt m => .error halt m
      | .error .exhausted m => .error .exhausted m

end Machine

namespace Frame

variable (host : Host) (calls : Calls)

/-- Runs a frame from entry to exit. -/
def run (steps : Nat) (f : Frame) : Exec ScriptError Value := do
  Exec.tryControl fun c => (c.openCall f.record).mapError f.locate
  fun state =>
    match Machine.execute host calls steps ⟨f, state⟩ with
    | .ok v ⟨f, state⟩ => .ok v (leave f state)
    | .error halt ⟨f, state⟩ => .error halt (leave f state)
where
  /-- The state after a frame is gone. -/
  leave (f : Frame) (state : State) : State :=
    { state with control := (state.control.leaveTries f.handlers.length).closeCall }

end Frame

/-- The runs that can be nested `depth` deep, each frame of which executes at most `steps` instructions. -/
def Calls.nested (host : Host) (steps : Nat) : (depth : Nat) → Calls
  | 0 =>
    { run := fun _ => throw .exhausted
      invoke := fun _ _ => throw .exhausted
      native := fun _ _ => throw .exhausted }
  | depth + 1 =>
    { run := fun f => f.run host (nested host steps depth) steps
      invoke := fun callee args =>
        Invoke.value host (nested host steps depth) .host callee none args
      native := fun f args => Invoke.native host (nested host steps depth) f args }

end ScriptEngine
