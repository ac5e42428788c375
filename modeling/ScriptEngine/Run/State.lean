import ScriptEngine.RuntimeError
import ScriptEngine.Stack
import ScriptEngine.Store

/-! # The state of a run

Beside the store, a run has a call stack for diagnosis, limits, the flags by which a debugger and the host
steer it, the number of guarded regions that are open in all frames together, and its output. The debugger
answers each stop; what it and the error watcher were shown is kept as a list of events, each with the store
as it was then. The state also says which values the host and the calls in progress hold, since the lifetime
of classes depends on them.
-/

namespace ScriptEngine

/-- One procedure call as shown to the host: a copy of its line and visible variables. -/
structure CallRecord where
  function : String
  file : String
  line : Nat
  locals : List (String × Value)

/-- A call as one text. -/
def CallRecord.text (c : CallRecord) : String := s!"{c.function} ({c.file}:{c.line})"

/-- Bounds on what a run may use. -/
structure Limits where
  callDepth : Nat
  stackDepth : Nat
  rangeLength : Nat
deriving DecidableEq, Repr

/-- The limits of a run unless its host sets others. -/
def Limits.standard : Limits := ⟨256, 4096, 1048576⟩

/-- What a debugger wants after a stop. -/
inductive DebugAction where
  /-- Go on to the next breakpoint. -/
  | proceed
  /-- Go on to the next statement. -/
  | step
  /-- End the run. -/
  | terminate
deriving DecidableEq, Repr

/-- A debugger: its answer to a stop, given how many stops came before and the call stack, outermost
first. -/
structure Debugger where
  answer : Nat → List CallRecord → DebugAction

/-- What a callback of the host was shown: the call stack, outermost first, and the store. -/
inductive Event where
  | stopped (stack : List CallRecord) (store : Store)
  | uncaught (error : ScriptError) (stack : List CallRecord) (store : Store)

/-- Where a script prints: the text so far, and the reason why writing fails if it does. -/
structure Output where
  text : String
  failure : Option String

/-- What a computation holds until it is over: values, variables, and a class whose statics it sees. -/
structure Hold where
  values : List Value
  bindings : Bindings
  owner : Option ClassId

/-- A hold on values alone. -/
def Hold.ofValues (values : List Value) : Hold := ⟨values, .empty, none⟩

/-- The state of a run beside the store. Of the call stack and of what pending computations hold the innermost
entry is the latest; `kept` has the values that the host keeps, under names of its own. -/
structure Control where
  callStack : Stack CallRecord
  held : List Hold
  kept : Bindings
  limits : Limits
  stepMode : Bool
  terminated : Bool
  openTries : Nat
  debugger : Option Debugger
  stops : Nat
  watchesErrors : Bool
  events : Array Event
  output : Output

/-- The whole state. -/
structure State where
  store : Store
  control : Control

namespace Control

/-- A control state before anything ran, with an output that works. -/
def start : Control where
  callStack := .empty
  held := []
  kept := .empty
  limits := .standard
  stepMode := false
  terminated := false
  openTries := 0
  debugger := none
  stops := 0
  watchesErrors := false
  events := #[]
  output := ⟨"", none⟩

/-- The call stack as callbacks see it, outermost call first. -/
def stack (c : Control) : List CallRecord := c.callStack.toList

/-- Whether a callback may look at the call stack, so that it must be kept current. -/
def isObserved (c : Control) : Bool := c.debugger.isSome || c.watchesErrors

/-- Whether a guarded region is open anywhere. -/
def inTry (c : Control) : Bool := c.openTries > 0

def enterTry (c : Control) : Control := { c with openTries := c.openTries + 1 }

/-- Forgets `count` guarded regions. -/
def leaveTries (c : Control) (count : Nat) : Control := { c with openTries := c.openTries - count }

/-- Installs a debugger, which has seen no stop yet. -/
def attach (c : Control) (d : Debugger) : Control := { c with debugger := some d, stops := 0 }

/-- Opens a call, unless the limit on their number is reached. -/
def openCall (c : Control) (call : CallRecord) : Except RuntimeError Control :=
  if c.callStack.height ≥ c.limits.callDepth then .error (.recursionLimit c.limits.callDepth)
  else .ok { c with callStack := c.callStack.push call }

def closeCall (c : Control) : Control := { c with callStack := c.callStack.drop 1 }

/-- Brings the innermost call up to date. -/
def refreshCall (c : Control) (line : Nat) (locals : List (String × Value)) : Control :=
  { c with callStack := c.callStack.modifyTop fun call => { call with line, locals } }

/-- Takes hold of what a computation needs. -/
def hold (c : Control) (h : Hold) : Control := { c with held := h :: c.held }

/-- Lets go of what was taken hold of last. -/
def letGo (c : Control) : Control := { c with held := c.held.tail }

/-- Keeps a value for the host under a name. -/
def keep (c : Control) (name : String) (v : Value) : Control := { c with kept := c.kept.set name v }

/-- Shows the call stack to the debugger and does what it answers. Without a debugger the run goes on. -/
def stop (c : Control) (store : Store) : DebugAction × Control :=
  match c.debugger with
  | none => (.proceed, c)
  | some d =>
    let action := d.answer c.stops c.stack
    let c := { c with stops := c.stops + 1, events := c.events.push (.stopped c.stack store) }
    match action with
    | .proceed => (action, { c with stepMode := false })
    | .step => (action, { c with stepMode := true })
    | .terminate => (action, { c with terminated := true })

/-- Shows an error to the error watcher: whether there is one, and the state after. -/
def report (c : Control) (error : ScriptError) (store : Store) : Bool × Control :=
  if c.watchesErrors then
    (true, { c with events := c.events.push (.uncaught error c.stack store) })
  else (false, c)

/-- Prints a line. -/
def print (c : Control) (line : String) : Except RuntimeError Control :=
  match c.output.failure with
  | some reason => .error (.output reason)
  | none => .ok { c with output := { c.output with text := c.output.text ++ line ++ "\n" } }

end Control

/-- A state with nothing loaded. -/
def State.start : State := ⟨.empty, .start⟩

end ScriptEngine
