import ScriptEngine.Proofs.Definitions
import ScriptEngine.Run.Execute

/-! # The meaning of trees

What a program does, read off its trees: operands from left to right, operators as sends to their left
operand, the first arm whose condition is true, loops, guarded blocks and assignments. There are no
instructions here, no operand stack, no offsets and no list of handlers. Loading a name, calling and sending
mean what they mean everywhere in a run. A value that has been computed and is waiting for its operation is
passed along as pending, because a run holds it; the bound is on the rounds of each loop.
-/

namespace ScriptEngine

/-- A call in progress as trees see it. -/
structure Activation where
  program : ProgramId
  owner : Option ClassId
  file : String
  locals : Locals
  place : Position
  state : State

/-- Computations of an activation. -/
abbrev Evaluation := EStateM (Halt ScriptError) Activation

namespace Activation

/-- The activation as a frame that has run nothing, for what names mean in it. -/
def frame (a : Activation) : Frame where
  procedure := default
  owner := a.owner
  program := a.program
  file := a.file
  locals := a.locals
  stack := .empty
  handlers := []
  pc := 0
  place := a.place
  maxStack := 0

def modifyControl (a : Activation) (f : Control → Control) : Activation :=
  { a with state := { a.state with control := f a.state.control } }

/-- The activation in one more guarded block. -/
def enterTry (a : Activation) : Activation := a.modifyControl Control.enterTry

/-- The activation out of so many guarded blocks. -/
def leaveTries (a : Activation) (count : Nat) : Activation := a.modifyControl (·.leaveTries count)

end Activation

namespace Evaluation

variable {α : Type}

def moveTo (place : Position) : Evaluation Unit := modify fun a => { a with place }

/-- Fails where the activation stands. -/
def raise (e : RuntimeError) : Evaluation α := do
  let a ← get
  throw (.failed (a.frame.locate e))

/-- A computation on the state for which the activation waits, and holds its variables and what is
pending. -/
def waiting (pending : List Value) (x : Exec ScriptError α) : Evaluation α := fun a =>
  match x.holding ⟨pending, a.locals.table, a.owner⟩ a.state with
  | .ok v state => .ok v { a with state }
  | .error halt state => .error halt { a with state }

/-- A computation on the state whose errors arise where the activation stands. -/
def located (pending : List Value) (x : Exec RuntimeError α) : Evaluation α := do
  let a ← get
  waiting pending (x.mapError a.frame.site.locate)

/-- Brings the entry of the call stack up to date, if anyone can look at it. -/
def showCall : Evaluation Unit := modify fun a =>
  if a.state.control.isObserved then
    a.modifyControl (·.refreshCall a.place.line (a.frame.visible a.state.store))
  else a

/-- Assigns a name. -/
def assign (name : String) (v : Value) : Evaluation Unit := modify fun a =>
  let (frame, store) := a.frame.assign a.state.store name v
  { a with locals := frame.locals, state := { a.state with store } }

/-- Assigns a name at a place of the source. -/
def assignAt (name : String) (v : Value) (place : Position) : Evaluation Unit := do
  moveTo place
  assign name v

/-- The truth of a condition. -/
def truth : Value → Evaluation Bool
  | .bool b => pure b
  | other => do
    let a ← get
    raise (.typeMismatch "condition" "bool" (a.state.store.typeName other))

variable (host : Host) (calls : Calls)

/-- Loads a name. -/
def load (pending : List Value) (name : String) (place : Position) : Evaluation Value := do
  moveTo place
  let a ← get
  located pending (Name.load host calls a.frame name)

/-- The values of a call with the tags that the call site gives them. -/
def arguments (site : CallSite) (values : List Value) : Arguments :=
  List.zipWith Argument.mk site.keywords values

/-- Calls by name. -/
def call (pending : List Value) (site : CallSite) (values : List Value) : Evaluation Value := do
  moveTo site.place
  showCall
  let a ← get
  waiting pending (Name.call host calls a.frame site.name (arguments site values))

/-- The member name that is the first argument of a member access. -/
def memberName (args : Arguments) : Evaluation String :=
  match args.value? 0 with
  | some (.string name) => pure name
  | some other => do
    let a ← get
    raise (.typeMismatch "member access" "string" (a.state.store.typeName other))
  | none => throw (.failed (.internal "member access without a name"))

/-- Sends to a receiver. Reading and writing members are sends too. -/
def sendTo (pending : List Value) (receiver : Value) (name : String) (args : Arguments) :
    Evaluation Value :=
  match name with
  | "getMember" => do
    let name ← memberName args
    located pending (Member.get host calls receiver name)
  | "setMember" => do
    let name ← memberName args
    let v := (args.value? 1).getD .null
    located pending (Member.set host calls receiver name v)
    pure v
  | name => do
    showCall
    let a ← get
    waiting pending (Invoke.send host calls a.frame.site receiver name args)

def send (pending : List Value) (site : CallSite) (receiver : Value) (values : List Value) :
    Evaluation Value := do
  moveTo site.place
  sendTo host calls pending receiver site.name (arguments site values)

/-- How a block ends that does not fail. -/
inductive Completion where
  | normal
  | returned (v : Value)

/-- `first`, and then `second` unless `first` returns. -/
def sequence (first second : Evaluation Completion) : Evaluation Completion := do
  match ← first with
  | .normal => second
  | .returned v => pure (.returned v)

/-- `body` as long as `condition` holds, for at most so many rounds. -/
def repeatWhile (condition : Evaluation Bool) (body : Evaluation Completion) :
    (rounds : Nat) → Evaluation Completion
  | 0 => throw .exhausted
  | rounds + 1 => do
    if ← condition then sequence body (repeatWhile condition body rounds)
    else pure .normal

/-- `body` in a guarded block, and `handler` for the message of a run-time error that escapes from it. -/
def guarded (body : Evaluation Completion) (handler : String → Evaluation Completion) :
    Evaluation Completion := fun a =>
  match body a.enterTry with
  | .ok done a => .ok done (a.leaveTries 1)
  | .error (.failed (.runtime e)) a => handler e.message (a.leaveTries 1)
  | .error halt a => .error halt (a.leaveTries 1)

/-- Takes the message of an error into a handler. -/
def takeMessage (binding : Option String) (message : String) : Evaluation Unit :=
  match binding with
  | some name => assign name (.string message)
  | none => pure ()

end Evaluation

open Evaluation

mutual

/-- The value of an expression, computed while some values are pending. -/
def Expr.eval (host : Host) (calls : Calls) (pending : List Value) : Expr → Evaluation Value
  | .literal value => pure value.toValue
  | .variable name place => load host calls pending name place
  | .member receiver name place => do
    let r ← receiver.eval host calls pending
    send host calls pending (.positional "getMember" 1 place) r [.string name]
  | .index receiver key place => do
    let r ← receiver.eval host calls pending
    let k ← key.eval host calls (r :: pending)
    send host calls pending (.positional "__getitem__" 1 place) r [k]
  | .call name keywords args place => do
    let values ← evalAll host calls pending args
    call host calls pending ⟨name, keywords, place⟩ values
  | .send receiver name keywords args place => do
    let r ← receiver.eval host calls pending
    let values ← evalAll host calls (r :: pending) args
    send host calls pending ⟨name, keywords, place⟩ r values
  | .unary op operand place => do
    let v ← operand.eval host calls pending
    send host calls pending (.positional op.method 0 place) v []
  | .binary op left right place => do
    let v ← left.eval host calls pending
    let w ← right.eval host calls (v :: pending)
    send host calls pending (.positional op.method 1 place) v [w]
  | .both left right => do
    let v ← left.eval host calls pending
    if ← truth v then right.eval host calls pending else pure (.bool false)
  | .either left right => do
    let v ← left.eval host calls pending
    if ← truth v then pure (.bool true) else right.eval host calls pending
  | .pair first second place => do
    let v ← first.eval host calls pending
    let w ← second.eval host calls (v :: pending)
    call host calls pending (.positional "__pair__" 2 place) [v, w]
  | .list items place => do
    let values ← evalAll host calls pending items
    call host calls pending (.positional "__list__" items.length place) values
  | .map entries place => do
    let values ← evalAll host calls pending entries
    call host calls pending (.positional "__map__" entries.length place) values
  | .group inner => inner.eval host calls pending

/-- The values of expressions, from left to right. -/
def evalAll (host : Host) (calls : Calls) (pending : List Value) :
    List Expr → Evaluation (List Value)
  | [] => pure []
  | e :: rest => do
    let v ← e.eval host calls pending
    let values ← evalAll host calls (v :: pending) rest
    pure (v :: values)

end

variable (host : Host) (calls : Calls)

/-- Whether an expression is true where nothing is pending. -/
def Expr.holds (e : Expr) : Evaluation Bool := do
  let v ← e.eval host calls []
  truth v

/-- Assigns the value of an expression to a variable. Its name is pending meanwhile. -/
def assignValue (name : String) (value : Expr) (place : Position) : Evaluation Unit := do
  let v ← value.eval host calls [.string name]
  assignAt name v place

/-- Assigns the value of an expression to a target. -/
def Target.assign (value : Expr) (place : Position) : Target → Evaluation Unit
  | .variable name _ => assignValue host calls name value place
  | .member receiver name here => do
    let r ← receiver.eval host calls []
    let v ← value.eval host calls [.string name, r]
    let _ ← Evaluation.send host calls [] (.positional "setMember" 2 here) r [.string name, v]
  | .index receiver key here => do
    let r ← receiver.eval host calls []
    let k ← key.eval host calls [r]
    let v ← value.eval host calls [k, r]
    let _ ← Evaluation.send host calls [] (.positional "__setitem__" 2 here) r [k, v]

/-- A loop over the elements of what an expression computes: an index loop over hidden variables. The
container is computed once, and so is its size; then an index runs from zero to that size. -/
def forEach (n : Nat) (place : Position) (name : String) (namePlace : Position) (items : Expr)
    (body : Evaluation Completion) (rounds : Nat) : Evaluation Completion := do
  let container : Expr := .variable (hiddenName "iter" n) place
  let length : Expr := .variable (hiddenName "len" n) place
  let index : Expr := .variable (hiddenName "idx" n) place
  assignValue host calls (hiddenName "iter" n) items place
  assignValue host calls (hiddenName "len" n) (.send container "size" [] [] place) place
  assignValue host calls (hiddenName "idx" n) (.literal (.number 0)) place
  if ← (Expr.binary .equal length (.literal (.number 0)) place).holds host calls then pure .normal
  else
    repeatWhile ((Expr.binary .less index length place).holds host calls) (do
      assignValue host calls name (.send container "__index__" [none] [index] place) namePlace
      sequence body do
        assignValue host calls (hiddenName "idx" n)
          (.binary .add index (.literal (.number 1)) place) place
        pure .normal) rounds

variable (program : ProgramId) (rounds : Nat)

mutual

/-- What a statement does whose numbers start at `ν`. -/
def Stmt.run (ν : Numbering) : Stmt → Evaluation Completion
  | .eval _ value => do
    let _ ← value.eval host calls []
    pure .normal
  | .assign _ target value place => do
    target.assign host calls value place
    pure .normal
  | .ret _ none => pure (.returned .null)
  | .ret _ (some value) => do
    let v ← value.eval host calls []
    pure (.returned v)
  | .branch _ condition body otherwise => do
    if ← condition.holds host calls then runBlock ν.mark body
    else otherwise.run (blockAfter ν.mark body)
  | .whileLoop _ condition body =>
    repeatWhile (condition.holds host calls) (runBlock ν.mark body) rounds
  | .forLoop place name namePlace items body =>
    forEach host calls ν.loops place name namePlace items (runBlock ν.mark.loop body) rounds
  | .guarded _ body binding handler =>
    guarded (runBlock ν.mark body) fun message => do
      takeMessage binding message
      runBlock (blockAfter ν.mark body) handler
  | .define place name _ body => do
    assignAt name (.procedure ⟨program, (blockAfter ν.mark body).procedures⟩) place
    pure .normal

/-- What statements do in order. -/
def runBlock (ν : Numbering) : List Stmt → Evaluation Completion
  | [] => pure .normal
  | s :: rest => sequence (s.run ν) (runBlock (s.after ν) rest)

/-- What the arms of a conditional behind the first do. -/
def Otherwise.run (ν : Numbering) : Otherwise → Evaluation Completion
  | .nothing => pure .normal
  | .block body => runBlock ν body
  | .branch condition body otherwise => do
    if ← condition.holds host calls then runBlock ν body
    else otherwise.run (blockAfter ν body)

end

/-- What a stretch of a body does. -/
def Piece.run : Piece → Evaluation Completion
  | .block ν body => runBlock host calls program rounds ν body
  | .field _ owner _ name place value => do
    let v ← value.eval host calls [.string name, .classRef owner]
    let _ ← send host calls [] (.positional "setMember" 2 place) (.classRef owner) [.string name, v]
    pure .normal

def runPieces : List Piece → Evaluation Completion
  | [] => pure .normal
  | p :: rest => sequence (p.run host calls program rounds) (runPieces rest)

/-- Lets an error leave the activation, which shows it to the error watcher if nothing is going to catch
it. -/
def Evaluation.escape {α : Type} (e : LocatedError) : Evaluation α := do
  let a ← get
  if e.reported || a.state.control.inTry then throw (.failed (.runtime e))
  else
    showCall
    let a ← get
    let (seen, control) := a.state.control.report (.runtime e) a.state.store
    set (a.modifyControl fun _ => control)
    throw (.failed (.runtime { e with reported := seen }))

/-- What a procedure with a body does, and the value that it returns. -/
def runBody (body : List Piece) : Evaluation Value := fun a =>
  match runPieces host calls program rounds body a with
  | .ok .normal a => .ok .null a
  | .ok (.returned v) a => .ok v a
  | .error (.failed (.runtime e)) a => escape e a
  | .error halt a => .error halt a

end ScriptEngine
