import ScriptEngine.Proofs.Keeping
import ScriptEngine.Proofs.Layout
import ScriptEngine.Run.Host

/-! # Computations beside the bookkeeping

Frames keep books in the control state: an entry of the call stack for each of them, and the number of
guarded regions that they have open together. Whatever an instruction looks up, calls or sends is composed
of pieces that leave the books alone and of nested runs. `Consults` and `Delegates` say so of computations
without and with a place for their errors. What nested runs do to the books, and what becomes of their
errors, is then proved once for every composition.
-/

namespace ScriptEngine

/-- Whether a callback was shown an error. -/
def Event.isReport : Event → Bool
  | uncaught .. => true
  | stopped .. => false

/-- What the error watcher was shown. -/
def Control.reports (c : Control) : List Event := c.events.toList.filter Event.isReport

/-- A procedure whose code has a layout, and whose regions lead to handlers. -/
structure Procedure.IsLaidOut (p : Procedure) : Prop where
  layout : Nonempty (Layout p.code)
  handler : ∀ (pc : Nat) (offset : Offset), p.code[pc]? = some (.enterTry offset) →
    ∃ target binding, landing? pc offset p.code.size = some (.index target) ∧
      p.code[target]? = some (.caught binding)

/-- A store all of whose procedures are laid out. -/
def Store.IsLaidOut (s : Store) : Prop := ∀ id, (s.procedure id).IsLaidOut

/-- The books of frames are as they were. -/
structure SameBooks (s s' : State) : Prop where
  callStack : s'.control.callStack = s.control.callStack
  openTries : s'.control.openTries = s.control.openTries
  limits : s'.control.limits = s.control.limits

/-- The error watcher was told nothing, and no code without a layout came in. -/
structure Quiet (s s' : State) : Prop where
  watched : s'.control.watchesErrors = s.control.watchesErrors
  reports : s'.control.reports = s.control.reports
  code : s.store.IsLaidOut → s'.store.IsLaidOut

/-- What a computation leaves behind that is none of the bookkeeping. -/
structure Still (s s' : State) : Prop extends SameBooks s s', Quiet s s'

variable {s s' s'' : State}

theorem SameBooks.refl (s : State) : SameBooks s s := ⟨rfl, rfl, rfl⟩

theorem SameBooks.trans (first : SameBooks s s') (second : SameBooks s' s'') : SameBooks s s'' :=
  ⟨second.callStack.trans first.callStack, second.openTries.trans first.openTries,
    second.limits.trans first.limits⟩

theorem Quiet.refl (s : State) : Quiet s s := ⟨rfl, rfl, id⟩

theorem Quiet.trans (first : Quiet s s') (second : Quiet s' s'') : Quiet s s'' :=
  ⟨second.watched.trans first.watched, second.reports.trans first.reports,
    fun laid => second.code (first.code laid)⟩

theorem Still.refl (s : State) : Still s s := ⟨.refl s, .refl s⟩

theorem Still.trans (first : Still s s') (second : Still s' s'') : Still s s'' :=
  ⟨first.toSameBooks.trans second.toSameBooks, first.toQuiet.trans second.toQuiet⟩

theorem Still.hold (s : State) (h : Hold) : Still s ⟨s.store, s.control.hold h⟩ :=
  ⟨⟨rfl, rfl, rfl⟩, rfl, rfl, id⟩

theorem Still.letGo (s : State) : Still s ⟨s.store, s.control.letGo⟩ := ⟨⟨rfl, rfl, rfl⟩, rfl, rfl, id⟩

/-- Answers an error of a computation: it becomes part of the value. -/
def Exec.attempt {ε δ α : Type} (x : Exec ε α) : Exec δ (Except ε α) := fun s =>
  match x s with
  | .ok a s => .ok (.ok a) s
  | .error (.failed e) s => .ok (.error e) s
  | .error .exhausted s => .error .exhausted s

/-- A frame that is made in a state for a procedure of its store. -/
def Frame.IsEntered (f : Frame) (s : State) : Prop :=
  ∃ (id : ProcedureId) (program : ProgramId) (locals : Locals),
    f = .enter s (s.store.procedure id) program locals

/-- An error that the error watcher has not seen. -/
def ScriptError.IsUnreported (e : ScriptError) : Prop := ∀ located, e = .runtime located → located.reported = false

/-- Computations that leave the books alone but for calls of native functions and, if they may, of what the
host may call, whose errors they answer. -/
inductive Consults (reenters : Prop) : {α : Type} → (Calls → Exec RuntimeError α) → Prop
  | plain {α : Type} {x : Exec RuntimeError α} :
    (∀ s, Still s (finalState (x s))) → Consults reenters fun _ => x
  | native (r : Ref .native) (args : Arguments) : Consults reenters fun calls => calls.native r args
  | invoke (callee : Value) (args : Arguments) :
    reenters → Consults reenters fun calls => (calls.invoke callee args).attempt
  | attempt {α : Type} {x : Calls → Exec RuntimeError α} :
    Consults reenters x → Consults reenters fun calls => (x calls).attempt
  | holding {α : Type} {x : Calls → Exec RuntimeError α} (h : Hold) :
    Consults reenters x → Consults reenters fun calls => (x calls).holding h
  | bind {α β : Type} {x : Calls → Exec RuntimeError α} {f : α → Calls → Exec RuntimeError β} :
    Consults reenters x → (∀ a, Consults reenters (f a)) →
      Consults reenters fun calls => x calls >>= (f · calls)

/-- Computations that leave the books alone but for runs of frames that they make and calls of what the host
may call. They pass on the errors of these. -/
inductive Delegates (reenters invokes : Prop) : {α : Type} → (Calls → Exec ScriptError α) → Prop
  | plain {α : Type} {x : Exec ScriptError α} :
    (∀ s, Still s (finalState (x s))) → (∀ s e s', x s = .error (.failed e) s' → e.IsUnreported) →
      Delegates reenters invokes fun _ => x
  | located {α : Type} {x : Calls → Exec RuntimeError α} (site : Site) :
    Consults reenters x → Delegates reenters invokes fun calls => (x calls).mapError site.locate
  /-- Finds out which procedure to run, and runs it. -/
  | enter (find : State → Except ScriptError (ProcedureId × ProgramId × Locals)) :
    (∀ s e, find s = .error e → e.IsUnreported) →
      Delegates reenters invokes fun calls s =>
        match find s with
        | .ok (id, program, locals) => calls.run (.enter s (s.store.procedure id) program locals) s
        | .error e => .error (.failed e) s
  | invoke (callee : Value) (args : Arguments) :
    invokes → Delegates reenters invokes fun calls => calls.invoke callee args
  | holding {α : Type} {x : Calls → Exec ScriptError α} (h : Hold) :
    Delegates reenters invokes x → Delegates reenters invokes fun calls => (x calls).holding h
  | bind {α β : Type} {x : Calls → Exec ScriptError α} {f : α → Calls → Exec ScriptError β} :
    Delegates reenters invokes x → (∀ a, Delegates reenters invokes (f a)) →
      Delegates reenters invokes fun calls => x calls >>= (f · calls)

/-- A host whose functions leave the books alone. They may print, end the run, change the store, and, if
they may re-enter the interpreter, call values of the script. -/
structure Host.IsPolite (reenters : Prop) (host : Host) : Prop where
  getMember : ∀ r object name, Consults reenters fun calls => host.getMember calls r object name
  setMember : ∀ r object name v, Consults reenters fun calls => host.setMember calls r object name v
  callMethod : ∀ r object name args, Consults reenters fun calls => host.callMethod calls r object name args
  call : ∀ r object args, Consults reenters fun calls => host.call calls r object args
  native : ∀ name captured args, Consults reenters fun calls => host.native calls name captured args

end ScriptEngine
