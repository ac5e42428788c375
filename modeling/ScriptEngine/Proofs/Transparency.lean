import ScriptEngine.Proofs.Likeness

/-! # The debugger is transparent

Whether there is a debugger makes no difference to a run, as long as it never ends the run: whatever it wants after
its stops, states that are alike lead to the same. There is one exception. A procedure of a class sees the statics of
the class if something else still holds it, and the call stack as it was last seen can be what holds it. So this is
about runs in which no procedure runs that has lost its class.
-/

namespace ScriptEngine

variable {α : Type}

/-- The frame does not see the statics of the class of its procedure. -/
def Frame.IsLost (f : Frame) : Prop := f.owner ≠ f.procedure.owner

instance (f : Frame) : Decidable f.IsLost := inferInstanceAs (Decidable (f.owner ≠ f.procedure.owner))

/-- Nested runs that end as if a bound were used up where a procedure has lost its class. -/
def Calls.demanding (calls : Calls) : Calls :=
  { calls with run := fun f => if f.IsLost then throw .exhausted else calls.run f }

/-- The nested runs of an engine that all demand the classes of their procedures. -/
def Calls.nestedDemanding (host : Host) (steps : Nat) : (depth : Nat) → Calls
  | 0 => .nested host steps 0
  | depth + 1 =>
    let below := nestedDemanding host steps depth
    demanding
      { run := fun f => f.run host below steps
        invoke := fun callee args => Invoke.value host below .host callee none args
        native := fun f args => Invoke.native host below f args }

/-- Two frames are one, unless one of them is lost. -/
def Frame.Alike (f f' : Frame) : Prop := f = f' ∨ f.IsLost ∨ f'.IsLost

/-- Nested runs that cannot tell a debugger. -/
structure Calls.IsBlind (calls : Calls) : Prop where
  run : ∀ f f', f.Alike f' → Accords State.Alike Eq (calls.run f) (calls.run f')
  invoke : ∀ callee args, Accords State.Alike Eq (calls.invoke callee args) (calls.invoke callee args)
  native : ∀ r args, Accords State.Alike Eq (calls.native r args) (calls.native r args)

/-- A host that cannot tell a debugger if the runs that it starts cannot: it looks neither at debuggers nor at what was
last seen of the calls. -/
structure Host.IsBlind (host : Host) : Prop where
  getMember : ∀ {calls : Calls} r object name, calls.IsBlind →
    Accords State.Alike Eq (host.getMember calls r object name) (host.getMember calls r object name)
  setMember : ∀ {calls : Calls} r object name v, calls.IsBlind →
    Accords State.Alike Eq (host.setMember calls r object name v) (host.setMember calls r object name v)
  callMethod : ∀ {calls : Calls} r object name args, calls.IsBlind →
    Accords State.Alike Eq (host.callMethod calls r object name args) (host.callMethod calls r object name args)
  call : ∀ {calls : Calls} r object args, calls.IsBlind →
    Accords State.Alike Eq (host.call calls r object args) (host.call calls r object args)
  native : ∀ {calls : Calls} name captured args, calls.IsBlind →
    Accords State.Alike Eq (host.native calls name captured args) (host.native calls name captured args)

variable {host : Host} {calls : Calls} (blind : host.IsBlind) (nested : calls.IsBlind)

/-- A frame that is entered in states that are alike is one, unless it is lost. -/
theorem Frame.enter_alike {s t : State} (alike : s.Alike t) (p : Procedure) (program : ProgramId) (locals : Locals) :
    (Frame.enter s p program locals).Alike (Frame.enter t p program locals) := by
  by_cases left : (Frame.enter s p program locals).IsLost
  · exact .inr (.inl left)
  · by_cases right : (Frame.enter t p program locals).IsLost
    · exact .inr (.inr right)
    · refine .inl ?_
      have same : s.ownerOf? p locals.table = t.ownerOf? p locals.table :=
        (Decidable.not_not.mp left : _ = p.owner).trans (Decidable.not_not.mp right : _ = p.owner).symm
      unfold Frame.enter
      rw [same, alike.store, alike.control.limits]

theorem State.Alike.likeness : State.Likeness State.Alike Frame.Alike where
  reads alike _ := congrArg _ alike.store
  limits alike := alike.control.limits
  output alike := alike.control.output
  changed {_ _ g} _ alike := ⟨congrArg g alike.store, alike.control⟩
  hold _ alike := ⟨alike.store, alike.control.hold⟩
  letGo alike := ⟨alike.store, alike.control.letGo⟩
  prints o alike :=
    ⟨alike.store, alike.control.changed (h := fun c => { c with output := o }) (fun _ => rfl) fun _ => rfl⟩
  enters id program locals alike := by
    rw [alike.store]
    exact Frame.enter_alike alike _ program locals

theorem Calls.IsBlind.likens {calls : Calls} (nested : calls.IsBlind) :
    calls.Likens State.Alike Frame.Alike calls := ⟨nested.run, nested.invoke, nested.native⟩

theorem Host.IsBlind.likens {host : Host} {calls : Calls} (blind : host.IsBlind) (nested : calls.IsBlind) :
    host.Likens State.Alike calls calls where
  getMember r object name := blind.getMember r object name nested
  setMember r object name v := blind.setMember r object name v nested
  callMethod r object name args := blind.callMethod r object name args nested
  call r object args := blind.call r object args nested
  native name captured args := blind.native name captured args nested

namespace Machine

/-- Two machines with one frame and states that are alike. -/
structure Alike (m m' : Machine) : Prop where
  frame : m.frame = m'.frame
  state : m.state.Alike m'.state

variable {x y : MachineM α} {P : α → α → Prop}

theorem readFrame_accords (h : Frame → α) : Accords Alike Eq (readFrame h) (readFrame h) :=
  .get fun _ _ alike => .pure (congrArg h alike.frame)

theorem modifyFrame_accords (h : Frame → Frame) : Accords Alike Eq (modifyFrame h) (modifyFrame h) :=
  .changed fun _ _ alike => ⟨congrArg h alike.frame, alike.state⟩

theorem modifyControl_accords {h : Control → Control} (kept : ∀ c c', c.Alike c' → (h c).Alike (h c')) :
    Accords Alike Eq (modifyControl h) (modifyControl h) :=
  .changed fun _ _ alike => ⟨alike.frame, alike.state.store, kept _ _ alike.state.control⟩

theorem failHere_accords {e : RuntimeError} : Accords Alike P (failHere e : MachineM α) (failHere e) :=
  (readFrame_accords _).bind_eq fun _ => .fail

theorem failBroken_accords {what : String} : Accords Alike P (failBroken what : MachineM α) (failBroken what) :=
  (readFrame_accords _).bind_eq fun _ => .fail

theorem onState_accords {x y : Exec ScriptError α} (accords : Accords State.Alike P x y) :
    Accords Alike P (onState x) (onState y) := by
  rintro ⟨f, s⟩ ⟨_, t⟩ ⟨rfl, alike⟩
  have here := Exec.holding_accords State.Alike.likeness (h := f.hold) accords s t alike
  unfold onState
  dsimp only
  generalize x.holding f.hold s = r, y.holding f.hold t = r' at here
  cases here with
  | ok after same => exact .ok ⟨rfl, after⟩ same
  | failed after => exact .failed ⟨rfl, after⟩
  | exhausted => exact .exhausted
  | exhausted' => exact .exhausted'

theorem located_accords {x y : Exec RuntimeError α} (accords : Accords State.Alike P x y) :
    Accords Alike P (located x) (located y) :=
  (readFrame_accords _).bind_eq fun _ => onState_accords (Exec.mapError_accords accords)

theorem push_accords (v : Value) : Accords Alike Eq (push v) (push v) := by
  refine (readFrame_accords _).bind_eq fun f => ?_
  split
  · exact failHere_accords
  · exact modifyFrame_accords _

theorem pop_accords : Accords Alike Eq pop pop := by
  refine (readFrame_accords _).bind_eq fun f => ?_
  split
  · exact failBroken_accords
  · exact (modifyFrame_accords _).bind_eq fun _ => .pure rfl

theorem popArguments_accords (call : CallSite) : Accords Alike Eq (popArguments call) (popArguments call) := by
  refine (readFrame_accords _).bind_eq fun f => ?_
  split
  · exact failBroken_accords
  · exact (modifyFrame_accords _).bind_eq fun _ => .pure rfl

theorem moveTo_accords (place : Position) : Accords Alike Eq (moveTo place) (moveTo place) := modifyFrame_accords _

theorem refreshCall_accords : Accords Alike Eq refreshCall refreshCall := by
  refine .changed ?_
  rintro ⟨f, s⟩ ⟨_, t⟩ ⟨rfl, alike⟩
  dsimp only
  split <;> split
  · exact ⟨rfl, alike.store, alike.control.refreshCall_left.refreshCall_right⟩
  · exact ⟨rfl, alike.store, alike.control.refreshCall_left⟩
  · exact ⟨rfl, alike.store, alike.control.refreshCall_right⟩
  · exact ⟨rfl, alike⟩

theorem assign_accords (name : String) (v : Value) : Accords Alike Eq (assign name v) (assign name v) := by
  refine .changed ?_
  rintro ⟨f, store, c⟩ ⟨_, _, c'⟩ ⟨rfl, rfl, alike⟩
  exact ⟨rfl, rfl, alike⟩

theorem assignArguments_accords (args : Arguments) :
    Accords Alike Eq (assignArguments args) (assignArguments args) := by
  unfold assignArguments
  split
  · split
    · exact assign_accords _ _
    · exact failBroken_accords
  · exact failBroken_accords

theorem memberName_accords (args : Arguments) : Accords Alike Eq (memberName args) (memberName args) := by
  unfold memberName
  split
  · exact .pure rfl
  · refine .get fun m m' alike => ?_
    rw [alike.state.store]
    exact failHere_accords
  · exact failBroken_accords

theorem decides_accords (kind : BranchKind) : Accords Alike Eq (decides kind) (decides kind) := by
  unfold decides
  split
  · exact .pure rfl
  · refine pop_accords.bind_eq fun condition => ?_
    split
    · exact .pure rfl
    · refine .get fun m m' alike => ?_
      rw [alike.state.store]
      exact failHere_accords

theorem branch_accords (kind : BranchKind) (offset : Offset) :
    Accords Alike Eq (branch kind offset) (branch kind offset) := by
  refine (decides_accords kind).bind_eq fun taken => ?_
  split
  · refine (readFrame_accords _).bind_eq fun f => ?_
    split
    · exact .pure rfl
    · exact .pure rfl
    · exact failBroken_accords
  · exact .pure rfl

theorem enterTry_accords (offset : Offset) : Accords Alike Eq (enterTry offset) (enterTry offset) := by
  refine (readFrame_accords _).bind_eq fun f => ?_
  split
  · refine (modifyFrame_accords _).bind_eq fun _ => modifyControl_accords fun c c' alike => ?_
    exact alike.changed (fun _ => rfl) fun _ => rfl
  · exact failBroken_accords

/-- Leaving guarded regions is nothing that a debugger sees. -/
theorem leaveTries_accords (count : Nat) :
    Accords Alike Eq (modifyControl (·.leaveTries count)) (modifyControl (·.leaveTries count)) :=
  modifyControl_accords fun _ _ alike => alike.changed (h := (·.leaveTries count)) (fun _ => rfl) fun _ => rfl

theorem leaveTry_accords : Accords Alike Eq leaveTry leaveTry := by
  refine (readFrame_accords _).bind_eq fun f => ?_
  split
  · exact failBroken_accords
  · exact (modifyFrame_accords _).bind_eq fun _ => leaveTries_accords 1

theorem takeMessage_accords (binding : Option String) :
    Accords Alike Eq (takeMessage binding) (takeMessage binding) := by
  refine pop_accords.bind_eq fun message => ?_
  split
  · exact assign_accords _ _
  · exact .pure rfl

/-- A stop of a debugger that goes on leaves the machine as it was, but for what is there for debuggers. -/
theorem interrupt_alike (m : Machine) (goes : m.state.control.GoesOn) :
    ∃ m', interrupt m = .ok () m' ∧ m.Alike m' := by
  obtain ⟨m₁, run, alike⟩ : ∃ m₁, refreshCall m = .ok () m₁ ∧ m.Alike m₁ := by
    obtain ⟨f, s⟩ := m
    refine ⟨_, rfl, ?_⟩
    dsimp only
    split
    · exact ⟨rfl, rfl, (Control.Alike.refl goes).refreshCall_right⟩
    · exact ⟨rfl, rfl, .refl goes⟩
  obtain ⟨on, after⟩ := Control.stop_alike alike.state.control.right m₁.state.store
  refine ⟨⟨m₁.frame, { m₁.state with control := (m₁.state.control.stop m₁.state.store).2 }⟩, ?_,
    alike.frame, alike.state.store, alike.state.control.trans after⟩
  unfold interrupt
  rw [bind_ok run]
  change (if (m₁.state.control.stop m₁.state.store).1 = .terminate then fail .terminated else pure () : MachineM Unit) _
    = _
  rw [if_neg on]
  rfl

/-- Where one machine stops for its debugger the other one may go on at once. -/
theorem interrupt_accords {p q : Prop} [Decidable p] [Decidable q] :
    Accords Alike Eq (if p then interrupt else pure ()) (if q then interrupt else pure ()) := by
  have stops (m : Machine) (goes : m.state.control.GoesOn) (p : Prop) [Decidable p] :
      ∃ m', (if p then interrupt else pure () : MachineM Unit) m = .ok () m' ∧ m.Alike m' := by
    split
    · exact interrupt_alike m goes
    · exact ⟨m, rfl, rfl, rfl, .refl goes⟩
  intro m m' alike
  obtain ⟨n, run, left⟩ := stops m alike.state.control.left p
  obtain ⟨n', run', right⟩ := stops m' alike.state.control.right q
  rw [run, run']
  exact .ok ⟨left.frame.symm.trans (alike.frame.trans right.frame),
    left.state.symm.trans (alike.state.trans right.state)⟩ rfl

theorem passMarker_accords (index : Nat) (lines : Lines) :
    Accords Alike Eq (passMarker index lines) (passMarker index lines) := by
  refine .get fun m m' alike => ?_
  rw [alike.state.control.terminated]
  split
  · exact .fail
  · exact (moveTo_accords _).bind_eq fun _ => interrupt_accords

section

include blind nested

theorem callNamed_accords (call : CallSite) :
    Accords Alike Eq (callNamed host calls call) (callNamed host calls call) := by
  refine (moveTo_accords _).bind_eq fun _ => (popArguments_accords call).bind_eq fun args => ?_
  split
  · exact assignArguments_accords args
  · refine refreshCall_accords.bind_eq fun _ => (readFrame_accords _).bind_eq fun f => ?_
    refine (onState_accords ?_).bind_eq push_accords
    exact Name.call_accords State.Alike.likeness (blind.likens nested) nested.likens (.refl f) _ args

theorem sendNamed_accords (call : CallSite) :
    Accords Alike Eq (sendNamed host calls call) (sendNamed host calls call) := by
  refine (moveTo_accords _).bind_eq fun _ => (popArguments_accords call).bind_eq fun args => ?_
  refine pop_accords.bind_eq fun receiver => ?_
  split
  · refine (memberName_accords args).bind_eq fun name => ?_
    refine (located_accords ?_).bind_eq push_accords
    exact Member.get_accords State.Alike.likeness (blind.likens nested) receiver name
  · refine (memberName_accords args).bind_eq fun name => ?_
    refine (located_accords ?_).bind_eq fun _ => push_accords _
    exact Member.set_accords State.Alike.likeness (blind.likens nested) receiver name _
  · refine refreshCall_accords.bind_eq fun _ => (readFrame_accords _).bind_eq fun site => ?_
    refine (onState_accords ?_).bind_eq push_accords
    exact Invoke.send_accords State.Alike.likeness (blind.likens nested) nested.likens site receiver _ args

theorem step_accords (i : Instruction) : Accords Alike Eq (step host calls i) (step host calls i) := by
  cases i with
  | value v => exact (push_accords v).bind_eq fun _ => .pure rfl
  | load name place =>
    refine (moveTo_accords _).bind_eq fun _ => (readFrame_accords _).bind_eq fun f => ?_
    refine (located_accords ?_).bind_eq fun v => (push_accords v).bind_eq fun _ => .pure rfl
    exact Name.load_accords State.Alike.likeness (blind.likens nested) (.refl f) name
  | call site => exact (callNamed_accords blind nested site).bind_eq fun _ => .pure rfl
  | send site => exact (sendNamed_accords blind nested site).bind_eq fun _ => .pure rfl
  | branch kind offset => exact branch_accords kind offset
  | stop index lines => exact (passMarker_accords index lines).bind_eq fun _ => .pure rfl
  | discard => exact pop_accords.bind_eq fun _ => .pure rfl
  | enterTry offset => exact (enterTry_accords offset).bind_eq fun _ => .pure rfl
  | leaveTry => exact leaveTry_accords.bind_eq fun _ => .pure rfl
  | caught binding => exact (takeMessage_accords binding).bind_eq fun _ => .pure rfl

end

theorem escape_accords (error : LocatedError) : Accords Alike Eq (escape error) (escape error) := by
  refine .get fun m m' alike => ?_
  rw [alike.state.control.inTry]
  split
  · exact .fail
  · refine refreshCall_accords.bind_eq fun _ => .get fun m m' alike => ?_
    have shown := alike.state.control.report (.runtime error) m.state.store
    rw [← alike.state.store]
    generalize m.state.control.report (.runtime error) m.state.store = r,
      m'.state.control.report (.runtime error) m.state.store = r' at shown
    obtain ⟨seen, c⟩ := r
    obtain ⟨_, c'⟩ := r'
    obtain ⟨rfl, after⟩ := shown
    exact Accords.bind_eq (.changed fun _ _ alike => ⟨alike.frame, alike.state.store, after⟩) fun _ => .fail

theorem recover_accords (e : ScriptError) : Accords Alike Eq (recover e) (recover e) := by
  unfold recover
  split
  · refine (readFrame_accords _).bind_eq fun f => ?_
    split
    · refine (leaveTries_accords 1).bind_eq fun _ => (modifyFrame_accords _).bind_eq fun _ => ?_
      exact (push_accords _).bind_eq fun _ => modifyFrame_accords _
    · exact escape_accords _
  · exact .fail

include blind nested in
theorem execute_accords (steps : Nat) :
    Accords Alike Eq (execute host calls steps) (execute host calls steps) := by
  induction steps with
  | zero => exact fun _ _ _ => .exhausted
  | succ steps ih =>
    rintro ⟨f, s⟩ ⟨_, t⟩ ⟨rfl, alike⟩
    rw [execute, execute]
    dsimp only
    cases f.procedure.code[f.pc]? with
    | none => exact .ok ⟨rfl, alike⟩ rfl
    | some i =>
      have here := step_accords blind nested i ⟨f, s⟩ ⟨f, t⟩ ⟨rfl, alike⟩
      dsimp only
      generalize step host calls i ⟨f, s⟩ = r, step host calls i ⟨f, t⟩ = r' at here
      cases here with
      | @ok flow _ m m' after same =>
        subst same
        obtain ⟨f, s⟩ := m
        obtain ⟨_, t⟩ := m'
        obtain ⟨rfl, alike⟩ := after
        cases flow with
        | next => exact ih _ _ ⟨rfl, alike⟩
        | jump target => exact ih _ _ ⟨rfl, alike⟩
        | leave v => exact .ok ⟨rfl, alike⟩ rfl
      | @failed e m m' after =>
        have here := recover_accords e m m' after
        dsimp only
        generalize recover e m = r, recover e m' = r' at here
        cases here with
        | ok after same => exact ih _ _ after
        | failed after => exact .failed after
        | exhausted => exact .exhausted
        | exhausted' => exact .exhausted'
      | exhausted => exact .exhausted
      | exhausted' => exact .exhausted'

end Machine

include blind nested in
theorem Frame.run_accords (steps : Nat) (f : Frame) :
    Accords State.Alike Eq (f.run host calls steps) (f.run host calls steps) := by
  refine (Exec.tryControl_accords fun s t alike => ?_).bind_eq fun _ => fun s t alike => ?_
  · have opened := alike.control.openCall f.record
    generalize s.control.openCall f.record = x, t.control.openCall f.record = y at opened ⊢
    cases x <;> cases y
    · exact congrArg f.locate opened
    · exact opened.elim
    · exact opened.elim
    · exact ⟨alike.store, opened⟩
  · have here := Machine.execute_accords blind nested steps ⟨f, s⟩ ⟨f, t⟩ ⟨rfl, alike⟩
    have left {m m' : Machine} (alike : m.Alike m') :
        (run.leave m.frame m.state).Alike (run.leave m'.frame m'.state) := by
      rw [← alike.frame]
      refine ⟨alike.state.store, Control.Alike.closeCall ?_⟩
      exact alike.state.control.changed (h := (·.leaveTries m.frame.handlers.length)) (fun _ => rfl) fun _ => rfl
    generalize Machine.execute host calls steps ⟨f, s⟩ = r, Machine.execute host calls steps ⟨f, t⟩ = r' at here
    cases here with
    | ok after same => exact .ok (left after) same
    | failed after => exact .failed (left after)
    | exhausted => exact .exhausted
    | exhausted' => exact .exhausted'

include blind in
/-- Runs that demand classes cannot tell a debugger. -/
theorem Calls.nestedDemanding_isBlind (steps depth : Nat) : (nestedDemanding host steps depth).IsBlind := by
  induction depth with
  | zero => exact ⟨fun _ _ _ => .exhausted, fun _ _ => .exhausted, fun _ _ => .exhausted⟩
  | succ depth ih =>
    refine ⟨fun f f' alike => ?_, fun callee args =>
      Invoke.value_accords State.Alike.likeness (blind.likens ih) ih.likens _ _ _ _,
      fun r args => Invoke.native_accords State.Alike.likeness (blind.likens ih) ih.likens _ _⟩
    change Accords State.Alike Eq (if f.IsLost then throw .exhausted else f.run host _ steps)
      (if f'.IsLost then throw .exhausted else f'.run host _ steps)
    by_cases lost : f.IsLost
    · rw [if_pos lost]
      exact .exhausted
    by_cases lost' : f'.IsLost
    · rw [if_pos lost']
      exact .exhausted'
    obtain rfl : f = f' := alike.resolve_right fun either => either.elim lost lost'
    rw [if_neg lost]
    exact Frame.run_accords blind ih steps f

namespace Engine

variable (e : Engine) (id : ProgramId)

/-- The replies to operations one after the other, and the state after them. -/
def converse : List Operation → State → List (Except (Halt ScriptError) Value) × State
  | [], s => ([], s)
  | op :: ops, s =>
    match op.perform e.calls id s with
    | .ok v s => ((converse ops s).1.cons (.ok v), (converse ops s).2)
    | .error halt s => ((converse ops s).1.cons (.error halt), (converse ops s).2)

/-- During operations no procedure runs that has lost its class, and no bound is used up: all comes to the same with
runs that demand classes. -/
def KeepsClasses : List Operation → State → Prop
  | [], _ => True
  | op :: ops, s =>
    (∀ t, op.perform e.calls id s ≠ .error .exhausted t) ∧
      op.perform (.nestedDemanding e.host e.steps e.depth) id s = op.perform e.calls id s ∧
      KeepsClasses ops (finalState (op.perform e.calls id s))

variable {e id}

/-- The debugger is transparent: from states that are alike all operations get the same replies, with the same
locations of errors, and lead to states that are alike, with one store, one output and the same calls of the error
watcher. This is so whatever debuggers there are, as long as they go on, and no procedure runs without its class. -/
theorem debugger_transparent (blind : e.host.IsBlind) {ops : List Operation} {s t : State} (alike : s.Alike t)
    (keeps : e.KeepsClasses id ops s) (keeps' : e.KeepsClasses id ops t) :
    (e.converse id ops s).1 = (e.converse id ops t).1 ∧ (e.converse id ops s).2.Alike (e.converse id ops t).2 := by
  induction ops generalizing s t with
  | nil => exact ⟨rfl, alike⟩
  | cons op ops ih =>
    obtain ⟨ends, demands, later⟩ := keeps
    obtain ⟨ends', demands', later'⟩ := keeps'
    have nested := Calls.nestedDemanding_isBlind blind e.steps e.depth
    have here := Operation.perform_accords State.Alike.likeness nested.likens op id s t alike
    rw [demands, demands'] at here
    unfold converse
    generalize op.perform e.calls id s = r, op.perform e.calls id t = r' at *
    cases here with
    | ok after same =>
      obtain ⟨replies, states⟩ := ih after later later'
      exact ⟨List.cons_eq_cons.mpr ⟨congrArg Except.ok same, replies⟩, states⟩
    | failed after =>
      obtain ⟨replies, states⟩ := ih after later later'
      exact ⟨List.cons_eq_cons.mpr ⟨rfl, replies⟩, states⟩
    | exhausted => exact absurd rfl (ends _)
    | exhausted' => exact absurd rfl (ends' _)

end Engine

/-- A state is like the one with a debugger that goes on, in step mode or not. -/
theorem State.alike_attach (s : State) (none : s.control.debugger = none) (d : Debugger) (stepMode : Bool)
    (goes : ∀ stops stack, d.answer stops stack ≠ .terminate) :
    s.Alike { s with control := { s.control.attach d with stepMode } } := by
  refine ⟨rfl, rfl, ?_, ?_⟩
  · intro d' here
    rw [none] at here
    cases here
  · rintro _ ⟨⟩
    exact goes

/-- A host without objects or functions cannot tell a debugger. -/
theorem Host.none_isBlind : Host.none.IsBlind where
  getMember _ _ _ _ := .fail
  setMember _ _ _ _ _ := .fail
  callMethod _ _ _ _ _ := .fail
  call _ _ _ _ := .fail
  native _ _ _ _ := .fail

/-- A state with a program of one class, whose method passes a marker and then reads a static of the class. -/
def keptClass : State :=
  let method : Procedure := ⟨"f", [], #[.stop 0 ⟨1, 1⟩, .load "n" ⟨1, 2⟩], 1, some ⟨0, 0⟩⟩
  let parts : ProgramParts :=
    { procedures := #[method]
      classes := #[⟨"K", Table.ofList [("n", .bool true)], .empty⟩]
      members := Table.ofList [("K", .classRef ⟨0, 0⟩)]
      topLevel := none
      classSetups := []
      markers := #[⟨⟨1, 1⟩, true, true⟩] }
  ⟨(Store.empty.addProgram (.ofParts "demo" .zero parts)).2, .start⟩

theorem Engine.keptClass_keeps (c : Control) (here : c = .start ∨ c = Control.start.attach ⟨fun _ _ => .step⟩) :
    KeepsClasses ⟨.none, 3, 9⟩ 0 [.invoke (.procedure ⟨0, 0⟩) []] ⟨keptClass.store, c⟩ := by
  rcases here with rfl | rfl <;> exact ⟨nofun, rfl, trivial⟩

/-- The method comes to the same with a debugger that stops at every marker. -/
example : (Engine.converse ⟨.none, 3, 9⟩ 0 [.invoke (.procedure ⟨0, 0⟩) []] keptClass).1 =
    (Engine.converse ⟨.none, 3, 9⟩ 0 [.invoke (.procedure ⟨0, 0⟩) []]
      ⟨keptClass.store, Control.start.attach ⟨fun _ _ => .step⟩⟩).1 :=
  (Engine.debugger_transparent Host.none_isBlind (State.alike_attach keptClass rfl ⟨fun _ _ => .step⟩ false nofun)
    (Engine.keptClass_keeps _ (.inl rfl)) (Engine.keptClass_keeps _ (.inr rfl))).1

end ScriptEngine
