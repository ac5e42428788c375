import ScriptEngine.Run.Execute

/-! # Steps as equations

The primitive computations of a machine, each as an equation, and what the sequence of two computations comes
to. Later statements about single instructions are read off these.
-/

namespace ScriptEngine

section

variable {ε σ α β : Type} {x : EStateM ε σ α} {f : α → EStateM ε σ β} {s s' : σ}

theorem bind_ok {a : α} (h : x s = .ok a s') : (x >>= f) s = f a s' := by
  change EStateM.bind x f s = _
  simp only [EStateM.bind, h]

theorem bind_error {e : ε} (h : x s = .error e s') : (x >>= f) s = .error e s' := by
  change EStateM.bind x f s = _
  simp only [EStateM.bind, h]

theorem bind_eq_ok_iff {b : β} :
    (x >>= f) s = .ok b s' ↔ ∃ a s₁, x s = .ok a s₁ ∧ f a s₁ = .ok b s' := by
  cases run : x s with
  | ok a s₁ =>
    rw [bind_ok run]
    constructor
    · intro h
      exact ⟨a, s₁, rfl, h⟩
    · rintro ⟨_, _, ⟨⟩, h⟩
      exact h
  | error e s₁ =>
    rw [bind_error run]
    simp

theorem bind_eq_error_iff {e : ε} :
    (x >>= f) s = .error e s' ↔
      x s = .error e s' ∨ ∃ a s₁, x s = .ok a s₁ ∧ f a s₁ = .error e s' := by
  cases run : x s with
  | ok a s₁ =>
    rw [bind_ok run]
    constructor
    · intro h
      exact .inr ⟨a, s₁, rfl, h⟩
    · rintro (h | ⟨_, _, ⟨⟩, h⟩)
      · cases h
      · exact h
  | error e s₁ =>
    rw [bind_error run]
    simp

theorem holding_eq (hold : Hold) (x : Exec ε α) (s : State) :
    x.holding hold s = match x ⟨s.store, s.control.hold hold⟩ with
      | .ok a s₁ => .ok a ⟨s₁.store, s₁.control.letGo⟩
      | .error halt s₁ => .error halt ⟨s₁.store, s₁.control.letGo⟩ := by
  unfold Exec.holding
  dsimp only
  cases x ⟨s.store, s.control.hold hold⟩ <;> rfl

theorem holding_congr {x y : Exec ε α} {hold : Hold} {s : State}
    (same : x ⟨s.store, s.control.hold hold⟩ = y ⟨s.store, s.control.hold hold⟩) :
    x.holding hold s = y.holding hold s := by
  rw [holding_eq, holding_eq, same]

theorem holding_eq_error_iff {hold : Hold} {x : Exec ε α} {s s' : State} {halt : Halt ε} :
    x.holding hold s = .error halt s' ↔
      ∃ s₁, x ⟨s.store, s.control.hold hold⟩ = .error halt s₁ ∧
        s' = ⟨s₁.store, s₁.control.letGo⟩ := by
  rw [holding_eq]
  cases x ⟨s.store, s.control.hold hold⟩ with
  | ok b s₁ => simp
  | error e s₁ =>
    constructor
    · rintro ⟨⟩
      exact ⟨s₁, rfl, rfl⟩
    · rintro ⟨_, ⟨⟩, rfl⟩
      rfl

theorem ofExcept_eq_ok_iff {c : Except ε α} {a : α} {s s' : State} :
    Exec.ofExcept c s = .ok a s' ↔ c = .ok a ∧ s = s' := by
  cases c with
  | ok b =>
    change EStateM.Result.ok b s = .ok a s' ↔ _
    simp
  | error e =>
    change EStateM.Result.error (Halt.failed e) s = .ok a s' ↔ _
    simp

theorem tryControl_eq (f : Control → Except ε Control) (s : State) :
    Exec.tryControl f s = match f s.control with
      | .ok control => .ok () ⟨s.store, control⟩
      | .error e => .error (.failed e) s := by
  unfold Exec.tryControl
  change EStateM.bind _ _ _ = _
  have here : (EStateM.get : Exec ε State) s = .ok s s := rfl
  simp only [EStateM.bind, MonadState.get, getThe, MonadStateOf.get, here]
  cases f s.control <;> rfl

theorem mapError_congr {δ : Type} {x y : Exec ε α} {g : ε → δ} {s : State} (same : x s = y s) :
    x.mapError g s = y.mapError g s := by
  unfold Exec.mapError
  rw [same]

theorem mapError_eq_error_iff {δ : Type} {g : ε → δ} {x : Exec ε α} {s s' : State} {halt : Halt δ} :
    x.mapError g s = .error halt s' ↔ ∃ inner, x s = .error inner s' ∧ halt = inner.map g := by
  unfold Exec.mapError
  cases x s with
  | ok b s₁ => simp
  | error e s₁ =>
    constructor
    · rintro ⟨⟩
      exact ⟨e, rfl, rfl⟩
    · rintro ⟨_, ⟨⟩, rfl⟩
      rfl

end

namespace Machine

variable {α : Type} (m : Machine)

theorem moveTo_eq (place : Position) :
    moveTo place m = .ok () ⟨{ m.frame with place }, m.state⟩ := rfl

theorem readFrame_eq (f : Frame → α) : readFrame f m = .ok (f m.frame) m := rfl

theorem push_eq (v : Value) :
    push v m =
      if m.frame.stack.height ≥ m.frame.maxStack then
        .error (.failed (m.frame.locate (.stackOverflow m.frame.maxStack))) m
      else .ok () ⟨{ m.frame with stack := m.frame.stack.push v }, m.state⟩ := by
  unfold push
  rw [bind_ok (readFrame_eq m id)]
  dsimp only [id_eq]
  split <;> rfl

theorem pop_eq :
    pop m = match m.frame.stack.pop? with
      | none => .error (.failed (m.frame.broken "operand stack underflow")) m
      | some (v, rest) => .ok v ⟨{ m.frame with stack := rest }, m.state⟩ := by
  unfold pop
  rw [bind_ok (readFrame_eq m id)]
  dsimp only [id_eq]
  cases m.frame.stack.pop? <;> rfl

theorem popArguments_eq (site : CallSite) :
    popArguments site m =
      if m.frame.stack.height < site.argc then
        .error (.failed (m.frame.broken "operand stack underflow")) m
      else
        .ok (List.zipWith Argument.mk site.keywords (m.frame.stack.latest site.argc))
          ⟨{ m.frame with stack := m.frame.stack.drop site.argc }, m.state⟩ := by
  unfold popArguments
  rw [bind_ok (readFrame_eq m id)]
  dsimp only [id_eq]
  split <;> rfl

theorem onState_eq (x : Exec ScriptError α) :
    onState x m = match x.holding m.frame.hold m.state with
      | .ok a state => .ok a ⟨m.frame, state⟩
      | .error halt state => .error halt ⟨m.frame, state⟩ := rfl

theorem onState_eq_ok_iff {m m' : Machine} {x : Exec ScriptError α} {a : α} :
    onState x m = .ok a m' ↔
      ∃ state, x.holding m.frame.hold m.state = .ok a state ∧ m' = ⟨m.frame, state⟩ := by
  rw [onState_eq]
  cases x.holding m.frame.hold m.state with
  | ok b state =>
    constructor
    · rintro ⟨⟩
      exact ⟨state, rfl, rfl⟩
    · rintro ⟨_, ⟨⟩, rfl⟩
      rfl
  | error halt state => simp

theorem onState_eq_error_iff {m m' : Machine} {x : Exec ScriptError α} {halt : Halt ScriptError} :
    onState x m = .error halt m' ↔
      ∃ state, x.holding m.frame.hold m.state = .error halt state ∧ m' = ⟨m.frame, state⟩ := by
  rw [onState_eq]
  cases x.holding m.frame.hold m.state with
  | ok b state => simp
  | error e state =>
    constructor
    · rintro ⟨⟩
      exact ⟨state, rfl, rfl⟩
    · rintro ⟨_, ⟨⟩, rfl⟩
      rfl

/-- A computation with its errors located where the machine is. -/
theorem located_eq (x : Exec RuntimeError α) :
    located x m = onState (x.mapError m.frame.site.locate) m := rfl

/-- The state after the frame's entry of the call stack is up to date, if anyone can look at it. -/
def refreshed : State :=
  if m.state.control.isObserved then
    { m.state with
      control := m.state.control.refreshCall m.frame.place.line (m.frame.visible m.state.store) }
  else m.state

theorem refreshCall_eq : refreshCall m = .ok () ⟨m.frame, m.refreshed⟩ := by
  obtain ⟨frame, state⟩ := m
  unfold refreshCall refreshed
  change EStateM.Result.ok () _ = _
  dsimp only
  split <;> rfl

theorem assign_eq (name : String) (v : Value) :
    assign name v m =
      .ok () ⟨(m.frame.assign m.state.store name v).1,
        { m.state with store := (m.frame.assign m.state.store name v).2 }⟩ := rfl

/-- The machine at another place of the source. -/
def placed (place : Position) : Machine := ⟨{ m.frame with place }, m.state⟩

/-- The machine without its latest operands. -/
def dropped (count : Nat) : Machine :=
  ⟨{ m.frame with stack := m.frame.stack.drop count }, m.state⟩

/-- The machine with one more operand. -/
def pushed (v : Value) : Machine := ⟨{ m.frame with stack := m.frame.stack.push v }, m.state⟩

/-- The machine with its entry of the call stack up to date. -/
def current : Machine := ⟨m.frame, m.refreshed⟩

/-- The latest operands as the arguments of a call. -/
def operands (site : CallSite) : Arguments :=
  List.zipWith Argument.mk site.keywords (m.frame.stack.latest site.argc)

variable (host : Host) (calls : Calls)

theorem step_load_eq (name : String) (place : Position) :
    step host calls (.load name place) m =
      (onState ((Name.load host calls (m.placed place).frame name).mapError
        (m.placed place).frame.site.locate) >>= fun v => push v >>= fun _ => pure Flow.next)
        (m.placed place) := rfl

theorem callNamed_eq (site : CallSite) :
    callNamed host calls site m =
      if m.frame.stack.height < site.argc then
        .error (.failed ((m.placed site.place).frame.broken "operand stack underflow"))
          (m.placed site.place)
      else if site.name = "set" then
        assignArguments (m.operands site) ((m.placed site.place).dropped site.argc)
      else
        (onState (Name.call host calls ((m.placed site.place).dropped site.argc).frame site.name
          (m.operands site)) >>= push) ((m.placed site.place).dropped site.argc).current := by
  unfold callNamed
  rw [bind_ok (moveTo_eq m site.place)]
  by_cases short : m.frame.stack.height < site.argc
  · rw [if_pos short]
    refine bind_error ?_
    rw [popArguments_eq]
    exact if_pos short
  · rw [if_neg short]
    have popped : popArguments site (m.placed site.place) =
        .ok (m.operands site) ((m.placed site.place).dropped site.argc) := by
      rw [popArguments_eq]
      exact if_neg short
    refine (bind_ok popped).trans ?_
    by_cases named : site.name = "set"
    · rw [if_pos named, if_pos named]
    · rw [if_neg named, if_neg named]
      exact bind_ok (refreshCall_eq _)

theorem assignArguments_cases (args : Arguments) :
    (∃ tag name tag' v rest, args = ⟨tag, .string name⟩ :: ⟨tag', v⟩ :: rest ∧
      assignArguments args m = assign name v m) ∨
    ∃ what, assignArguments args m = .error (.failed (m.frame.broken what)) m ∧
      ((∃ target, args.value? 0 = some target ∧ ∀ name, target ≠ .string name) ∨
        args.length < 2) := by
  match args with
  | [] => exact .inr ⟨_, rfl, .inr (by simp)⟩
  | [_] => exact .inr ⟨_, rfl, .inr (by simp)⟩
  | ⟨tag, target⟩ :: ⟨tag', v⟩ :: rest =>
    cases target with
    | string name => exact .inl ⟨tag, name, tag', v, rest, rfl, rfl⟩
    | _ => exact .inr ⟨_, rfl, .inl ⟨_, rfl, by simp⟩⟩

theorem memberName_eq (args : Arguments) :
    memberName args m = match args.value? 0 with
      | some (.string name) => .ok name m
      | some other => .error (.failed (m.frame.locate
          (.typeMismatch "member access" "string" (m.state.store.typeName other)))) m
      | none => .error (.failed (m.frame.broken "member access without a name")) m := by
  unfold memberName
  cases args.value? 0 with
  | none => rfl
  | some v => cases v <;> rfl

/-- What a send does once its arguments and its receiver are off the stack. -/
def sendTo (receiver : Value) (name : String) (args : Arguments) : MachineM Value :=
  match name with
  | "getMember" => do
    let name ← memberName args
    located (Member.get host calls receiver name)
  | "setMember" => do
    let name ← memberName args
    let v := (args.value? 1).getD .null
    located (Member.set host calls receiver name v)
    pure v
  | name => do
    refreshCall
    let site ← readFrame Frame.site
    onState (Invoke.send host calls site receiver name args)

theorem sendTo_other {receiver : Value} {name : String} {args : Arguments}
    (notGet : name ≠ "getMember") (notSet : name ≠ "setMember") :
    sendTo host calls receiver name args = (do
      refreshCall
      let site ← readFrame Frame.site
      onState (Invoke.send host calls site receiver name args)) := by
  unfold sendTo
  split
  · exact absurd rfl notGet
  · exact absurd rfl notSet
  · rfl

theorem pop_cases : (∃ v, m.frame.stack.top? = some v ∧ pop m = .ok v (m.dropped 1)) ∨
    m.frame.stack.height = 0 ∧
      pop m = .error (.failed (m.frame.broken "operand stack underflow")) m := by
  rw [pop_eq]
  obtain ⟨⟨_, _, _, _, _, ⟨items, height, same⟩, _, _, _, _⟩, _⟩ := m
  cases items with
  | nil => exact .inr ⟨same, rfl⟩
  | cons v rest => exact .inl ⟨v, rfl, rfl⟩

/-- The machine in which a send has its arguments and its receiver in hand. -/
def opened (site : CallSite) : Machine := ((m.placed site.place).dropped site.argc).dropped 1

theorem sendNamed_cases (site : CallSite) :
    (∃ receiver, m.frame.stack.items[site.argc]? = some receiver ∧
      sendNamed host calls site m =
        (sendTo host calls receiver site.name (m.operands site) >>= push) (m.opened site)) ∨
    m.frame.stack.height < site.argc + 1 ∧ ∃ count,
      sendNamed host calls site m =
        .error (.failed ((m.placed site.place).frame.broken "operand stack underflow"))
          ((m.placed site.place).dropped count) := by
  unfold sendNamed
  rw [bind_ok (moveTo_eq m site.place)]
  by_cases short : m.frame.stack.height < site.argc
  · refine .inr ⟨by omega, 0, bind_error ?_⟩
    rw [popArguments_eq]
    exact if_pos short
  · have popped : popArguments site (m.placed site.place) =
        .ok (m.operands site) ((m.placed site.place).dropped site.argc) := by
      rw [popArguments_eq]
      exact if_neg short
    rcases pop_cases ((m.placed site.place).dropped site.argc) with
      ⟨receiver, top, took⟩ | ⟨empty, failed⟩
    · refine .inl ⟨receiver, ?_, (bind_ok popped).trans ((bind_ok took).trans ?_)⟩
      · rw [← List.head?_drop]
        exact top
      · generalize site.name = name
        unfold sendTo
        split
        all_goals
          simp only [bind_assoc, pure_bind]
          rfl
    · refine .inr ⟨?_, site.argc, (bind_ok popped).trans (bind_error failed)⟩
      change m.frame.stack.height - site.argc = 0 at empty
      omega

/-- What a branch that is taken does. -/
def land (offset : Offset) : EStateM.Result (Halt ScriptError) Machine Flow :=
  match landing? m.frame.pc offset m.frame.procedure.code.size with
  | some (.index target) => .ok (.jump target) m
  | some .exit => .ok (.leave (m.frame.stack.top?.getD .null)) m
  | none => .error (.failed (m.frame.broken "branch target outside the instruction list")) m

theorem land_index {offset : Offset} {target : Nat}
    (lands : landing? m.frame.pc offset m.frame.procedure.code.size = some (.index target)) :
    m.land offset = .ok (.jump target) m := by
  unfold land
  rw [lands]

theorem branch_eq (kind : BranchKind) (offset : Offset) :
    branch kind offset m = match decides kind m with
      | .ok true m' => m'.land offset
      | .ok false m' => .ok .next m'
      | .error halt m' => .error halt m' := by
  unfold branch
  rcases run : decides kind m with ⟨taken, m'⟩ | ⟨halt, m'⟩
  · rw [bind_ok run]
    cases taken with
    | false => rfl
    | true =>
      refine (bind_ok (readFrame_eq m' id)).trans ?_
      unfold land
      dsimp only [id_eq]
      cases landing? m'.frame.pc offset m'.frame.procedure.code.size with
      | none => rfl
      | some landing => cases landing <;> rfl
  · exact bind_error run

theorem decides_always : decides .always m = .ok true m := rfl

/-- What a condition decides. -/
def decided (kind : BranchKind) : Value → MachineM Bool
  | .bool b => pure (b == (kind == .ifTrue))
  | other => do
    let m ← get
    failHere (.typeMismatch "condition" "bool" (m.state.store.typeName other))

theorem decides_cases {kind : BranchKind} (conditional : kind ≠ .always) :
    (∃ b, m.frame.stack.top? = some (.bool b) ∧
      decides kind m = .ok (b == (kind == .ifTrue)) (m.dropped 1)) ∨
    (∃ v e, m.frame.stack.top? = some v ∧ v.asBool? = none ∧
      e = RuntimeError.typeMismatch "condition" "bool" (m.state.store.typeName v) ∧
      decides kind m = .error (.failed (m.frame.locate e)) (m.dropped 1)) ∨
    m.frame.stack.height = 0 ∧
      decides kind m = .error (.failed (m.frame.broken "operand stack underflow")) m := by
  have unfolded : decides kind m = (pop >>= decided kind) m := by
    cases kind with
    | always => exact absurd rfl conditional
    | _ => rfl
  rw [unfolded]
  rcases pop_cases m with ⟨v, top, took⟩ | ⟨empty, failed⟩
  · rw [bind_ok took, top]
    cases v with
    | bool b => exact .inl ⟨b, rfl, rfl⟩
    | _ => exact .inr (.inl ⟨_, _, rfl, rfl, rfl, rfl⟩)
  · exact .inr (.inr ⟨empty, bind_error failed⟩)

theorem enterTry_cases (offset : Offset) :
    (∃ target, landing? m.frame.pc offset m.frame.procedure.code.size = some (.index target) ∧
      enterTry offset m =
        .ok () ⟨{ m.frame with handlers := ⟨target, m.frame.stack.height⟩ :: m.frame.handlers },
          { m.state with control := m.state.control.enterTry }⟩) ∨
    (∀ target, landing? m.frame.pc offset m.frame.procedure.code.size ≠ some (.index target)) ∧
      enterTry offset m =
        .error (.failed (m.frame.broken "try handler outside the instruction list")) m := by
  unfold enterTry
  rw [bind_ok (readFrame_eq m id)]
  dsimp only [id_eq]
  cases landing? m.frame.pc offset m.frame.procedure.code.size with
  | none => exact .inr ⟨by simp, rfl⟩
  | some landing =>
    cases landing with
    | index target => exact .inl ⟨target, rfl, rfl⟩
    | exit => exact .inr ⟨by simp, rfl⟩

theorem leaveTry_eq :
    leaveTry m = match m.frame.handlers with
      | [] => .error (.failed (m.frame.broken "END_TRY without TRY")) m
      | _ :: rest => .ok () ⟨{ m.frame with handlers := rest },
          { m.state with control := m.state.control.leaveTries 1 }⟩ := by
  unfold leaveTry
  rw [bind_ok (readFrame_eq m id)]
  dsimp only [id_eq]
  cases m.frame.handlers <;> rfl

theorem takeMessage_cases (binding : Option String) :
    (∃ message, m.frame.stack.top? = some message ∧ takeMessage binding m =
      match binding with
      | some name => assign name message (m.dropped 1)
      | none => .ok () (m.dropped 1)) ∨
    m.frame.stack.height = 0 ∧ takeMessage binding m =
      .error (.failed (m.frame.broken "operand stack underflow")) m := by
  unfold takeMessage
  rcases pop_cases m with ⟨v, top, took⟩ | ⟨empty, failed⟩
  · refine .inl ⟨v, top, ?_⟩
    rw [bind_ok took]
    cases binding <;> rfl
  · exact .inr ⟨empty, bind_error failed⟩

theorem interrupt_eq : interrupt m =
    (if (m.refreshed.control.stop m.refreshed.store).1 = .terminate then fail .terminated else pure ())
      ⟨m.frame, m.refreshed.store, (m.refreshed.control.stop m.refreshed.store).2⟩ := by
  unfold interrupt
  rw [bind_ok (refreshCall_eq m)]
  rfl

/-- The debugger looks at a machine and changes nothing but the control state; it may end the run. -/
theorem interrupt_cases :
    ∃ state, state.store = m.state.store ∧
      (interrupt m = .ok () ⟨m.frame, state⟩ ∨
        interrupt m = .error (.failed .terminated) ⟨m.frame, state⟩) := by
  have store : m.refreshed.store = m.state.store := by
    unfold refreshed
    split <;> rfl
  refine ⟨{ m.refreshed with control := (m.refreshed.control.stop m.refreshed.store).2 }, store, ?_⟩
  rw [interrupt_eq]
  split
  · exact .inr rfl
  · exact .inl rfl

/-- Whether the debugger is asked at a stop: there is one, and it steps or the marker is a breakpoint. -/
def asksAt (index : Nat) : Bool :=
  m.state.control.debugger.isSome && (m.state.control.stepMode ||
    ((m.state.store.program m.frame.program).markers[index]?).any Marker.isArmed)

theorem passMarker_eq (index : Nat) (lines : Lines) :
    passMarker index lines m =
      if m.state.control.terminated then .error (.failed .terminated) m
      else if m.asksAt index then interrupt (m.placed (.ofLine lines.first))
      else .ok () (m.placed (.ofLine lines.first)) := by
  unfold passMarker
  change (if m.state.control.terminated = true then _ else _ : MachineM Unit) m = _
  split
  · rfl
  · rw [bind_ok (moveTo_eq m _)]
    change (if m.asksAt index = true then _ else _ : MachineM Unit) _ = _
    split <;> rfl

/-- Passing a marker at most moves the place of the frame, and fails only if the run is terminated. -/
theorem passMarker_cases (index : Nat) (lines : Lines) :
    ∃ place state, state.store = m.state.store ∧
      (passMarker index lines m = .ok () ⟨{ m.frame with place }, state⟩ ∨
        passMarker index lines m = .error (.failed .terminated) ⟨{ m.frame with place }, state⟩) := by
  rw [passMarker_eq]
  split
  · exact ⟨m.frame.place, m.state, rfl, .inr rfl⟩
  · obtain ⟨state, store, ran⟩ := (m.placed (.ofLine lines.first)).interrupt_cases
    split
    · exact ⟨_, state, store, ran⟩
    · exact ⟨_, m.state, rfl, .inl rfl⟩

/-- The machine that goes on in a handler, before the message is on its stack. -/
def unwind (h : Handler) (outer : List Handler) : Machine :=
  ⟨{ m.frame with handlers := outer, stack := m.frame.stack.truncate h.depth },
    { m.state with control := m.state.control.leaveTries 1 }⟩

/-- The machine at another instruction. -/
def jumped (target : Nat) : Machine := ⟨{ m.frame with pc := target }, m.state⟩

theorem recover_handler {e : LocatedError} {h : Handler} {outer : List Handler}
    (regions : m.frame.handlers = h :: outer) :
    recover (.runtime e) m =
      if (m.unwind h outer).frame.stack.height ≥ m.frame.maxStack then
        .error (.failed (m.frame.locate (.stackOverflow m.frame.maxStack))) (m.unwind h outer)
      else .ok () (((m.unwind h outer).pushed (.string e.message)).jumped h.target) := by
  unfold recover
  dsimp only
  rw [bind_ok (readFrame_eq m id)]
  dsimp only [id_eq]
  rw [regions]
  change (push (.string e.message) >>= fun _ => modifyFrame fun f => { f with pc := h.target })
    (m.unwind h outer) = _
  by_cases full : (m.unwind h outer).frame.stack.height ≥ m.frame.maxStack
  · rw [if_pos full]
    refine bind_error ?_
    rw [push_eq]
    exact if_pos full
  · rw [if_neg full]
    have pushed : push (.string e.message) (m.unwind h outer) =
        .ok () ((m.unwind h outer).pushed (.string e.message)) := by
      rw [push_eq]
      exact if_neg full
    exact bind_ok pushed

/-- Without a handler an error leaves the frame; the error watcher may have seen it. -/
theorem recover_nil {e : LocatedError} (regions : m.frame.handlers = []) :
    ∃ seen state, state.store = m.state.store ∧
      recover (.runtime e) m = .error (.failed (.runtime { e with reported := seen })) ⟨m.frame, state⟩ := by
  unfold recover
  dsimp only
  rw [bind_ok (readFrame_eq m id)]
  dsimp only [id_eq]
  rw [regions]
  change ∃ seen state, _ ∧ escape e m = _
  unfold escape
  change ∃ seen state, _ ∧ ((if (e.reported || m.state.control.inTry) = true then _ else _ : MachineM Unit) m) = _
  split
  · exact ⟨e.reported, m.state, rfl, rfl⟩
  · rw [bind_ok (refreshCall_eq m)]
    refine ⟨_, _, ?_, rfl⟩
    change m.refreshed.store = m.state.store
    unfold refreshed
    split <;> rfl

theorem recover_other {e : ScriptError} (fatal : e.isRecoverable = false) :
    recover e m = .error (.failed e) m := by
  cases e with
  | runtime located => cases fatal
  | _ => rfl

end Machine

end ScriptEngine
