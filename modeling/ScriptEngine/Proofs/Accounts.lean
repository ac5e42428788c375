import Mathlib.Data.List.Forall2
import ScriptEngine.Proofs.Sessions
import ScriptEngine.Proofs.Steadiness

/-! # The books of a run

The frames that are live at any time of a run, a machine and those that wait for it, account for the whole of
the call stack and for every open region. When the operation that started the run is over, however it ends,
the books are as they were.
-/

namespace ScriptEngine

variable {re : Prop} {host : Host} {calls : Calls} {s s' : State}

theorem Stack.eq_of_items {α : Type} {a b : Stack α} (same : a.items = b.items) : a = b := by
  obtain ⟨items, height, eq⟩ := a
  obtain ⟨items', height', eq'⟩ := b
  cases same
  subst eq eq'
  rfl

/-- Computations that leave the books as they were. -/
def Trail.books : Trail where
  after := SameBooks
  halted := fun s _ s' => SameBooks s s'
  still := fun still => still.toSameBooks
  trans := .trans
  onward := .trans
  stays := fun halted still => halted.trans still.toSameBooks
  raised := fun _ after => after

/-- An error that is answered has left the books as they were, too. -/
theorem Trail.books_answered (_ : re) {s : State} {halt : Halt ScriptError} {s' : State}
    (halted : Trail.books.halted s halt s') : Trail.books.after s s' := halted

namespace Machine

variable {m m' : Machine}

/-- Shows an error to the error watcher, with the books up to date. -/
def shown (m : Machine) (e : LocatedError) : Machine :=
  ⟨m.frame, m.refreshed.store, (m.refreshed.control.report (.runtime e) m.refreshed.store).2⟩

/-- An error that leaves a frame is shown unless it was shown before or is going to be caught. -/
theorem escape_cases (m : Machine) (e : LocatedError) :
    ((e.reported = true ∨ m.state.control.inTry = true) ∧
        escape e m = .error (.failed (.runtime e)) m) ∨
      (e.reported = false ∧ m.state.control.inTry = false) ∧
        escape e m = .error (.failed (.runtime { e with reported := m.state.control.watchesErrors })) (m.shown e) := by
  by_cases hidden : (e.reported || m.state.control.inTry) = true
  · refine .inl ⟨by simpa using hidden, ?_⟩
    change (if (e.reported || m.state.control.inTry) = true then _ else _ : MachineM Unit) m = _
    rw [if_pos hidden]
    rfl
  · refine .inr ⟨by simpa using hidden, ?_⟩
    change (if (e.reported || m.state.control.inTry) = true then _ else _ : MachineM Unit) m = _
    rw [if_neg hidden, bind_ok (refreshCall_eq m)]
    have seen : (m.refreshed.control.report (.runtime e) m.refreshed.store).1 = m.state.control.watchesErrors := by
      have watched := (Calm.refreshCall.here m).2.watched
      rw [refreshCall_eq] at watched
      change m.refreshed.control.watchesErrors = _ at watched
      unfold Control.report
      split
      · next watches => rw [← watched, watches]
      · next watches => rw [← watched, Bool.eq_false_iff.mpr watches]
    rw [← seen]
    rfl

/-- Without an open region an error escapes. -/
theorem recover_escape {e : LocatedError} (none : m.frame.handlers = []) : recover (.runtime e) m = escape e m := by
  unfold recover
  dsimp only
  rw [bind_ok (readFrame_eq m id)]
  dsimp only [id_eq]
  rw [none]

theorem shown_steady (m : Machine) (e : LocatedError) : Steady m (m.shown e) := by
  have steady := (Calm.refreshCall.here m).1
  rw [refreshCall_eq] at steady
  refine steady.trans (.of_state (s := m.refreshed) ?_)
  unfold Control.report
  split <;> exact ⟨rfl, rfl, rfl⟩

/-- Answering an error keeps the books. -/
theorem recover_steady (m : Machine) (e : ScriptError) : Steady m (finalState (recover e m)) := by
  cases e with
  | runtime error =>
    cases regions : m.frame.handlers with
    | nil =>
      rw [recover_escape regions]
      rcases m.escape_cases error with ⟨_, same⟩ | ⟨_, same⟩
      · rw [same]
        exact .refl m
      · rw [same]
        exact m.shown_steady error
    | cons h outer =>
      have unwound : Steady m (m.unwind h outer) := by
        refine ⟨rfl, rfl, rfl, .refl _, fun enough => ?_, rfl, fun bound => ?_⟩
        · rw [regions] at enough ⊢
          change m.state.control.openTries - 1 + (h :: outer).length = m.state.control.openTries + outer.length
          rw [List.length_cons] at enough ⊢
          omega
        · exact Nat.le_trans (Nat.sub_le ..) bound
      rw [recover_handler m regions]
      split
      · exact unwound
      · next room =>
        have pushed : Steady (m.unwind h outer) ((m.unwind h outer).pushed (.string error.message)) :=
          ⟨rfl, rfl, rfl, .refl _, fun _ => rfl, rfl, fun _ => Nat.lt_of_not_le room⟩
        exact (unwound.trans pushed).jumped h.target
  | _ => exact .refl m

theorem finalState_onState (m : Machine) {α : Type} (x : Exec ScriptError α) :
    finalState (onState x m) = ⟨m.frame, finalState (x.holding m.frame.hold m.state)⟩ := by
  rw [onState_eq]
  cases x.holding m.frame.hold m.state <;> rfl

section

variable (guides : Trail.books.Guides calls)
include guides

theorem delegate_steady {x : Calls → Exec ScriptError Value} (delegates : Delegates re False x) (m : Machine) :
    Steady m (finalState (delegate (x calls) m)) := by
  have leads := ((delegates.holding m.frame.hold).follows guides Trail.books_answered m.state).1
  have same : SameBooks m.state (finalState ((x calls).holding m.frame.hold m.state)) := by
    cases run : (x calls).holding m.frame.hold m.state with
    | ok v s =>
      rw [run] at leads
      exact leads
    | error halt s =>
      rw [run] at leads
      exact leads
  have steady : Steady m (finalState (onState (x calls) m)) := by
    rw [finalState_onState]
    exact .of_state same
  unfold delegate
  cases run : onState (x calls) m with
  | ok v m' =>
    rw [run] at steady
    rw [bind_ok run]
    exact steady.trans (((Calm.push v).bind fun _ => .pure Flow.next).here m').1
  | error halt m' =>
    rw [run] at steady
    rw [bind_error run]
    exact steady

variable (polite : host.IsPolite re)
include polite

theorem step_steady (i : Instruction) (m : Machine) : Steady m (finalState (step host calls i m)) := by
  cases step_course polite i m with
  | alone steady _ _ same => exact same calls ▸ steady
  | delegated ready delegates same =>
    rw [same calls]
    exact ready.steady.trans (delegate_steady guides delegates _)

/-- A turn keeps the books of its frame, and so does the end of the run. -/
theorem turn_steady (m : Machine) : Steady m (Sum.elim id finalState (turn host calls m)) := by
  unfold turn
  cases m.frame.procedure.code[m.frame.pc]? with
  | none => exact .refl m
  | some i =>
    have steady := step_steady guides polite i m
    dsimp only
    rcases run : step host calls i m with ⟨flow, m₁⟩ | ⟨halt, m₁⟩
    · rw [run] at steady
      cases flow with
      | next => exact steady.jumped _
      | jump target => exact steady.jumped target
      | leave v => exact steady
    · rw [run] at steady
      cases halt with
      | exhausted => exact steady
      | failed error =>
        have recovered := m₁.recover_steady error
        dsimp only
        rcases answered : recover error m₁ with ⟨_, m₂⟩ | ⟨halt, m₂⟩
        · rw [answered] at recovered
          exact steady.trans recovered
        · rw [answered] at recovered
          exact steady.trans recovered

theorem ReachesIn.steady {n : Nat} (reached : ReachesIn host calls n m m') : Steady m m' := by
  induction reached with
  | refl => exact .refl _
  | @turn n a b c here _ ih =>
    have steady := turn_steady guides polite a
    rw [here] at steady
    exact steady.trans ih

theorem execute_steady (n : Nat) (m : Machine) : Steady m (finalState (execute host calls n m)) := by
  rcases execute_cases host calls n m with ⟨m', reached, used⟩ | ⟨k, m', ending, _, reached, last, ended⟩
  · rw [used]
    exact reached.steady guides polite
  · rw [ended]
    have steady := turn_steady guides polite m'
    rw [last] at steady
    exact (reached.steady guides polite).trans steady

end

end Machine

theorem Control.openCall_eq_ok_iff {c c' : Control} {call : CallRecord} :
    c.openCall call = .ok c' ↔
      c.callStack.height < c.limits.callDepth ∧ c' = { c with callStack := c.callStack.push call } := by
  unfold Control.openCall
  split
  · next full =>
    constructor
    · rintro ⟨⟩
    · rintro ⟨room, _⟩
      omega
  · next room =>
    constructor
    · rintro ⟨⟩
      exact ⟨by omega, rfl⟩
    · rintro ⟨_, rfl⟩
      rfl

/-- What the run of a frame comes to. -/
theorem Frame.run_eq (f : Frame) (steps : Nat) (s : State) :
    f.run host calls steps s = match s.control.openCall f.record with
      | .error e => .error (.failed (f.locate e)) s
      | .ok c => match Machine.execute host calls steps ⟨f, { s with control := c }⟩ with
        | .ok v m => .ok v (Frame.run.leave m.frame m.state)
        | .error halt m => .error halt (Frame.run.leave m.frame m.state) := by
  unfold Frame.run
  cases opened : s.control.openCall f.record with
  | error e =>
    refine bind_error ?_
    rw [tryControl_eq, opened]
    rfl
  | ok c =>
    refine (bind_ok (by rw [tryControl_eq, opened]; rfl)).trans ?_
    dsimp only
    cases Machine.execute host calls steps ⟨f, { s with control := c }⟩ <;> rfl

/-- A frame that is gone has taken its books along. -/
theorem Machine.Steady.left {m : Machine} {f : Frame} (fresh : f.handlers = [])
    (steady : Steady ⟨f, { s with control := { s.control with callStack := s.control.callStack.push f.record } }⟩ m) :
    SameBooks s (Frame.run.leave m.frame m.state) where
  callStack := by
    obtain ⟨call, here, _, _⟩ := steady.calls f.record s.control.callStack.items rfl
    apply Stack.eq_of_items
    change m.state.control.callStack.items.drop 1 = s.control.callStack.items
    rw [here]
    rfl
  openTries := by
    have tries := steady.tries (by simp [fresh])
    rw [show (⟨f, _⟩ : Machine).frame.handlers.length = 0 from by simp [fresh]] at tries
    change m.state.control.openTries + 0 = s.control.openTries + m.frame.handlers.length at tries
    change m.state.control.openTries - m.frame.handlers.length = s.control.openTries
    omega
  limits := steady.limits

theorem Frame.IsEntered.handlers {f : Frame} (entered : f.IsEntered s) : f.handlers = [] := by
  obtain ⟨id, program, locals, rfl⟩ := entered
  rfl

theorem Trail.leads_books {α : Type} {r : EStateM.Result (Halt ScriptError) State α} :
    Trail.books.Leads s r ↔ SameBooks s (finalState r) := by
  cases r <;> exact Iff.rfl

section

variable (polite : host.IsPolite re)
include polite

/-- A run of a frame leaves the books as they were. -/
theorem Frame.run_same (guides : Trail.books.Guides calls) (steps : Nat) {f : Frame} (entered : f.IsEntered s) :
    SameBooks s (finalState (f.run host calls steps s)) := by
  rw [Frame.run_eq]
  cases opened : s.control.openCall f.record with
  | error e => exact .refl s
  | ok c =>
    obtain ⟨_, rfl⟩ := Control.openCall_eq_ok_iff.mp opened
    have steady := Machine.execute_steady guides polite steps
      ⟨f, { s with control := { s.control with callStack := s.control.callStack.push f.record } }⟩
    dsimp only
    rcases run : Machine.execute host calls steps
      ⟨f, { s with control := { s.control with callStack := s.control.callStack.push f.record } }⟩ with
      ⟨v, m⟩ | ⟨halt, m⟩
    all_goals
      rw [run] at steady
      exact steady.left entered.handlers

/-- However deep runs nest, they leave the books as they were. -/
theorem Calls.nested_books (steps depth : Nat) : Trail.books.Guides (Calls.nested host steps depth) := by
  induction depth with
  | zero => exact ⟨fun _ s _ => .refl s, fun _ _ s => .refl s, fun _ _ s => .refl s⟩
  | succ depth ih =>
    refine ⟨fun f s entered => ?_, fun callee args s => ?_, fun r args s => ?_⟩
    · exact Trail.leads_books.mpr (Frame.run_same polite ih steps entered)
    · exact ((Invoke.value_delegates polite .host callee none args).follows ih Trail.books_answered s).1
    · exact ((Invoke.native_consults polite r args).follows ih Trail.books_answered s).1

end

/-- An entry of the call stack for the call of a frame. -/
structure CallRecord.IsOf (call : CallRecord) (f : Frame) : Prop where
  function : call.function = f.procedure.name
  file : call.file = f.file

/-- The books of a run in which some frames are live, the latest first: one entry of the call stack for each
of them, no more than there may be; the regions that they have open; and no stack that is too high. -/
structure Control.Accounts (c : Control) (limits : Limits) (frames : List Frame) : Prop where
  calls : List.Forall₂ CallRecord.IsOf c.callStack.items frames
  tries : c.openTries = (frames.flatMap Frame.handlers).length
  bounds : c.limits = limits
  depth : c.callStack.height ≤ limits.callDepth
  heights : ∀ f ∈ frames, f.stack.height ≤ limits.stackDepth

namespace Control.Accounts

variable {limits : Limits} {f : Frame} {frames : List Frame} {m m' : Machine}

theorem same (accounts : s.control.Accounts limits frames) (same : SameBooks s s') :
    s'.control.Accounts limits frames where
  calls := same.callStack ▸ accounts.calls
  tries := same.openTries.trans accounts.tries
  bounds := same.limits.trans accounts.bounds
  depth := same.callStack ▸ accounts.depth
  heights := accounts.heights

/-- The regions of each live frame are among those that are counted. -/
theorem handlers_le {c : Control} (accounts : c.Accounts limits frames) (among : f ∈ frames) :
    f.handlers.length ≤ c.openTries := by
  obtain ⟨inner, outer, rfl⟩ := List.append_of_mem among
  rw [accounts.tries, List.flatMap_append, List.length_append, List.flatMap_cons, List.length_append]
  omega

/-- No region is counted if no live frame has one open. -/
theorem openTries_eq_zero {c : Control} (accounts : c.Accounts limits frames)
    (unguarded : ∀ f ∈ frames, f.handlers = []) : c.openTries = 0 := by
  rw [accounts.tries]
  clear accounts
  induction frames with
  | nil => rfl
  | cons f frames ih =>
    obtain ⟨none, others⟩ := List.forall_mem_cons.mp unguarded
    rw [List.flatMap_cons, List.length_append, ih others, none]
    rfl

/-- A frame that is entered makes an entry. -/
theorem entered (accounts : s.control.Accounts limits frames) (entered : f.IsEntered s) {c : Control}
    (opened : s.control.openCall f.record = .ok c) : c.Accounts limits (f :: frames) := by
  obtain ⟨room, rfl⟩ := Control.openCall_eq_ok_iff.mp opened
  obtain ⟨id, program, locals, rfl⟩ := entered
  refine ⟨.cons ⟨rfl, rfl⟩ accounts.calls, ?_, accounts.bounds, ?_, ?_⟩
  · rw [List.flatMap_cons, List.length_append]
    exact accounts.tries.trans (Nat.zero_add _).symm
  · rw [accounts.bounds] at room
    exact room
  · exact List.forall_mem_cons.mpr ⟨Nat.zero_le _, accounts.heights⟩

/-- A machine that keeps the books of its frame leaves those of the others alone. -/
theorem steady (accounts : m.state.control.Accounts limits (m.frame :: frames))
    (bound : m.frame.maxStack = limits.stackDepth) (steady : m.Steady m') :
    m'.state.control.Accounts limits (m'.frame :: frames) := by
  obtain ⟨call, rest, names, others, here⟩ := List.forall₂_cons_right_iff.mp accounts.calls
  obtain ⟨call', there, function, file⟩ := steady.calls call rest here
  have regions := steady.tries (accounts.handlers_le List.mem_cons_self)
  have tries := accounts.tries
  rw [List.flatMap_cons, List.length_append] at tries
  have heights := List.forall_mem_cons.mp accounts.heights
  refine ⟨?_, ?_, steady.limits.trans accounts.bounds, ?_, ?_⟩
  · rw [there]
    refine .cons ⟨?_, ?_⟩ others
    · rw [function, names.function, steady.procedure]
    · rw [file, names.file, steady.file]
  · rw [List.flatMap_cons, List.length_append]
    omega
  · have depth := accounts.depth
    rw [Stack.height_eq, here] at depth
    rw [Stack.height_eq, there]
    exact depth
  · refine List.forall_mem_cons.mpr ⟨?_, heights.2⟩
    rw [← bound, ← steady.maxStack]
    exact steady.height (bound ▸ heights.1)

/-- A machine that is ready for a nested run accounts for the same frames. -/
theorem readied (accounts : m.state.control.Accounts limits (m.frame :: frames))
    (bound : m.frame.maxStack = limits.stackDepth) (ready : m.Readied m') :
    m'.state.control.Accounts limits (m.frame :: frames) := by
  have accounted := accounts.steady bound ready.steady
  obtain ⟨call, rest, names, others, here⟩ := List.forall₂_cons_right_iff.mp accounted.calls
  refine ⟨?_, ?_, accounted.bounds, accounted.depth, accounts.heights⟩
  · rw [here]
    refine .cons ⟨?_, ?_⟩ others
    · rw [names.function, ready.steady.procedure]
    · rw [names.file, ready.steady.file]
  · rw [accounted.tries, List.flatMap_cons, List.flatMap_cons, ready.handlers]

end Control.Accounts

section

variable {e : Engine} {limits : Limits} {program : ProgramId} {op : Operation} {levels : Nat} {waiting : List Machine}
  {q : Request} {m : Machine} (polite : e.host.IsPolite re)
include polite

theorem Engine.below_books (levels : Nat) : Trail.books.Guides (e.below levels) :=
  Calls.nested_books polite e.steps levels

/-- What a machine of a run accounts for, and how high its stack may be. -/
theorem Engine.Comes.accounts {f : Frame} (comes : e.Comes levels f s m) (entered : f.IsEntered s)
    (before : s.control.Accounts limits (waiting.map Machine.frame)) :
    m.state.control.Accounts limits (m.frame :: waiting.map Machine.frame) ∧
      m.frame.maxStack = limits.stackDepth := by
  obtain ⟨c, k, opened, reached, _⟩ := comes
  have steady := reached.steady (Engine.below_books polite levels) polite
  have bound : f.maxStack = limits.stackDepth := by
    rw [← before.bounds]
    obtain ⟨id, program, locals, rfl⟩ := entered
    rfl
  have start : Control.Accounts c limits (f :: waiting.map Machine.frame) := before.entered entered opened
  exact ⟨Control.Accounts.steady (m := ⟨f, ⟨s.store, c⟩⟩) start bound steady, steady.maxStack.trans bound⟩

/-- Where something is requested, the frames of the machines that wait for it are those that are live. -/
theorem Engine.Makes.accounts (idle : s.control.Accounts limits [])
    (made : e.Makes (fun calls => op.perform calls program s) levels waiting q s') :
    s'.control.Accounts limits (waiting.map Machine.frame) ∧ q.IsEntered s' := by
  have guides (levels : Nat) := e.below_books polite levels
  induction made with
  | host starts =>
    obtain ⟨same, entered⟩ := (op.perform_delegates re program).starts_on (guides _) Trail.books_answered starts
    exact ⟨idle.same same, entered⟩
  | instruction _ comes _ starts ih =>
    obtain ⟨accounts, bound⟩ := comes.accounts polite ih.2 ih.1
    obtain ⟨m', x, ready, delegates, _, starts⟩ := Machine.step_starts polite starts
    obtain ⟨same, entered⟩ := (delegates.holding m'.frame.hold).starts_on (guides _) Trail.books_answered starts
    exact ⟨(accounts.readied bound ready).same same, entered⟩
  | invoke _ starts ih =>
    obtain ⟨same, entered⟩ := (Invoke.value_delegates polite ..).starts_on (guides _) Trail.books_answered starts
    exact ⟨ih.1.same same, entered⟩
  | native _ starts ih =>
    obtain ⟨same, entered⟩ := (Invoke.native_consults polite ..).starts_on (guides _) Trail.books_answered starts
    exact ⟨ih.1.same same, entered⟩

theorem Engine.Visits.accounts (idle : s.control.Accounts limits [])
    (visits : e.Visits (fun calls => op.perform calls program s) levels waiting m) :
    m.state.control.Accounts limits (m.frame :: waiting.map Machine.frame) ∧
      m.frame.maxStack = limits.stackDepth := by
  obtain ⟨f, t, made, comes⟩ := visits
  obtain ⟨before, entered⟩ := made.accounts polite idle
  exact comes.accounts polite entered before

/-- A machine whose instruction failed accounts for the same frames. -/
theorem Engine.Visits.failed_accounts (idle : s.control.Accounts limits []) {i : Instruction}
    {halt : Halt ScriptError} {m' : Machine}
    (visits : e.Visits (fun calls => op.perform calls program s) levels waiting m)
    (failed : Machine.step e.host (e.below levels) i m = .error halt m') :
    m'.state.control.Accounts limits (m'.frame :: waiting.map Machine.frame) := by
  obtain ⟨accounts, bound⟩ := visits.accounts polite idle
  have steady := Machine.step_steady (e.below_books polite levels) polite i m
  rw [failed] at steady
  exact accounts.steady bound steady

end

/-- The books of a state in which no frame is live. -/
theorem State.accounts_idle {s : State} (idle : s.control.callStack = .empty) (closed : s.control.openTries = 0) :
    s.control.Accounts s.control.limits [] := by
  refine ⟨?_, closed, rfl, ?_, by simp⟩
  · rw [idle]
    exact .nil
  · rw [idle]
    exact Nat.zero_le _

/-- The books balance over a whole run, in the states in which something is requested, before each turn of a
machine and at the end of its run, where the regions that are closed are never more than those counted. However
the operation ends, it leaves no call and no region open. -/
theorem Engine.books_balance {e : Engine} (polite : e.host.IsPolite True) (op : Operation) (program : ProgramId)
    {s : State} (idle : s.control.callStack = .empty) (closed : s.control.openTries = 0) :
    (∀ levels waiting q t, e.Makes (fun calls => op.perform calls program s) levels waiting q t →
      t.control.Accounts s.control.limits (waiting.map Machine.frame)) ∧
    (∀ levels waiting m, e.Visits (fun calls => op.perform calls program s) levels waiting m →
      m.state.control.Accounts s.control.limits (m.frame :: waiting.map Machine.frame) ∧
      m.frame.handlers.length ≤ m.state.control.openTries ∧
        ∀ ending m', Machine.turn e.host (e.below levels) m = .inr ending → finalState ending = m' →
          m'.state.control.Accounts s.control.limits (m'.frame :: waiting.map Machine.frame) ∧
            m'.frame.handlers.length ≤ m'.state.control.openTries) ∧
    (finalState (op.perform e.calls program s)).control.callStack = .empty ∧
      (finalState (op.perform e.calls program s)).control.openTries = 0 := by
  have start := State.accounts_idle idle closed
  refine ⟨fun levels waiting q t made => (made.accounts polite start).1, fun levels waiting m visits => ?_, ?_⟩
  · obtain ⟨accounts, bound⟩ := visits.accounts polite start
    refine ⟨accounts, accounts.handlers_le List.mem_cons_self, ?_⟩
    rintro ending m' last rfl
    have steady := Machine.turn_steady (e.below_books polite levels) polite m
    rw [last] at steady
    have ended := accounts.steady bound steady
    exact ⟨ended, ended.handlers_le List.mem_cons_self⟩
  · have leads := (op.perform_delegates True program).follows
      (Calls.nested_books polite e.steps e.depth) Trail.books_answered s
    have same := Trail.leads_books.mp leads.1
    exact ⟨same.callStack.trans idle, same.openTries.trans closed⟩

theorem Host.relay_isPolite : Host.relay.IsPolite True where
  getMember := fun _ _ _ => .fail _
  setMember := fun _ _ _ _ => .fail _
  callMethod := fun _ _ _ _ => .fail _
  call := fun _ _ _ => .fail _
  native := by
    intro name captured args
    cases args with
    | nil => exact .fail _
    | cons first rest => exact .handOn trivial first.value rest _

theorem Engine.guardedCall_balances :
    ∃ s, (Engine.load guardedCall "demo" true : Exec ScriptError ProgramId) .start = .ok 0 s ∧
      Host.relay.IsPolite True ∧ s.control.callStack = .empty ∧ s.control.openTries = 0 ∧
    (∀ levels waiting m, (Engine.mk .relay 8 100).Visits (fun calls =>
        (Operation.callMember "f" [⟨none, .string "x"⟩]).perform calls 0 s) levels waiting m →
      m.state.control.Accounts s.control.limits (m.frame :: waiting.map Machine.frame)) ∧
    (finalState ((Operation.callMember "f" [⟨none, .string "x"⟩]).perform
        (Engine.mk .relay 8 100).calls 0 s)).control.callStack = .empty ∧
      (finalState ((Operation.callMember "f" [⟨none, .string "x"⟩]).perform
        (Engine.mk .relay 8 100).calls 0 s)).control.openTries = 0 := by
  obtain ⟨s, loaded, idle, closed⟩ : ∃ s,
      (Engine.load guardedCall "demo" true : Exec ScriptError ProgramId) .start = .ok 0 s ∧
        s.control.callStack = .empty ∧ s.control.openTries = 0 := ⟨_, rfl, rfl, rfl⟩
  obtain ⟨-, visited, empty, none⟩ := Engine.books_balance (e := ⟨.relay, 8, 100⟩) Host.relay_isPolite
    (.callMember "f" [⟨none, .string "x"⟩]) 0 idle closed
  exact ⟨s, loaded, Host.relay_isPolite, idle, closed, fun levels waiting m visits =>
    (visited levels waiting m visits).1, empty, none⟩

end ScriptEngine
