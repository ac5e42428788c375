import ScriptEngine.Proofs.Delegation
import ScriptEngine.Proofs.Effects
import ScriptEngine.Proofs.Requests

/-! # Instructions and the books

An instruction keeps the books of its own frame. Either it needs no nested run, or it makes ready for one
computation that may delegate, and pushes what that yields.
-/

namespace ScriptEngine

/-- A member with a name that the compiler made up is one that a program had. -/
theorem Store.define_stays {s : Store} {p : ProgramId} {name : String}
    (known : isHidden name = true → (s.program p).members.contains name = true) (v : Value) (id : ProgramId) :
    (s.program id).Stays ((s.define p name v).program id) := by
  refine ⟨s.modifyProgram_relates .refl (fun _ => ⟨rfl, rfl, rfl, rfl, fun started => started⟩) id,
    fun plain other hidden => ?_⟩
  unfold Store.define
  rcases s.program_modifyProgram p (fun q => { q with members := q.members.set name v }) id with same | ⟨rfl, same⟩
  · rw [same]
    exact plain other hidden
  · have different : other ≠ name := by
      rintro rfl
      exact absurd (known hidden) (Bool.eq_false_iff.mp (plain other hidden))
    rw [same]
    change (Table.set _ name v).contains other = false
    rw [Table.contains_set, decide_eq_false different, Bool.false_or]
    exact plain other hidden

/-- Assigning a name leaves every program what it is. -/
theorem Frame.assign_stays (f : Frame) (s : Store) (name : String) (v : Value) (id : ProgramId) :
    (s.program id).Stays ((f.assign s name v).2.program id) := by
  unfold Frame.assign
  split
  · split
    · exact .refl _
    · next plain =>
      split
      · exact s.setStatic_stays ..
      · exact s.define_stays (fun hidden => absurd hidden plain) v id
  · split
    · exact .refl _
    · split
      · exact s.setStatic_stays ..
      · split
        · next known => exact s.define_stays (fun _ => known) v id
        · exact .refl _

/-- A stop shows the debugger the books, and does not change them. -/
theorem Still.stop (s : State) : Still s ⟨s.store, (s.control.stop s.store).2⟩ := by
  unfold Control.stop
  cases s.control.debugger with
  | none => exact .refl s
  | some d =>
    dsimp only
    have unseen : (s.control.events.push (.stopped s.control.stack s.store)).toList.filter Event.isReport =
        s.control.reports := by simp [Control.reports, Event.isReport]
    split
    all_goals exact ⟨⟨rfl, rfl, rfl⟩, rfl, unseen, id⟩

/-- A stop can end the run, but not take that back. -/
theorem Onward.stop (s : State) : Onward s ⟨s.store, (s.control.stop s.store).2⟩ := by
  refine .ofControl (fun ended => ?_) fun observed => ?_
  · unfold Control.stop
    cases s.control.debugger with
    | none => exact ended
    | some d =>
      dsimp only
      split
      · exact ended
      · exact ended
      · rfl
  · unfold Control.stop
    cases asked : s.control.debugger with
    | none => exact observed
    | some d =>
      dsimp only
      split
      all_goals simp [Control.isObserved]

/-- Nothing but the innermost entry of the call stack has changed, and that is still for the same call. -/
def SameCalls (c c' : Control) : Prop :=
  ∀ call rest, c.callStack.items = call :: rest →
    ∃ call', c'.callStack.items = call' :: rest ∧ call'.function = call.function ∧ call'.file = call.file

/-- A machine whose frame has kept its books since it was another one. -/
structure Machine.Steady (m m' : Machine) : Prop where
  procedure : m'.frame.procedure = m.frame.procedure
  file : m'.frame.file = m.frame.file
  maxStack : m'.frame.maxStack = m.frame.maxStack
  calls : SameCalls m.state.control m'.state.control
  tries : m.frame.handlers.length ≤ m.state.control.openTries →
    m'.state.control.openTries + m.frame.handlers.length =
      m.state.control.openTries + m'.frame.handlers.length
  limits : m'.state.control.limits = m.state.control.limits
  height : m.frame.stack.height ≤ m.frame.maxStack → m'.frame.stack.height ≤ m'.frame.maxStack

theorem SameCalls.refl (c : Control) : SameCalls c c := fun call _ here => ⟨call, here, rfl, rfl⟩

theorem SameCalls.of_eq {c c' : Control} (same : c'.callStack = c.callStack) : SameCalls c c' :=
  fun call _ here => ⟨call, same ▸ here, rfl, rfl⟩

theorem SameCalls.trans {c c' c'' : Control} (first : SameCalls c c') (second : SameCalls c' c'') :
    SameCalls c c'' := by
  intro call rest here
  obtain ⟨call', there, function, file⟩ := first call rest here
  obtain ⟨call'', later, function', file'⟩ := second call' rest there
  exact ⟨call'', later, function'.trans function, file'.trans file⟩

/-- Bringing the innermost entry up to date does not change whose it is. -/
theorem SameCalls.refreshCall (c : Control) (line : Nat) (locals : List (String × Value)) :
    SameCalls c (c.refreshCall line locals) := by
  intro call rest here
  refine ⟨{ call with line, locals }, ?_, rfl, rfl⟩
  obtain ⟨⟨items, height, same⟩, _⟩ := c
  dsimp only at here
  subst here
  rfl

namespace Machine

variable {m m' m'' : Machine}

theorem Steady.refl (m : Machine) : Steady m m := ⟨rfl, rfl, rfl, .refl _, fun _ => rfl, rfl, id⟩

theorem Steady.trans (first : Steady m m') (second : Steady m' m'') : Steady m m'' where
  procedure := second.procedure.trans first.procedure
  file := second.file.trans first.file
  maxStack := second.maxStack.trans first.maxStack
  calls := first.calls.trans second.calls
  tries := by
    intro enough
    have here := first.tries enough
    have there := second.tries (by omega)
    omega
  limits := second.limits.trans first.limits
  height := fun bound => second.height (first.height bound)

/-- Going on elsewhere is none of the bookkeeping. -/
theorem Steady.jumped (steady : Steady m m') (pc : Nat) : Steady m (m'.jumped pc) :=
  ⟨steady.procedure, steady.file, steady.maxStack, steady.calls, steady.tries, steady.limits, steady.height⟩

/-- What happens beside the books of a frame. -/
theorem Steady.of_state {f : Frame} {s s' : State} (same : SameBooks s s') : Steady ⟨f, s⟩ ⟨f, s'⟩ :=
  ⟨rfl, rfl, rfl, .of_eq same.callStack, fun _ => by rw [same.openTries], same.limits, id⟩

theorem refreshed_events (m : Machine) : m.refreshed.control.events = m.state.control.events := by
  unfold refreshed
  split <;> rfl

/-- A computation of a machine that keeps the books and shows the host nothing, nor claims to. -/
structure Calm {α : Type} (x : MachineM α) : Prop where
  here : ∀ m, Steady m (finalState (x m)) ∧ Quiet m.state (finalState (x m)).state
  onward : ∀ m, Onward m.state (finalState (x m)).state
  events : ∀ m, (finalState (x m)).state.control.events = m.state.control.events
  unreported : ∀ m halt m', x m = .error halt m' → halt.IsUnreported

namespace Calm

variable {α β : Type}

theorem bind {x : MachineM α} {f : α → MachineM β} (first : Calm x) (rest : ∀ a, Calm (f a)) :
    Calm (x >>= f) where
  here m := by
    have before := first.here m
    cases run : x m with
    | ok a m' =>
      rw [run] at before
      rw [bind_ok run]
      obtain ⟨steady, quiet⟩ := (rest a).here m'
      exact ⟨before.1.trans steady, before.2.trans quiet⟩
    | error halt m' =>
      rw [run] at before
      rw [bind_error run]
      exact before
  onward m := by
    have before := first.onward m
    cases run : x m with
    | ok a m' =>
      rw [run] at before
      rw [bind_ok run]
      exact before.trans ((rest a).onward m')
    | error halt m' =>
      rw [run] at before
      rw [bind_error run]
      exact before
  events m := by
    have before := first.events m
    cases run : x m with
    | ok a m' =>
      rw [run] at before
      rw [bind_ok run]
      exact ((rest a).events m').trans before
    | error halt m' =>
      rw [run] at before
      rw [bind_error run]
      exact before
  unreported m halt m' failed := by
    rcases bind_eq_error_iff.mp failed with failed | ⟨a, m₁, _, failed⟩
    · exact first.unreported m halt m' failed
    · exact (rest a).unreported m₁ halt m' failed

/-- A computation that changes nothing. -/
theorem still {x : MachineM α} (same : ∀ m, finalState (x m) = m)
    (unreported : ∀ m halt m', x m = .error halt m' → halt.IsUnreported) : Calm x :=
  ⟨fun m => by rw [same m]; exact ⟨.refl m, .refl _⟩, fun m => by rw [same m]; exact .refl _,
    fun m => by rw [same m], unreported⟩

theorem pure (a : α) : Calm (Pure.pure a : MachineM α) := still (fun _ => rfl) (by rintro m halt m' ⟨⟩)

theorem get : Calm (MonadState.get : MachineM Machine) := still (fun _ => rfl) (by rintro m halt m' ⟨⟩)

theorem readFrame (f : Frame → α) : Calm (readFrame f) := still (fun _ => rfl) (by rintro m halt m' ⟨⟩)

theorem fail {e : ScriptError} (unreported : e.IsUnreported) : Calm (Machine.fail e : MachineM α) := by
  refine still (fun _ => rfl) ?_
  rintro m halt m' ⟨⟩ _ ⟨⟩
  exact unreported

theorem failHere (e : RuntimeError) : Calm (failHere e : MachineM α) :=
  (readFrame id).bind fun f => fail (f.site.locate_isUnreported e)

theorem failBroken (what : String) : Calm (failBroken what : MachineM α) := by
  refine still (fun _ => rfl) ?_
  rintro m halt m' ⟨⟩ _ ⟨⟩ _ ⟨⟩

/-- A change of what is not in the books of a frame, with a stack that is no higher than the bound. -/
theorem modifyFrame {f : Frame → Frame} (procedure : ∀ g, (f g).procedure = g.procedure)
    (file : ∀ g, (f g).file = g.file) (maxStack : ∀ g, (f g).maxStack = g.maxStack)
    (handlers : ∀ g, (f g).handlers = g.handlers)
    (height : ∀ g, g.stack.height ≤ g.maxStack → (f g).stack.height ≤ g.maxStack) :
    Calm (modifyFrame f) := by
  refine ⟨fun m => ⟨⟨procedure _, file _, maxStack _, .refl _, fun _ => ?_, rfl, fun bound => ?_⟩, .refl _⟩,
    fun _ => .refl _, fun _ => rfl, by rintro m halt m' ⟨⟩⟩
  · change m.state.control.openTries + _ = m.state.control.openTries + (f m.frame).handlers.length
    rw [handlers]
  · exact Nat.le_trans (height m.frame bound) (Nat.le_of_eq (maxStack m.frame).symm)

theorem moveTo (place : Position) : Calm (moveTo place) :=
  modifyFrame (fun _ => rfl) (fun _ => rfl) (fun _ => rfl) (fun _ => rfl) fun _ => id

theorem push (v : Value) : Calm (push v) where
  here m := by
    rw [push_eq]
    split
    · exact ⟨.refl m, .refl _⟩
    · next room =>
      refine ⟨⟨rfl, rfl, rfl, .refl _, fun _ => rfl, rfl, fun _ => ?_⟩, .refl _⟩
      change m.frame.stack.height + 1 ≤ m.frame.maxStack
      omega
  onward m := by
    rw [push_eq]
    split <;> exact .refl _
  events m := by
    rw [push_eq]
    split <;> rfl
  unreported m halt m' failed := by
    obtain ⟨rfl, rfl⟩ := push_error failed
    rintro _ ⟨⟩
    exact Site.locate_isUnreported _ _

/-- Taking operands off the stack. -/
theorem drop (count : Nat) : Calm (Machine.modifyFrame fun f => { f with stack := f.stack.drop count }) :=
  modifyFrame (fun _ => rfl) (fun _ => rfl) (fun _ => rfl) (fun _ => rfl) fun _ bound =>
    Nat.le_trans (Nat.sub_le ..) bound

theorem pop : Calm pop where
  here m := by
    rcases m.pop_cases with ⟨v, _, took⟩ | ⟨_, failed⟩
    · rw [took]
      exact (drop 1).here m
    · rw [failed]
      exact ⟨.refl m, .refl _⟩
  onward m := by
    rcases m.pop_cases with ⟨v, _, took⟩ | ⟨_, failed⟩
    · rw [took]
      exact .refl _
    · rw [failed]
      exact .refl _
  events m := by
    rcases m.pop_cases with ⟨v, _, took⟩ | ⟨_, failed⟩
    · rw [took]
      rfl
    · rw [failed]
      rfl
  unreported m halt m' failed := by
    rcases m.pop_cases with ⟨v, _, took⟩ | ⟨_, short⟩
    · rw [took] at failed
      cases failed
    · rw [short] at failed
      cases failed
      rintro _ ⟨⟩ _ ⟨⟩

theorem popArguments (call : CallSite) : Calm (popArguments call) := by
  refine (readFrame _).bind fun f => ?_
  split
  · exact failBroken _
  · exact (drop _).bind fun _ => pure _

theorem refreshCall : Calm refreshCall := by
  refine ⟨fun m => ?_, fun m => ?_, fun m => ?_, by rintro m halt m' ⟨⟩⟩
  all_goals rw [refreshCall_eq]
  · change Steady m ⟨m.frame, m.refreshed⟩ ∧ Quiet m.state m.refreshed
    unfold refreshed
    split
    · exact ⟨⟨rfl, rfl, rfl, SameCalls.refreshCall _ _ _, fun _ => rfl, rfl, id⟩, rfl, rfl, id⟩
    · exact ⟨.refl m, .refl _⟩
  · change Onward m.state m.refreshed
    unfold refreshed
    split
    · exact .ofControl id id
    · exact .refl _
  · exact m.refreshed_events

theorem assign (name : String) (v : Value) : Calm (assign name v) := by
  have onward (m : Machine) : Onward m.state ⟨(m.frame.assign m.state.store name v).2, m.state.control⟩ :=
    ⟨m.frame.assign_stays m.state.store name v, id, id⟩
  refine ⟨fun m => ?_, onward, fun m => rfl, by rintro m halt m' ⟨⟩⟩
  rw [assign_eq]
  obtain ⟨locals, same⟩ := m.frame.assign_eq m.state.store name v
  dsimp only [finalState]
  rw [same]
  refine ⟨⟨rfl, rfl, rfl, .refl _, fun _ => rfl, rfl, id⟩, rfl, rfl, fun laid id => ?_⟩
  change ((m.frame.assign m.state.store name v).2.procedure id).IsLaidOut
  rw [(onward m).procedure]
  exact laid id

theorem assignArguments (args : Arguments) : Calm (assignArguments args) := by
  unfold Machine.assignArguments
  split
  · split
    · exact assign ..
    · exact failBroken _
  · exact failBroken _

theorem memberName (args : Arguments) : Calm (memberName args) := by
  unfold Machine.memberName
  split
  · exact pure _
  · exact get.bind fun m => failHere _
  · exact failBroken _

theorem branch (kind : BranchKind) (offset : Offset) : Calm (branch kind offset) := by
  have decides : Calm (decides kind) := by
    unfold Machine.decides
    split
    · exact pure true
    · refine pop.bind fun condition => ?_
      split
      · exact pure _
      · exact get.bind fun m => failHere _
  refine decides.bind fun taken => ?_
  split
  · refine (readFrame id).bind fun f => ?_
    split
    · exact pure _
    · exact pure _
    · exact failBroken _
  · exact pure _

theorem enterTry (offset : Offset) : Calm (enterTry offset) where
  here m := by
    rcases m.enterTry_cases offset with ⟨target, _, opened⟩ | ⟨_, failed⟩
    · rw [opened]
      refine ⟨⟨rfl, rfl, rfl, .refl _, fun _ => ?_, rfl, id⟩, rfl, rfl, id⟩
      change m.state.control.openTries + 1 + _ = m.state.control.openTries + (_ :: m.frame.handlers).length
      rw [List.length_cons]
      omega
    · rw [failed]
      exact ⟨.refl m, .refl _⟩
  onward m := by
    rcases m.enterTry_cases offset with ⟨target, _, opened⟩ | ⟨_, failed⟩
    · rw [opened]
      exact .ofControl id id
    · rw [failed]
      exact .refl _
  events m := by
    rcases m.enterTry_cases offset with ⟨target, _, opened⟩ | ⟨_, failed⟩
    · rw [opened]
      rfl
    · rw [failed]
      rfl
  unreported m halt m' failed := by
    rcases m.enterTry_cases offset with ⟨target, _, opened⟩ | ⟨_, stuck⟩
    · rw [opened] at failed
      cases failed
    · rw [stuck] at failed
      cases failed
      rintro _ ⟨⟩ _ ⟨⟩

theorem leaveTry : Calm leaveTry where
  here m := by
    rw [leaveTry_eq]
    split
    · exact ⟨.refl m, .refl _⟩
    · next rest regions =>
      refine ⟨⟨rfl, rfl, rfl, .refl _, fun enough => ?_, rfl, id⟩, rfl, rfl, id⟩
      rw [regions] at enough ⊢
      change m.state.control.openTries - 1 + (_ :: rest).length = m.state.control.openTries + rest.length
      rw [List.length_cons] at enough ⊢
      omega
  onward m := by
    rw [leaveTry_eq]
    split
    · exact .refl _
    · exact .ofControl id id
  events m := by
    rw [leaveTry_eq]
    split <;> rfl
  unreported m halt m' failed := by
    rw [leaveTry_eq] at failed
    split at failed
    · cases failed
      rintro _ ⟨⟩ _ ⟨⟩
    · cases failed

theorem takeMessage (binding : Option String) : Calm (takeMessage binding) := by
  refine pop.bind fun message => ?_
  cases binding with
  | some name => exact assign ..
  | none => exact pure ()

end Calm

theorem finalState_interrupt (m : Machine) : finalState (interrupt m) =
    ⟨m.frame, m.refreshed.store, (m.refreshed.control.stop m.refreshed.store).2⟩ := by
  rw [interrupt_eq]
  split <;> rfl

/-- A machine that the debugger looks at keeps the books, and so does one that only passes a marker. -/
theorem passMarker_keeps (index : Nat) (lines : Lines) (m : Machine) :
    Steady m (finalState (passMarker index lines m)) ∧ Quiet m.state (finalState (passMarker index lines m)).state ∧
      Onward m.state (finalState (passMarker index lines m)).state := by
  obtain ⟨moved, _⟩ := (Calm.moveTo (.ofLine lines.first)).here m
  rw [passMarker_eq]
  split
  · exact ⟨.refl m, .refl _, .refl _⟩
  · split
    · obtain ⟨steady, quiet⟩ := Calm.refreshCall.here (m.placed (.ofLine lines.first))
      have onward := Calm.refreshCall.onward (m.placed (.ofLine lines.first))
      rw [refreshCall_eq] at steady quiet onward
      have stopped := Still.stop (m.placed (.ofLine lines.first)).refreshed
      rw [finalState_interrupt]
      exact ⟨moved.trans (steady.trans (.of_state stopped.toSameBooks)), quiet.trans stopped.toQuiet,
        onward.trans (.stop _)⟩
    · exact ⟨moved, .refl _, .refl _⟩

/-- What an instruction does with a nested run that is made ready. -/
def delegate (x : Exec ScriptError Value) : MachineM Flow := do
  let v ← onState x
  push v
  pure .next

/-- A machine that is ready for the nested run of its instruction. -/
structure Readied (m m' : Machine) : Prop where
  steady : Steady m m'
  quiet : Quiet m.state m'.state
  onward : Onward m.state m'.state
  same : SameCall m.frame m'.frame
  handlers : m'.frame.handlers = m.frame.handlers
  locals : m'.frame.locals = m.frame.locals
  events : m'.state.control.events = m.state.control.events

/-- How an instruction goes: alone, or with a nested run for which it makes the machine ready. -/
inductive Course (re : Prop) (host : Host) (i : Instruction) (m : Machine) : Prop
  | alone {r : EStateM.Result (Halt ScriptError) Machine Flow} :
    Steady m (finalState r) → Quiet m.state (finalState r).state →
      (∀ halt m', r = .error halt m' → halt.IsUnreported) → (∀ calls, step host calls i m = r) →
      Course re host i m
  | delegated {m' : Machine} {x : Calls → Exec ScriptError Value} :
    Readied m m' → Delegates re False x → (∀ calls, step host calls i m = delegate (x calls) m') →
      Course re host i m

/-- What an instruction makes the machine ready for: to read or write something, or to call something, and then its
entry of the call stack is up to date. -/
inductive Prepared (C : Conduct) (i : Instruction) (m : Machine) : Machine → (Calls → Exec ScriptError Value) → Prop
  | access {m' : Machine} {x : Calls → Exec RuntimeError Value} (site : Site) :
    Readied m m' → Composed Mild C x → Prepared C i m m' fun calls => (x calls).mapError site.locate
  | call {m₁ : Machine} {x : Calls → Exec ScriptError Value} :
    Readied m m₁ → m₁.state = m.state → m₁.frame.place = i.placeFrom m.frame.place → Relays Mild C False x →
      Prepared C i m m₁.current x

/-- How an instruction goes if the functions of the host conduct themselves in some way. -/
inductive Split (C : Conduct) (host : Host) (i : Instruction) (m : Machine) : Prop
  | alone {r : EStateM.Result (Halt ScriptError) Machine Flow} :
    Steady m (finalState r) → Quiet m.state (finalState r).state → Onward m.state (finalState r).state →
      ((∃ index lines, i = .stop index lines) ∨ (finalState r).state.control.events = m.state.control.events) →
      (∀ halt m', r = .error halt m' → halt.IsUnreported) → (∀ calls, step host calls i m = r) →
      Split C host i m
  | delegated {m' : Machine} {x : Calls → Exec ScriptError Value} :
    Prepared C i m m' x → (∀ calls, step host calls i m = delegate (x calls) m') → Split C host i m

theorem Split.of_calm {C : Conduct} {host : Host} {i : Instruction} {x : MachineM Flow} (calm : Calm x)
    (same : ∀ calls, step host calls i m = x m) : Split C host i m :=
  .alone (calm.here m).1 (calm.here m).2 (calm.onward m) (.inr (calm.events m)) (calm.unreported m) same

section

variable {C : Conduct} {host : Host} (within : host.Within C)

theorem Readied.placed (m : Machine) (place : Position) : Readied m (m.placed place) :=
  ⟨((Calm.moveTo place).here m).1, .refl _, .refl _, ⟨rfl, rfl, rfl, rfl, rfl, rfl⟩, rfl, rfl, rfl⟩

theorem Readied.dropped (ready : Readied m m') (count : Nat) : Readied m (m'.dropped count) where
  steady := ready.steady.trans ((Calm.drop count).here m').1
  quiet := ready.quiet
  onward := ready.onward
  same := ready.same.trans ⟨rfl, rfl, rfl, rfl, rfl, rfl⟩
  handlers := ready.handlers
  locals := ready.locals
  events := ready.events

theorem Readied.current (ready : Readied m m') : Readied m m'.current := by
  obtain ⟨steady, quiet⟩ := Calm.refreshCall.here m'
  have onward := Calm.refreshCall.onward m'
  rw [refreshCall_eq] at steady quiet onward
  exact ⟨ready.steady.trans steady, ready.quiet.trans quiet, ready.onward.trans onward, ready.same.trans (.refl _),
    ready.handlers, ready.locals, m'.refreshed_events.trans ready.events⟩

theorem Prepared.readied {i : Instruction} {x : Calls → Exec ScriptError Value} (prepared : Prepared C i m m' x) :
    Readied m m' := by
  cases prepared with
  | access _ ready _ => exact ready
  | call ready _ _ _ => exact ready.current

theorem Prepared.relays {i : Instruction} {x : Calls → Exec ScriptError Value} (prepared : Prepared C i m m' x) :
    Relays Mild C False x := by
  cases prepared with
  | access site _ composed => exact .located site composed
  | call _ _ _ relays => exact relays

theorem bind_congr_run {α β : Type} {x y : MachineM α} {f : α → MachineM β} {m m' : Machine} (same : x m = y m') :
    (x >>= f) m = (y >>= f) m' := by
  simp only [Bind.bind, EStateM.bind, same]

theorem located_then (x : Exec RuntimeError Unit) (v : Value) :
    located (do
      x
      pure v) = (do
      located x
      pure v) := by
  funext m
  simp only [Bind.bind, EStateM.bind, located_eq, onState, Exec.holding, Exec.mapError]
  cases x ⟨m.state.store, m.state.control.hold m.frame.hold⟩ <;> rfl

theorem delegate_eq (x : Exec ScriptError Value) :
    (do
      onState x >>= push
      pure Flow.next) = delegate x := bind_assoc ..

include within

theorem call_split (site : CallSite) : Split C host (.call site) m := by
  have ready := (Readied.placed m site.place).dropped site.argc
  by_cases short : m.frame.stack.height < site.argc
  · refine .alone (r := .error (.failed ((m.placed site.place).frame.broken "operand stack underflow"))
      (m.placed site.place)) (Readied.placed m _).steady (.refl _) (.refl _) (.inr rfl) ?_ fun calls => bind_error ?_
    · rintro halt m' ⟨⟩ _ ⟨⟩ _ ⟨⟩
    rw [callNamed_eq, if_pos short]
  · by_cases named : site.name = "set"
    · have calm : Calm (do
          assignArguments (m.operands site)
          pure Flow.next) := (Calm.assignArguments _).bind fun _ => .pure _
      obtain ⟨steady, quiet⟩ := calm.here ((m.placed site.place).dropped site.argc)
      refine .alone (ready.steady.trans steady) (ready.quiet.trans quiet) (ready.onward.trans (calm.onward _))
        (.inr (calm.events _)) (calm.unreported _) fun calls => bind_congr_run ?_
      rw [callNamed_eq, if_neg short, if_pos named]
    · refine .delegated (.call ready rfl rfl (Name.call_relays within ((m.placed site.place).dropped site.argc).frame
        site.name (m.operands site))) fun calls => ?_
      rw [← delegate_eq]
      refine bind_congr_run ?_
      rw [callNamed_eq, if_neg short, if_neg named]

omit within in
/-- A member access that has its name, or fails for want of one. -/
theorem member_split {i : Instruction} (args : Arguments) {site : Site}
    {x : Calls → String → Exec RuntimeError Value} (ready : Readied m m')
    (composed : ∀ name, Composed Mild C fun calls => x calls name) (here : m'.frame.site = site)
    (same : ∀ calls, step host calls i m = (do
      let name ← memberName args
      let v ← located (x calls name)
      push v
      pure Flow.next) m') : Split C host i m := by
  obtain ⟨steady, quiet⟩ := (Calm.memberName args).here m'
  have onward := (Calm.memberName args).onward m'
  have events := (Calm.memberName args).events m'
  cases run : memberName args m' with
  | error halt m₁ =>
    rw [run] at steady quiet onward events
    refine .alone (r := .error halt m₁) (ready.steady.trans steady) (ready.quiet.trans quiet)
      (ready.onward.trans onward) (.inr (events.trans ready.events)) ?_ fun calls => ?_
    · rintro _ _ ⟨⟩
      exact (Calm.memberName args).unreported m' halt m₁ run
    rw [same, bind_error run]
  | ok name m₁ =>
    obtain rfl := memberName_ok run
    refine .delegated (.access site ready (composed name)) fun calls => ?_
    rw [same, bind_ok run, ← here]
    rfl

omit within in
/-- A send without enough operands gets no further than to look for them. -/
theorem sendNamed_short {site : CallSite} (short : m.frame.stack.height < site.argc + 1) (calls : Calls) :
    sendNamed host calls site m = (do
      moveTo site.place
      let _ ← popArguments site
      let _ ← pop) m := by
  unfold sendNamed
  rw [bind_ok (moveTo_eq m site.place), bind_ok (moveTo_eq m site.place)]
  have popped := popArguments_eq ⟨{ m.frame with place := site.place }, m.state⟩ site
  split at popped
  · rw [bind_error popped, bind_error popped]
  · next enough =>
    rw [bind_ok popped, bind_ok popped]
    rcases pop_cases ⟨{ m.frame with place := site.place, stack := m.frame.stack.drop site.argc }, m.state⟩ with
      ⟨v, top, _⟩ | ⟨_, failed⟩
    · have := Stack.height_pos top
      change 1 ≤ m.frame.stack.height - site.argc at this
      omega
    · rw [bind_error failed, bind_error failed]

theorem send_split (site : CallSite) : Split C host (.send site) m := by
  have ready := ((Readied.placed m site.place).dropped site.argc).dropped 1
  cases found : m.frame.stack.items[site.argc]? with
  | none =>
    have short : m.frame.stack.height < site.argc + 1 := by
      rw [m.frame.stack.height_eq]
      exact Nat.lt_succ_of_le (List.getElem?_eq_none_iff.mp found)
    have calm : Calm (do
        moveTo site.place
        let _ ← popArguments site
        let _ ← pop) :=
      (Calm.moveTo _).bind fun _ => (Calm.popArguments _).bind fun _ => Calm.pop.bind fun _ => .pure ()
    exact .of_calm (calm.bind fun _ => .pure Flow.next) fun calls => bind_congr_run (sendNamed_short short calls)
  | some receiver =>
    have sent (calls : Calls) : sendNamed host calls site m =
        (sendTo host calls receiver site.name (m.operands site) >>= push) (m.opened site) := by
      rcases m.sendNamed_cases host calls site with ⟨v, there, sent⟩ | ⟨short, _⟩
      · cases found.symm.trans there
        exact sent
      · have inside := (List.getElem?_eq_some_iff.mp found).1
        rw [m.frame.stack.height_eq] at short
        omega
    by_cases gets : site.name = "getMember"
    · refine member_split (m.operands site) (x := fun calls name => Member.get host calls receiver name) ready
        (fun name => Member.get_composed within receiver name) rfl fun calls => ?_
      refine (bind_congr_run (sent calls)).trans ?_
      rw [gets, bind_assoc]
      exact congrFun (bind_assoc (memberName _) _ _) _
    · by_cases sets : site.name = "setMember"
      · let v := ((m.operands site).value? 1).getD .null
        refine member_split (m.operands site) (x := fun calls name => do
            Member.set host calls receiver name v
            pure v) ready
          (fun name => (Member.set_composed within receiver name v).bind fun _ => .pure v) rfl fun calls => ?_
        refine (bind_congr_run (sent calls)).trans ?_
        rw [sets, bind_assoc]
        refine (congrFun (bind_assoc (memberName _) _ _) _).trans ?_
        simp only [located_then, bind_assoc, pure_bind]
        rfl
      · refine .delegated (.call ready rfl rfl (Invoke.send_relays within (m.opened site).frame.site receiver site.name
          (m.operands site))) fun calls => ?_
        refine (bind_congr_run (sent calls)).trans ?_
        rw [sendTo_other _ _ gets sets]
        rw [← delegate_eq]
        refine bind_congr_run (bind_congr_run ?_)
        rw [bind_ok (refreshCall_eq _), bind_ok (readFrame_eq _ _)]
        rfl

omit within in
theorem stop_split (index : Nat) (lines : Lines) : Split C host (.stop index lines) m := by
  obtain ⟨steady, quiet, onward⟩ := passMarker_keeps index lines m
  obtain ⟨place, state, _, passed | stopped⟩ := m.passMarker_cases index lines
  · rw [passed] at steady quiet onward
    exact .alone steady quiet onward (.inl ⟨index, lines, rfl⟩) (by rintro halt m' ⟨⟩) fun _ => bind_ok passed
  · rw [stopped] at steady quiet onward
    refine .alone (r := .error (.failed .terminated) ⟨{ m.frame with place }, state⟩) steady quiet onward
      (.inl ⟨index, lines, rfl⟩) ?_ fun _ => bind_error stopped
    rintro halt m' ⟨⟩ _ ⟨⟩ _ ⟨⟩

theorem step_split (i : Instruction) (m : Machine) : Split C host i m := by
  cases i with
  | value v => exact .of_calm ((Calm.push v).bind fun _ => .pure .next) fun _ => rfl
  | load name place =>
    refine .delegated (.access (m.placed place).frame.site (Readied.placed m place)
      (Name.load_composed within (m.placed place).frame name)) fun calls => ?_
    rw [step_load_eq]
    rfl
  | call site => exact call_split within site
  | send site => exact send_split within site
  | branch kind offset => exact .of_calm (.branch kind offset) fun _ => rfl
  | stop index lines => exact stop_split index lines
  | discard => exact .of_calm (Calm.pop.bind fun _ => .pure .next) fun _ => rfl
  | enterTry offset => exact .of_calm ((Calm.enterTry offset).bind fun _ => .pure .next) fun _ => rfl
  | leaveTry => exact .of_calm (Calm.leaveTry.bind fun _ => .pure .next) fun _ => rfl
  | caught binding => exact .of_calm ((Calm.takeMessage binding).bind fun _ => .pure .next) fun _ => rfl

/-- What an instruction requests it requests in what it has prepared. -/
theorem step_starts_prepared {i : Instruction} {calls : Calls} {q : Request} {s : State}
    (starts : Starts (fun calls => step host calls i m) calls q s) :
    ∃ m' x, Prepared C i m m' x ∧ (∀ calls, step host calls i m = delegate (x calls) m') ∧
      Starts (fun calls => (x calls).holding m'.frame.hold m'.state) calls q s := by
  cases step_split within i m with
  | alone _ _ _ _ _ same =>
    obtain ⟨other, _, differ⟩ := starts
    exact absurd ((same calls).trans (same other).symm) differ
  | @delegated m' x prepared same =>
    refine ⟨m', x, prepared, same, starts.of_congr fun other alike => ?_⟩
    have held : onState (x calls) m' = onState (x other) m' := by rw [onState_eq, onState_eq, alike]
    rw [same calls, same other]
    exact bind_congr_run held

theorem step_starts_relayed {i : Instruction} {calls : Calls} {q : Request} {s : State}
    (starts : Starts (fun calls => step host calls i m) calls q s) :
    ∃ m' x, Readied m m' ∧ Relays Mild C False x ∧ (∀ calls, step host calls i m = delegate (x calls) m') ∧
      Starts (fun calls => (x calls).holding m'.frame.hold m'.state) calls q s := by
  obtain ⟨m', x, prepared, same, starts⟩ := step_starts_prepared within starts
  exact ⟨m', x, prepared.readied, prepared.relays, same, starts⟩

end

section

variable {re : Prop} {host : Host} (polite : host.IsPolite re)
include polite

theorem step_course (i : Instruction) (m : Machine) : Course re host i m := by
  cases step_split polite.within i m with
  | alone steady quiet _ _ unreported same => exact .alone steady quiet unreported same
  | delegated prepared same => exact .delegated prepared.readied prepared.relays.delegates same

theorem step_starts {i : Instruction} {calls : Calls} {q : Request} {s : State}
    (starts : Starts (fun calls => step host calls i m) calls q s) :
    ∃ m' x, Readied m m' ∧ Delegates re False x ∧ (∀ calls, step host calls i m = delegate (x calls) m') ∧
      Starts (fun calls => (x calls).holding m'.frame.hold m'.state) calls q s := by
  obtain ⟨m', x, ready, relays, same, starts⟩ := step_starts_relayed polite.within starts
  exact ⟨m', x, ready, relays.delegates, same, starts⟩

end

end Machine

end ScriptEngine
