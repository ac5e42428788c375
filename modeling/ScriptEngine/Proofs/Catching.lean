import ScriptEngine.Proofs.Accounts

/-! # Errors on their way

A run-time error that is raised while a guarded region is open is caught, and the error watcher is not told of
it. Any other is shown to the error watcher where it is raised, and then goes out of all frames. This is so
wherever code is laid out, stacks have room for a message, and the host does not re-enter the interpreter.
-/

namespace ScriptEngine

variable {host : Host} {calls : Calls} {s s' s'' : State} {halt : Halt ScriptError}

/-- The run-time error that a computation ended with. -/
def runtimeError? {σ α : Type} : EStateM.Result (Halt ScriptError) σ α → Option LocatedError
  | .error (.failed (.runtime e)) _ => some e
  | _ => none

theorem runtimeError?_eq_some_iff {σ α : Type} {r : EStateM.Result (Halt ScriptError) σ α} {e : LocatedError} :
    runtimeError? r = some e ↔ ∃ s, r = .error (.failed (.runtime e)) s := by
  unfold runtimeError?
  split
  · next e' s =>
    constructor
    · rintro ⟨⟩
      exact ⟨s, rfl⟩
    · rintro ⟨_, ⟨⟩⟩
      rfl
  · next other =>
    constructor
    · rintro ⟨⟩
    · rintro ⟨s, rfl⟩
      exact absurd rfl (other e s)

/-- A state whose code is laid out and whose stacks have room for a message. -/
structure State.IsFit (s : State) : Prop where
  laid : s.store.IsLaidOut
  room : 1 ≤ s.control.limits.stackDepth

/-- The error watcher was shown an error, which says so, and was told nothing else. -/
structure Shown (s : State) (halt : Halt ScriptError) (s' : State) : Prop where
  watches : s.control.watchesErrors = true
  watched : s'.control.watchesErrors = s.control.watchesErrors
  code : s.store.IsLaidOut → s'.store.IsLaidOut
  report : ∃ error stack store, halt = .failed (.runtime { error with reported := true }) ∧
    s'.control.reports = s.control.reports ++ [.uncaught (.runtime error) stack store]

/-- What the error watcher knows when a computation halts: nothing, or an error that no region is going to
catch. -/
def Told (s : State) (halt : Halt ScriptError) (s' : State) : Prop :=
  (Quiet s s' ∧ halt.IsUnreported) ∨ (s.control.openTries = 0 ∧ Shown s halt s')

theorem State.IsFit.still (fit : s.IsFit) (still : Still s s') : s'.IsFit :=
  ⟨still.code fit.laid, still.limits ▸ fit.room⟩

theorem Shown.onward (first : Quiet s s') (shown : Shown s' halt s'') : Shown s halt s'' := by
  obtain ⟨error, stack, store, reported, report⟩ := shown.report
  refine ⟨first.watched ▸ shown.watches, shown.watched.trans first.watched, fun laid => ?_, error, stack, store,
    reported, ?_⟩
  · exact shown.code (first.code laid)
  · rw [report, first.reports]

theorem Shown.stays (shown : Shown s halt s') (rest : Quiet s' s'') : Shown s halt s'' := by
  obtain ⟨error, stack, store, reported, report⟩ := shown.report
  exact ⟨shown.watches, rest.watched.trans shown.watched, fun laid => rest.code (shown.code laid), error, stack,
    store, reported, rest.reports.trans report⟩

/-- An error that was shown says so. -/
theorem Shown.reported {e : LocatedError} (shown : Shown s (.failed (.runtime e)) s') : e.reported = true := by
  obtain ⟨error, stack, store, same, _⟩ := shown.report
  cases same
  rfl

theorem Told.onward (first : Quiet s s') (tries : s'.control.openTries = 0 → s.control.openTries = 0)
    (told : Told s' halt s'') : Told s halt s'' := by
  rcases told with ⟨quiet, unreported⟩ | ⟨none, shown⟩
  · exact .inl ⟨first.trans quiet, unreported⟩
  · exact .inr ⟨tries none, shown.onward first⟩

theorem Told.stays (told : Told s halt s') (rest : Quiet s' s'') : Told s halt s'' := by
  rcases told with ⟨quiet, unreported⟩ | ⟨none, shown⟩
  · exact .inl ⟨quiet.trans rest, unreported⟩
  · exact .inr ⟨none, shown.stays rest⟩

/-- An error that does not say that it was shown was not. -/
theorem Told.quiet {e : LocatedError} (told : Told s (.failed (.runtime e)) s') (unreported : e.reported = false) :
    Quiet s s' := by
  rcases told with ⟨quiet, _⟩ | ⟨_, shown⟩
  · exact quiet
  · rw [shown.reported] at unreported
    cases unreported

/-- Computations that tell the error watcher only of errors that are not caught. -/
def Trail.reports : Trail where
  after := fun s s' => s.IsFit → Still s s'
  halted := fun s halt s' => s.IsFit → Told s halt s'
  still := fun still _ => still
  trans := fun first second fit => (first fit).trans (second (fit.still (first fit)))
  onward := fun first halted fit =>
    (halted (fit.still (first fit))).onward (first fit).toQuiet fun none => (first fit).openTries ▸ none
  stays := fun halted still fit => (halted fit).stays still.toQuiet
  raised := fun unreported after fit => .inl ⟨(after fit).toQuiet, unreported⟩

namespace Machine

variable {m m' : Machine} {i : Instruction}

/-- The run-time error that the next instruction of a machine raises. -/
def raised? (host : Host) (calls : Calls) (m : Machine) : Option LocatedError :=
  m.frame.procedure.code[m.frame.pc]?.bind fun i => runtimeError? (step host calls i m)

theorem raised?_eq_some_iff {e : LocatedError} :
    m.raised? host calls = some e ↔ ∃ i m', m.frame.procedure.code[m.frame.pc]? = some i ∧
      step host calls i m = .error (.failed (.runtime e)) m' := by
  simp only [raised?, Option.bind_eq_some_iff, runtimeError?_eq_some_iff]
  constructor
  · rintro ⟨i, found, m', failed⟩
    exact ⟨i, m', found, failed⟩
  · rintro ⟨i, m', found, failed⟩
    exact ⟨i, found, m', failed⟩

/-- A machine in the run of a frame that was entered in a state, so far without a word to the error watcher. -/
structure OnTrack (s : State) (m : Machine) : Prop where
  quiet : Quiet s m.state
  limits : m.state.control.limits = s.control.limits
  tries : m.state.control.openTries = s.control.openTries + m.frame.handlers.length
  laid : m.frame.procedure.IsLaidOut
  places : ∃ (code : Array Instruction) (layout : Layout code), layout.Places m.frame
  room : 1 ≤ m.frame.maxStack

/-- Regions were opened on an empty stack. -/
theorem OnTrack.depth_eq_zero (on : m.OnTrack s) {h : Handler} (among : h ∈ m.frame.handlers) : h.depth = 0 := by
  obtain ⟨code, layout, placed⟩ := on.places
  rw [placed.handlers] at among
  obtain ⟨target, _, rfl⟩ := List.mem_map.mp among
  rfl

theorem OnTrack.enter (fit : s.IsFit) {f : Frame} (entered : f.IsEntered s) {c : Control}
    (opened : s.control.openCall f.record = .ok c) : OnTrack s ⟨f, ⟨s.store, c⟩⟩ := by
  obtain ⟨_, rfl⟩ := Control.openCall_eq_ok_iff.mp opened
  obtain ⟨id, program, locals, rfl⟩ := entered
  have laid := fit.laid id
  obtain ⟨layout⟩ := laid.layout
  have placed : layout.Places (.enter s (s.store.procedure id) program locals) :=
    Layout.places_fresh (f := .enter s (s.store.procedure id) program locals) layout ⟨rfl, rfl, rfl, rfl⟩
  exact ⟨⟨rfl, rfl, fun laid => laid⟩, rfl, rfl, laid, ⟨_, layout, placed⟩, fit.room⟩

theorem OnTrack.fit (on : m.OnTrack s) (fit : s.IsFit) : m.state.IsFit :=
  ⟨on.quiet.code fit.laid, on.limits ▸ fit.room⟩

theorem OnTrack.enough (on : m.OnTrack s) : m.frame.handlers.length ≤ m.state.control.openTries := by
  rw [on.tries]
  exact Nat.le_add_left ..

/-- A machine that is ready for its nested run has as many regions open. -/
theorem Readied.tries (ready : m.Readied m') (enough : m.frame.handlers.length ≤ m.state.control.openTries) :
    m'.state.control.openTries = m.state.control.openTries := by
  have kept := ready.steady.tries enough
  rw [ready.handlers] at kept
  omega

theorem Readied.fit (ready : m.Readied m') (fit : m.state.IsFit) : m'.state.IsFit :=
  ⟨ready.quiet.code fit.laid, ready.steady.limits ▸ fit.room⟩

theorem turn_caught {m₁ m₂ : Machine} {error : ScriptError}
    (found : m.frame.procedure.code[m.frame.pc]? = some i)
    (run : step host calls i m = .error (.failed error) m₁) (answered : recover error m₁ = .ok () m₂) :
    turn host calls m = .inl m₂ := by
  unfold turn
  rw [found]
  dsimp only
  rw [run]
  dsimp only
  rw [answered]

theorem turn_escaped {m₁ m₂ : Machine} {error : ScriptError}
    (found : m.frame.procedure.code[m.frame.pc]? = some i)
    (run : step host calls i m = .error (.failed error) m₁) (answered : recover error m₁ = .error halt m₂) :
    turn host calls m = .inr (.error halt m₂) := by
  unfold turn
  rw [found]
  dsimp only
  rw [run]
  dsimp only
  rw [answered]

/-- The error watcher is shown an error with the call stack as it is then. -/
theorem shown_reports {m : Machine} (watches : m.state.control.watchesErrors = true) (e : LocatedError) :
    (m.shown e).state.control.reports =
      m.state.control.reports ++ [.uncaught (.runtime e) m.refreshed.control.stack m.refreshed.store] := by
  obtain ⟨_, quiet⟩ := Calm.refreshCall.here m
  rw [refreshCall_eq] at quiet
  have watched : m.refreshed.control.watchesErrors = true := quiet.watched.trans watches
  rw [← show m.refreshed.control.reports = m.state.control.reports from quiet.reports]
  change (m.refreshed.control.report (.runtime e) m.refreshed.store).2.reports = _
  unfold Control.report
  rw [if_pos watched]
  simp [Control.reports, Event.isReport]

theorem shown_told {m : Machine} (watches : m.state.control.watchesErrors = true) (e : LocatedError) :
    Shown m.state (.failed (.runtime { e with reported := true })) (m.shown e).state := by
  obtain ⟨_, quiet⟩ := Calm.refreshCall.here m
  rw [refreshCall_eq] at quiet
  refine ⟨watches, ?_, quiet.code, e, _, _, rfl, shown_reports watches e⟩
  refine Eq.trans ?_ quiet.watched
  change (m.refreshed.control.report (.runtime e) m.refreshed.store).2.watchesErrors = _
  unfold Control.report
  split <;> rfl

/-- Without an error watcher nothing is told. -/
theorem shown_quiet {m : Machine} (alone : m.state.control.watchesErrors = false) (e : LocatedError) :
    Quiet m.state (m.shown e).state := by
  obtain ⟨_, quiet⟩ := Calm.refreshCall.here m
  rw [refreshCall_eq] at quiet
  have unwatched : m.refreshed.control.watchesErrors = false := quiet.watched.trans alone
  have same : m.shown e = ⟨m.frame, m.refreshed⟩ := by
    unfold shown Control.report
    rw [unwatched]
    rfl
  rw [same]
  exact quiet

/-- An error that was shown before, or is going to be caught further out, leaves the frame as it is. -/
theorem turn_hidden {e : LocatedError} {m₁ : Machine} (found : m.frame.procedure.code[m.frame.pc]? = some i)
    (run : step host calls i m = .error (.failed (.runtime e)) m₁) (none : m.frame.handlers = [])
    (hidden : e.reported = true ∨ m₁.state.control.inTry = true) :
    turn host calls m = .inr (.error (.failed (.runtime e)) m₁) := by
  refine turn_escaped found run ?_
  rw [recover_escape ((step_failed run).regions.trans none)]
  rcases m₁.escape_cases e with ⟨_, same⟩ | ⟨⟨unreported, alone⟩, _⟩
  · exact same
  · rw [unreported, alone] at hidden
    rcases hidden with ⟨⟨⟩⟩ | ⟨⟨⟩⟩

/-- An error that is raised in a region of the frame goes to the handler of the latest one. -/
theorem OnTrack.turn_eq (on : m.OnTrack s) {e : LocatedError} {m₁ : Machine} {h : Handler} {outer : List Handler}
    (found : m.frame.procedure.code[m.frame.pc]? = some i)
    (run : step host calls i m = .error (.failed (.runtime e)) m₁) (regions : m.frame.handlers = h :: outer) :
    turn host calls m = .inl (((m₁.unwind h outer).pushed (.string e.message)).jumped h.target) := by
  have failed := step_failed run
  refine turn_caught found run ?_
  rw [recover_handler m₁ (failed.regions.trans regions), if_neg]
  have empty : (m₁.unwind h outer).frame.stack.height = m₁.frame.stack.height -
      (m₁.frame.stack.height - h.depth) := rfl
  have room := failed.same.maxStack ▸ on.room
  rw [empty, on.depth_eq_zero (regions ▸ List.mem_cons_self)]
  omega

/-- A run that ends with the error of an instruction has no region open. -/
theorem OnTrack.handlers_eq_nil (on : m.OnTrack s) {e : LocatedError} {m₁ : Machine} {ending : Ending}
    (found : m.frame.procedure.code[m.frame.pc]? = some i)
    (run : step host calls i m = .error (.failed (.runtime e)) m₁) (last : turn host calls m = .inr ending) :
    m.frame.handlers = [] := by
  cases regions : m.frame.handlers with
  | nil => rfl
  | cons h outer =>
    rw [on.turn_eq found run regions] at last
    cases last

section

variable (guides : Trail.reports.Guides calls) (polite : host.IsPolite False)
include guides polite

/-- What the error watcher learns from an instruction. -/
theorem step_tells (fit : m.state.IsFit) (enough : m.frame.handlers.length ≤ m.state.control.openTries) :
    (∀ flow m', step host calls i m = .ok flow m' → Quiet m.state m'.state) ∧
      ∀ halt m', step host calls i m = .error halt m' → Told m.state halt m'.state := by
  cases step_course polite i m with
  | alone _ quiet unreported same =>
    rw [same calls]
    refine ⟨fun flow m' run => ?_, fun halt m' run => .inl ⟨?_, unreported halt m' run⟩⟩
    all_goals
      rw [run] at quiet
      exact quiet
  | @delegated m₁ x ready delegates same =>
    rw [same calls]
    have leads := ((delegates.holding m₁.frame.hold).follows guides nofun m₁.state).1
    have onward {halt : Halt ScriptError} {s' : State} (told : Told m₁.state halt s') : Told m.state halt s' :=
      told.onward ready.quiet fun none => ready.tries enough ▸ none
    cases held : (x calls).holding m₁.frame.hold m₁.state with
    | error halt s' =>
      rw [held] at leads
      have stopped : delegate (x calls) m₁ = .error halt ⟨m₁.frame, s'⟩ :=
        bind_error (onState_eq_error_iff.mpr ⟨s', held, rfl⟩)
      rw [stopped]
      refine ⟨by rintro flow m' ⟨⟩, ?_⟩
      rintro halt m' ⟨⟩
      exact onward (leads (ready.fit fit))
    | ok v s' =>
      rw [held] at leads
      have quiet : Quiet m.state s' := ready.quiet.trans (leads (ready.fit fit)).toQuiet
      have went : delegate (x calls) m₁ = (do
          push v
          Pure.pure Flow.next) ⟨m₁.frame, s'⟩ := bind_ok (onState_eq_ok_iff.mpr ⟨s', held, rfl⟩)
      rw [went]
      have calm : Calm (do
          push v
          Pure.pure Flow.next) := (Calm.push v).bind fun _ => .pure Flow.next
      have last := (calm.here ⟨m₁.frame, s'⟩).2
      refine ⟨fun flow m' run => ?_, fun halt m' run => .inl ⟨?_, calm.unreported _ halt m' run⟩⟩
      all_goals
        rw [run] at last
        exact quiet.trans last

variable (books : Trail.books.Guides calls)
include books

/-- A machine stays on its track. -/
theorem OnTrack.turned (fit : s.IsFit) (on : m.OnTrack s) (turned : turn host calls m = .inl m') :
    m'.OnTrack s := by
  obtain ⟨code, layout, placed⟩ := on.places
  have steady := turn_steady books polite m
  rw [turned] at steady
  change m.Steady m' at steady
  have tells (i : Instruction) := step_tells (i := i) guides polite (on.fit fit) on.enough
  have quiet : Quiet m.state m'.state := by
    cases turn_inl turned with
    | @onward i m₁ found run => exact (tells i).1 _ m₁ run
    | @jumped i m₁ target found run => exact (tells i).1 _ m₁ run
    | @caught i m₁ e h outer found run regions =>
      rcases (tells i).2 _ _ run with ⟨quiet, _⟩ | ⟨none, _⟩
      · exact quiet.trans ⟨rfl, rfl, id⟩
      · have some := on.tries
        rw [← (step_failed run).regions, regions, none, List.length_cons] at some
        omega
  refine ⟨on.quiet.trans quiet, steady.limits.trans on.limits, ?_, steady.procedure ▸ on.laid,
    ⟨code, layout, placed.turned (turn_inl turned)⟩, steady.maxStack ▸ on.room⟩
  have kept := steady.tries on.enough
  have before := on.tries
  omega

theorem OnTrack.reached (fit : s.IsFit) {n : Nat} (on : m.OnTrack s) (reached : ReachesIn host calls n m m') :
    m'.OnTrack s := by
  induction reached with
  | refl => exact on
  | turn here _ ih => exact ih (on.turned guides polite books fit here)

omit books in
/-- A run that ends with a value told the error watcher nothing. -/
theorem OnTrack.returned (fit : s.IsFit) (on : m.OnTrack s) {v : Value}
    (last : turn host calls m = .inr (.ok v m')) : Quiet s m'.state := by
  unfold turn at last
  cases found : m.frame.procedure.code[m.frame.pc]? with
  | none =>
    rw [found] at last
    cases last
    exact on.quiet
  | some i =>
    rw [found] at last
    dsimp only at last
    rcases run : step host calls i m with ⟨flow, m₁⟩ | ⟨halt, m₁⟩
    · rw [run] at last
      cases flow <;> cases last
      exact on.quiet.trans ((step_tells guides polite (on.fit fit) on.enough).1 _ _ run)
    · rw [run] at last
      cases halt with
      | exhausted => cases last
      | failed error =>
        dsimp only at last
        cases answered : recover error m₁ <;> rw [answered] at last <;> cases last

omit guides polite books in
/-- What ends a run with an error: the bound on it, or an instruction whose error no region caught. -/
theorem ended_cases (last : turn host calls m = .inr (.error halt m')) :
    ∃ i, m.frame.procedure.code[m.frame.pc]? = some i ∧
      (step host calls i m = .error halt m' ∧ (∀ e, halt ≠ .failed (.runtime e)) ∨
        ∃ e m₁, step host calls i m = .error (.failed (.runtime e)) m₁ ∧ recover (.runtime e) m₁ = .error halt m') := by
  unfold turn at last
  cases found : m.frame.procedure.code[m.frame.pc]? with
  | none =>
    rw [found] at last
    cases last
  | some i =>
    refine ⟨i, rfl, ?_⟩
    rw [found] at last
    dsimp only at last
    rcases run : step host calls i m with ⟨flow, m₁⟩ | ⟨halt', m₁⟩
    · rw [run] at last
      cases flow <;> cases last
    · rw [run] at last
      cases halt' with
      | exhausted =>
        cases last
        exact .inl ⟨rfl, nofun⟩
      | failed error =>
        dsimp only at last
        cases error with
        | runtime e =>
          refine .inr ⟨e, m₁, rfl, ?_⟩
          cases answered : recover (.runtime e) m₁ <;> rw [answered] at last <;> cases last
          rfl
        | _ =>
          rw [recover_other m₁ rfl] at last
          cases last
          exact .inl ⟨rfl, nofun⟩

/-- The error watcher is shown what leaves the outermost frame. -/
theorem OnTrack.ended (fit : s.IsFit) (on : m.OnTrack s) (last : turn host calls m = .inr (.error halt m')) :
    Told s halt m'.state := by
  have onward {halt : Halt ScriptError} {t : State} (told : Told m.state halt t) : Told s halt t := by
    refine told.onward on.quiet fun none => ?_
    have tries := on.tries
    omega
  obtain ⟨i, found, ⟨run, _⟩ | ⟨e, m₁, run, answered⟩⟩ := ended_cases last
  · exact onward ((step_tells guides polite (on.fit fit) on.enough).2 _ _ run)
  · have told := onward ((step_tells guides polite (on.fit fit) on.enough).2 _ _ run)
    have none := on.handlers_eq_nil found run last
    have kept : m₁.frame.handlers = [] := (step_failed run).regions.trans none
    have tries : m₁.state.control.openTries = s.control.openTries := by
      have steady := step_steady books polite i m
      rw [run] at steady
      have kept' := steady.tries on.enough
      have before := on.tries
      rw [none] at kept' before
      change m₁.state.control.openTries + 0 = m.state.control.openTries + m₁.frame.handlers.length at kept'
      rw [kept] at kept'
      exact kept'.trans before
    rw [recover_escape kept] at answered
    rcases m₁.escape_cases e with ⟨_, same⟩ | ⟨⟨unreported, alone⟩, same⟩
    · rw [same] at answered
      cases answered
      exact told
    · rw [same] at answered
      cases answered
      have closed : s.control.openTries = 0 := by
        rw [Control.inTry, tries] at alone
        simpa using alone
      have quiet := told.quiet unreported
      cases watches : m₁.state.control.watchesErrors with
      | true => exact .inr ⟨closed, (shown_told watches e).onward quiet⟩
      | false =>
        refine .inl ⟨quiet.trans (shown_quiet watches e), ?_⟩
        rintro _ ⟨⟩ _ ⟨⟩
        rfl

end

theorem execute_eq_ok {n : Nat} {v : Value} (run : execute host calls n m = .ok v m') :
    ∃ k m₁, k < n ∧ ReachesIn host calls k m m₁ ∧ turn host calls m₁ = .inr (.ok v m') := by
  rcases execute_cases host calls n m with ⟨m₁, _, used⟩ | ⟨k, m₁, ending, less, reached, last, ended⟩
  · rw [used] at run
    cases run
  · rw [run] at ended
    subst ended
    exact ⟨k, m₁, less, reached, last⟩

theorem execute_eq_error {n : Nat} (run : execute host calls n m = .error halt m') :
    (halt = .exhausted ∧ ReachesIn host calls n m m') ∨
      ∃ k m₁, k < n ∧ ReachesIn host calls k m m₁ ∧ turn host calls m₁ = .inr (.error halt m') := by
  rcases execute_cases host calls n m with ⟨m₁, reached, used⟩ | ⟨k, m₁, ending, less, reached, last, ended⟩
  · rw [used] at run
    cases run
    exact .inl ⟨rfl, reached⟩
  · rw [run] at ended
    subst ended
    exact .inr ⟨k, m₁, less, reached, last⟩

end Machine

section

variable (polite : host.IsPolite False) (guides : Trail.reports.Guides calls) (books : Trail.books.Guides calls)
  {steps : Nat} {f : Frame}
include polite guides books

theorem Frame.run_leads (entered : f.IsEntered s) : Trail.reports.Leads s (f.run host calls steps s) := by
  have same := Frame.run_same polite books steps entered
  rw [Frame.run_eq] at same ⊢
  cases opened : s.control.openCall f.record with
  | error e =>
    refine Trail.reports.raised ?_ (Trail.here s)
    rintro _ ⟨⟩
    exact Site.locate_isUnreported _ _
  | ok c =>
    rw [opened] at same
    dsimp only at same ⊢
    have start (fit : s.IsFit) : Machine.OnTrack s ⟨f, ⟨s.store, c⟩⟩ := .enter fit entered opened
    rcases run : Machine.execute host calls steps ⟨f, ⟨s.store, c⟩⟩ with ⟨v, m⟩ | ⟨halt, m⟩
    · rw [run] at same
      obtain ⟨k, m₁, _, reached, last⟩ := Machine.execute_eq_ok run
      intro fit
      have quiet := ((start fit).reached guides polite books fit reached).returned guides polite fit last
      exact ⟨same, quiet.watched, quiet.reports, quiet.code⟩
    · intro fit
      rcases Machine.execute_eq_error run with ⟨rfl, reached⟩ | ⟨k, m₁, _, reached, last⟩
      · have quiet := ((start fit).reached guides polite books fit reached).quiet
        exact .inl ⟨⟨quiet.watched, quiet.reports, quiet.code⟩, by rintro _ ⟨⟩⟩
      · have told := ((start fit).reached guides polite books fit reached).ended guides polite books fit last
        exact told.stays ⟨rfl, rfl, id⟩

end

/-- However deep runs nest, the error watcher learns only of errors that are not caught. -/
theorem Calls.nested_reports (polite : host.IsPolite False) (steps depth : Nat) :
    Trail.reports.Guides (Calls.nested host steps depth) := by
  induction depth with
  | zero =>
    have exhausted (s : State) : Trail.reports.Leads (α := Value) s (.error .exhausted s) :=
      fun _ => .inl ⟨.refl s, by rintro _ ⟨⟩⟩
    exact ⟨fun _ s _ => exhausted s, fun _ _ s => exhausted s, fun _ _ s _ => .refl s⟩
  | succ depth ih =>
    refine ⟨fun f s entered => ?_, fun callee args s => ?_, fun r args s => ?_⟩
    · exact Frame.run_leads polite ih (Calls.nested_books polite steps depth) entered
    · exact ((Invoke.value_delegates polite .host callee none args).follows ih nofun s).1
    · exact ((Invoke.native_consults polite r args).follows ih nofun s).1

end ScriptEngine
