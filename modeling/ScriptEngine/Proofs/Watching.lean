import ScriptEngine.Proofs.Unwinding

/-! # What the error watcher sees

An operation shows the error watcher an error exactly if it ends with one that was raised in a frame. It is
shown once, where it was raised, with the calls of all frames that were live there. Errors that a region catches
are not shown, and neither are those that arise outside of all frames.
-/

namespace ScriptEngine

variable {host : Host} {calls : Calls} {s t t' : State} {halt : Halt ScriptError} {f : Frame}

/-- Only a frame that came to life ends with an error that the error watcher has seen. -/
theorem Frame.opened_of_reported {steps : Nat} (failed : f.run host calls steps t = .error halt t')
    (reported : ¬ halt.IsUnreported) : ∃ c, t.control.openCall f.record = .ok c := by
  rw [Frame.run_eq] at failed
  cases opened : t.control.openCall f.record with
  | ok c => exact ⟨c, rfl⟩
  | error e =>
    rw [opened] at failed
    cases failed
    refine absurd ?_ reported
    rintro _ ⟨⟩
    exact Site.locate_isUnreported _ _

/-- If an instruction fails with an error that the error watcher has seen, that is the error of a run that it
started. -/
theorem Machine.step_failed_run (polite : host.IsPolite False) {i : Instruction} {m m' : Machine}
    (failed : step host calls i m = .error halt m') (reported : ¬ halt.IsUnreported) :
    ∃ f s₁ s₂, Starts (fun calls => step host calls i m) calls (.run f) s₁ ∧ calls.run f s₁ = .error halt s₂ := by
  cases step_course polite i m with
  | alone _ _ unreported same =>
    rw [same calls] at failed
    exact absurd (unreported halt m' failed) reported
  | @delegated m₁ x _ delegates same =>
    rw [same calls] at failed
    rcases bind_eq_error_iff.mp failed with failed | ⟨v, m₂, _, failed⟩
    · obtain ⟨s', held, _⟩ := onState_eq_error_iff.mp failed
      obtain ⟨q, s₁, s₂, waits, nested, fails⟩ := (delegates.holding m₁.frame.hold).relays.failed_waits held reported
      have starts := delegate_starts same waits nested
      cases fails with
      | run failed => exact ⟨_, s₁, s₂, starts, failed⟩
      | invoke _ => exact absurd (waits.starts nested) (delegates.holding m₁.frame.hold).relays.never_invokes
    · exact absurd (((Calm.push v).bind fun _ => .pure Flow.next).unreported m₂ halt m' failed) reported

namespace Engine

variable {e : Engine} {op : Operation} {program : ProgramId} {levels : Nat} {waiting : List Machine} {m : Machine}

/-- A frame that came to life in a state ends with a run-time error. -/
def Escapes (e : Engine) (levels : Nat) (f : Frame) (t : State) : Prop :=
  (∃ c, t.control.openCall f.record = .ok c) ∧
    ∃ error t', (e.below levels).run f t = .error (.failed (.runtime error)) t'

/-- A run-time error leaves the outermost frame of a computation. -/
def LetsOut {ρ : Type} (e : Engine) (x : Calls → ρ) : Prop :=
  ∃ levels f t, e.Makes x levels [] (.run f) t ∧ e.Escapes levels f t

/-- A machine raises an error: its instruction fails with it, and not because a frame did that the instruction
brought to life. -/
def Raises {ρ : Type} (e : Engine) (x : Calls → ρ) (waiting : List Machine) (m : Machine) (error : LocatedError) :
    Prop :=
  ∃ levels, e.Visits x levels waiting m ∧ m.raised? e.host (e.below levels) = some error ∧
    ∀ f t, e.Makes x levels (m :: waiting) (.run f) t → ¬ e.Escapes levels f t

theorem below_opened (failed : (e.below levels).run f t = .error halt t') (reported : ¬ halt.IsUnreported) :
    ∃ c, t.control.openCall f.record = .ok c := by
  cases levels with
  | zero =>
    cases failed
    exact absurd (by rintro _ ⟨⟩) reported
  | succ levels => exact Frame.opened_of_reported failed reported

section

variable (polite : e.host.IsPolite False)
include polite

/-- If an instruction fails with an error that was shown, a frame did that it brought to life. -/
theorem Visits.escapes_of_reported {error : LocatedError}
    (visits : e.Visits (fun calls => op.perform calls program s) levels waiting m)
    (raised : m.raised? e.host (e.below levels) = some error) (reported : error.reported = true) :
    ∃ f t, e.Makes (fun calls => op.perform calls program s) levels (m :: waiting) (.run f) t ∧
      e.Escapes levels f t := by
  have said : ¬ Halt.IsUnreported (.failed (.runtime error)) := by
    intro unreported
    rw [unreported _ rfl error rfl] at reported
    cases reported
  obtain ⟨i, m', found, failed⟩ := Machine.raised?_eq_some_iff.mp raised
  obtain ⟨f, t, t', starts, ended⟩ := Machine.step_failed_run polite failed said
  obtain ⟨f₀, t₀, made, comes⟩ := visits
  exact ⟨f, t, .instruction made comes found starts, below_opened ended said, error, t', ended⟩

/-- If a frame ends with an error, it or a frame that it waits for raised one where no region was open. -/
theorem Makes.raises (fit : s.IsFit)
    (made : e.Makes (fun calls => op.perform calls program s) levels waiting (.run f) t)
    (escapes : e.Escapes levels f t) (unguarded : ∀ g ∈ waiting, g.frame.handlers = []) :
    ∃ ws m error, e.Raises (fun calls => op.perform calls program s) ws m error ∧
      ∀ g ∈ m :: ws, g.frame.handlers = [] := by
  obtain ⟨⟨c, opened⟩, error, t', failed⟩ := escapes
  induction levels generalizing waiting f t c error t' with
  | zero => cases failed
  | succ levels ih =>
    change f.run e.host (e.below levels) e.steps t = _ at failed
    rw [Frame.run_eq, opened] at failed
    dsimp only at failed
    rcases run : Machine.execute e.host (e.below levels) e.steps ⟨f, { t with control := c }⟩ with ⟨v, m'⟩ | ⟨halt, m'⟩
    · rw [run] at failed
      cases failed
    · rw [run] at failed
      cases failed
      rcases Machine.execute_eq_error run with ⟨⟨⟩, _⟩ | ⟨k, m, less, reached, last⟩
      have comes : e.Comes levels f t m := ⟨c, k, opened, reached, less⟩
      obtain ⟨i, found, ⟨_, other⟩ | ⟨error₁, m₁, raised, _⟩⟩ := Machine.ended_cases last
      · exact absurd rfl (other error)
      · obtain ⟨quiet, limits, entered⟩ := made.quiet polite fit
        have on := comes.onTrack polite ⟨quiet.code fit.laid, limits ▸ fit.room⟩ entered
        have all : ∀ g ∈ m :: waiting, g.frame.handlers = [] :=
          List.forall_mem_cons.mpr ⟨on.handlers_eq_nil found raised last, unguarded⟩
        by_cases nested : ∃ g t₁, e.Makes (fun calls => op.perform calls program s) levels (m :: waiting) (.run g) t₁ ∧
            e.Escapes levels g t₁
        · obtain ⟨g, t₁, inner, ⟨c₁, opened₁⟩, error₂, t₂, failed₂⟩ := nested
          exact ih inner all c₁ opened₁ error₂ t₂ failed₂
        · refine ⟨waiting, m, error₁, ⟨levels, ⟨f, t, made, comes⟩,
            Machine.raised?_eq_some_iff.mpr ⟨i, m₁, found, raised⟩, ?_⟩, all⟩
          exact fun g t₁ inner escapes => nested ⟨g, t₁, inner, escapes⟩

/-- If the operation ends with an error that was shown, a frame did that it brought to life. -/
theorem escapes_of_reported {error : LocatedError} {s' : State}
    (failed : op.perform e.calls program s = .error (.failed (.runtime error)) s') (reported : error.reported = true) :
    e.LetsOut fun calls => op.perform calls program s := by
  have said : ¬ Halt.IsUnreported (.failed (.runtime error)) := by
    intro unreported
    rw [unreported _ rfl error rfl] at reported
    cases reported
  obtain ⟨q, s₁, s₂, waits, nested, fails⟩ := (op.perform_delegates False program).relays.failed_waits failed said
  have made : e.Makes (fun calls => op.perform calls program s) e.depth [] q s₁ := .host (waits.starts nested)
  cases fails with
  | run ended =>
    exact ⟨e.depth, _, s₁, made, e.below_opened ended said, error, s₂, ended⟩
  | @invoke callee args _ _ _ ended =>
    change (e.below e.depth).invoke callee args s₁ = _ at ended
    generalize e.depth = depth at made ended
    cases depth with
    | zero => cases ended
    | succ levels =>
      obtain ⟨q, s₃, s₄, waits, nested, fails⟩ :=
        (Invoke.value_delegates polite .host callee none args).relays.failed_waits ended said
      have starts := waits.starts nested
      cases fails with
      | run ended => exact ⟨levels, _, s₃, .invoke made starts, below_opened ended said, error, s₄, ended⟩
      | invoke _ => exact absurd starts (Invoke.value_delegates polite ..).relays.never_invokes

/-- An error that was shown goes out of all frames, and no more is shown. -/
theorem Visits.goes_out {error : LocatedError} {m' : Machine}
    (visits : e.Visits (fun calls => op.perform calls program s) levels waiting m)
    (last : Machine.turn e.host (e.below levels) m = .inr (.error (.failed (.runtime error)) m'))
    (reported : error.reported = true) (unguarded : ∀ g ∈ waiting, g.frame.handlers = []) :
    ∃ s', op.perform e.calls program s = .error (.failed (.runtime error)) s' ∧
      s'.control.reports = m'.state.control.reports := by
  induction waiting generalizing levels m m' with
  | nil =>
    obtain ⟨f, t, made, comes⟩ := visits
    obtain ⟨s', performed, held, rfl⟩ := (made.hands_on polite.asksNatives (comes.run_eq last)).1 rfl
    exact ⟨_, performed, rfl⟩
  | cons w ws ih =>
    obtain ⟨none, others⟩ := List.forall_mem_cons.mp unguarded
    obtain ⟨visits', i, w', found, failed, held, freed⟩ := visits.hands_on polite.asksNatives last
    obtain ⟨s', performed, same⟩ := ih visits' (Machine.turn_hidden found failed none (.inl reported)) others
    refine ⟨s', performed, same.trans ?_⟩
    rw [freed]
    rfl

/-- The calls that the error watcher sees are those of the live frames. -/
theorem Visits.shown_calls (idle : s.control.Accounts s.control.limits []) {i : Instruction} {halt : Halt ScriptError}
    {m' : Machine} (visits : e.Visits (fun calls => op.perform calls program s) levels waiting m)
    (failed : Machine.step e.host (e.below levels) i m = .error halt m') :
    List.Forall₂ CallRecord.IsOf m'.refreshed.control.stack.reverse ((m :: waiting).map Machine.frame) := by
  have current := (Machine.Calm.refreshCall.here m').1
  rw [Machine.refreshCall_eq] at current
  have same := (Machine.step_failed failed).same
  have after : List.Forall₂ CallRecord.IsOf m'.refreshed.control.callStack.items
      (m'.frame :: waiting.map Machine.frame) := by
    obtain ⟨_, bound⟩ := visits.accounts polite idle
    refine ((visits.failed_accounts polite idle failed).steady ?_ current).calls
    rw [same.maxStack, bound]
  rw [Control.stack, Stack.toList, List.reverse_reverse]
  obtain ⟨call, rest, names, others, here⟩ := List.forall₂_cons_right_iff.mp after
  rw [here]
  refine .cons ⟨?_, ?_⟩ others
  · rw [names.function, same.procedure]
  · rw [names.file, same.file]

/-- An error that is raised where no region is open is shown where it is raised, and the operation ends with it. -/
theorem Raises.goes_out (fit : s.IsFit) (idle : s.control.Accounts s.control.limits [])
    (watches : s.control.watchesErrors = true) {error : LocatedError}
    (raises : e.Raises (fun calls => op.perform calls program s) waiting m error)
    (unguarded : ∀ g ∈ m :: waiting, g.frame.handlers = []) :
    ∃ stack store s', op.perform e.calls program s = .error (.failed (.runtime { error with reported := true })) s' ∧
      s'.control.reports = s.control.reports ++ [.uncaught (.runtime error) stack store] ∧
      List.Forall₂ CallRecord.IsOf stack.reverse ((m :: waiting).map Machine.frame) := by
  obtain ⟨levels, visits, raised, alone⟩ := raises
  obtain ⟨i, m', found, failed⟩ := Machine.raised?_eq_some_iff.mp raised
  have unreported : error.reported = false := by
    by_contra shown
    obtain ⟨f, t, made, escapes⟩ := visits.escapes_of_reported polite raised (by simpa using shown)
    exact alone f t made escapes
  obtain ⟨t, before, here, on⟩ := visits.onTrack polite fit
  have told := (Machine.step_tells (i := i) (below_reports polite levels) polite (on.fit here)
    on.enough).2 _ _ failed
  have quiet : Quiet s m'.state := before.trans (on.quiet.trans (told.quiet unreported))
  have none : m'.frame.handlers = [] :=
    (Machine.step_failed failed).regions.trans (unguarded m List.mem_cons_self)
  have closed : m'.state.control.openTries = 0 := by
    refine (visits.failed_accounts polite idle failed).openTries_eq_zero (List.forall_mem_cons.mpr ⟨none, ?_⟩)
    exact List.forall_mem_map.mpr (List.forall_mem_cons.mp unguarded).2
  have watched : m'.state.control.watchesErrors = true := quiet.watched.trans watches
  have last : Machine.turn e.host (e.below levels) m =
      .inr (.error (.failed (.runtime { error with reported := true })) (m'.shown error)) := by
    refine Machine.turn_escaped found failed ?_
    rw [Machine.recover_escape none]
    rcases m'.escape_cases error with ⟨hidden, _⟩ | ⟨_, same⟩
    · rw [unreported, Control.inTry, closed] at hidden
      rcases hidden with ⟨⟨⟩⟩ | ⟨⟨⟩⟩
    · rw [same, watched]
  obtain ⟨s', performed, same⟩ := visits.goes_out polite last rfl (List.forall_mem_cons.mp unguarded).2
  refine ⟨_, m'.refreshed.store, s', performed, ?_, visits.shown_calls polite idle failed⟩
  rw [same, Machine.shown_reports watched, quiet.reports]

end

/-- The error watcher sees every error that is not caught, once, and no other. If a run-time error leaves the
outermost frame, the operation ends with it, and the error watcher was shown it where it was raised, with the
calls of all frames that were live there. Otherwise the error watcher was shown nothing: all errors were raised
in regions, or outside of all frames. -/
theorem error_watcher_sees_uncaught_once (polite : e.host.IsPolite False) (op : Operation) (program : ProgramId)
    (compiled : s.store.IsCompiled) (room : 1 ≤ s.control.limits.stackDepth) (idle : s.control.callStack = .empty)
    (closed : s.control.openTries = 0) (watches : s.control.watchesErrors = true) :
    (e.LetsOut (fun calls => op.perform calls program s) →
      ∃ waiting m error stack store s', e.Raises (fun calls => op.perform calls program s) waiting m error ∧
        (∀ g ∈ m :: waiting, g.frame.handlers = []) ∧
        op.perform e.calls program s = .error (.failed (.runtime { error with reported := true })) s' ∧
        s'.control.reports = s.control.reports ++ [.uncaught (.runtime error) stack store] ∧
        List.Forall₂ CallRecord.IsOf stack.reverse ((m :: waiting).map Machine.frame)) ∧
    (¬ e.LetsOut (fun calls => op.perform calls program s) →
      (finalState (op.perform e.calls program s)).control.reports = s.control.reports ∧
      (∀ error s', op.perform e.calls program s = .error (.failed (.runtime error)) s' → error.reported = false) ∧
      ∀ waiting m error, e.Raises (fun calls => op.perform calls program s) waiting m error →
        ∃ g ∈ m :: waiting, g.frame.handlers ≠ []) := by
  have fit : s.IsFit := ⟨compiled.isLaidOut, room⟩
  have start := State.accounts_idle idle closed
  refine ⟨?_, fun none => ⟨?_, ?_, ?_⟩⟩
  · rintro ⟨levels, f, t, made, escapes⟩
    obtain ⟨waiting, m, error, raises, unguarded⟩ := made.raises polite fit escapes (by simp)
    obtain ⟨stack, store, s', performed, reports, shown⟩ := raises.goes_out polite fit start watches unguarded
    exact ⟨waiting, m, error, stack, store, s', raises, unguarded, performed, reports, shown⟩
  · have leads := ((op.perform_delegates False program).follows
      (e.below_reports polite e.depth) nofun s).1
    change Trail.reports.Leads s (op.perform e.calls program s) at leads
    rcases run : op.perform e.calls program s with ⟨v, s'⟩ | ⟨halt, s'⟩
    · rw [run] at leads
      exact (leads fit).reports
    · rw [run] at leads
      rcases leads fit with ⟨quiet, _⟩ | ⟨_, shown⟩
      · exact quiet.reports
      · obtain ⟨error, _, _, rfl, _⟩ := shown.report
        exact absurd (escapes_of_reported polite run rfl) none
  · intro error s' failed
    by_contra shown
    exact none (escapes_of_reported polite failed (by simpa using shown))
  · intro waiting m error raises
    by_contra unguarded
    obtain ⟨_, _, s', performed, _⟩ := raises.goes_out polite fit start watches (by simpa using unguarded)
    exact none (escapes_of_reported polite performed rfl)

end Engine

/-- A text with a function that lets an error out of the function that it calls. -/
def unknownName : String :=
  "def f() \x7b return y; \x7d def g() \x7b try \x7b return z; \x7d catch : e \x7b return f(); \x7d \x7d"

theorem Engine.unknownName_shown :
    ∃ s, (do
        let id ← Engine.load unknownName "demo" false
        Exec.modifyControl fun c => { c with watchesErrors := true }
        pure id : Exec ScriptError ProgramId) .start = .ok 0 s ∧
      Host.none.IsPolite False ∧ s.store.IsCompiled ∧ 1 ≤ s.control.limits.stackDepth ∧
      s.control.callStack = .empty ∧ s.control.openTries = 0 ∧ s.control.watchesErrors = true ∧
    ∃ waiting m error stack store s', (Engine.mk .none 4 100).Raises
        (fun calls => (Operation.callMember "g" []).perform calls 0 s) waiting m error ∧
      (∀ g ∈ m :: waiting, g.frame.handlers = []) ∧
      (Operation.callMember "g" []).perform (Engine.mk .none 4 100).calls 0 s =
        .error (.failed (.runtime { error with reported := true })) s' ∧
      s'.control.reports = [.uncaught (.runtime error) stack store] ∧
      List.Forall₂ CallRecord.IsOf stack.reverse ((m :: waiting).map Machine.frame) := by
  have spelled : spellsOnly unknownName (fun c => !decide c.Assigns) = true := by decide +kernel
  obtain ⟨s, loaded, watching⟩ : ∃ s, (do
      let id ← Engine.load unknownName "demo" false
      Exec.modifyControl fun c => { c with watchesErrors := true }
      pure id : Exec ScriptError ProgramId) .start = .ok 0 s ∧
        s = ⟨(Store.empty.addProgram (.ofSource unknownName "demo" ⟨0, false⟩)).2,
          { Control.start with watchesErrors := true }⟩ := ⟨_, rfl, rfl⟩
  have plain : ∀ tree, ModuleTree.ofSource unknownName = .ok tree → ∀ c ∈ tree.calls, ¬ c.Assigns := by
    intro tree parsed c among
    obtain ⟨tree', parsed', plain⟩ := spellsOnly_iff.mp spelled
    cases parsed.symm.trans parsed'
    simpa using plain c among
  have compiled : s.store.IsCompiled := by
    have loaded : (Engine.load unknownName "demo" false : Exec ScriptError ProgramId) .start =
        .ok 0 ⟨(Store.empty.addProgram (.ofSource unknownName "demo" ⟨0, false⟩)).2, .start⟩ := rfl
    have compiled := Engine.load_isCompiled (s := .start) Store.empty_isCompiled plain loaded
    rw [watching]
    exact compiled
  have ended : (runtimeError? ((Operation.callMember "g" []).perform (Engine.mk .none 4 100).calls 0 s)).any
      LocatedError.reported = true := by
    rw [watching]
    decide +kernel
  have room : 1 ≤ s.control.limits.stackDepth := by
    rw [watching]
    decide
  obtain ⟨idle, closed, watches, silent⟩ : s.control.callStack = .empty ∧ s.control.openTries = 0 ∧
      s.control.watchesErrors = true ∧ s.control.reports = [] := by
    rw [watching]
    exact ⟨rfl, rfl, rfl, rfl⟩
  obtain ⟨error, failing, reported⟩ := (Option.any_eq_true _ _).mp ended
  obtain ⟨s', failed⟩ := runtimeError?_eq_some_iff.mp failing
  have sees := (Engine.error_watcher_sees_uncaught_once (Host.none_isPolite False) (.callMember "g" []) 0 compiled room
    idle closed watches).1 (Engine.escapes_of_reported (Host.none_isPolite False) failed reported)
  rw [silent] at sees
  exact ⟨s, loaded, Host.none_isPolite False, compiled, room, idle, closed, watches, sees⟩

end ScriptEngine
