import ScriptEngine.Proofs.Snapshots

/-! # All callbacks

The host is called back by machines only: by the one that comes to a stop, and by the one in which an error is raised
that nothing is going to catch. So whatever a whole operation shows to the host, a machine that it visited did, and
the call stack was what it is with that machine.
-/

namespace ScriptEngine

variable {K : State → State → Prop} {P : Event → Prop} {host : Host} {calls : Calls} {s s' s'' : State} {α β : Type}

/-- The native functions of nested runs, and nothing else of them. -/
def Calls.muted (calls : Calls) : Calls where
  run := fun _ => throw .exhausted
  invoke := fun _ _ => throw .exhausted
  native := calls.native

/-- What functions do that run native functions at most, and respect a relation. -/
abbrev Respects.Apart (K : State → State → Prop) : Conduct := fun α x =>
  (∀ calls other : Calls, calls.native = other.native → x calls = x other) ∧ Respects K α x

theorem Respects.Apart.asksNatives {x : Calls → Exec RuntimeError α} (apart : Respects.Apart K α x) : AsksNatives α x :=
  .of_congr apart.1

theorem Composed.muted {x : Calls → Exec RuntimeError α} (composed : Composed Mild (Respects.Apart K) x)
    (calls : Calls) : x calls = x calls.muted := by
  induction composed with
  | plain => rfl
  | host apart => exact apart.1 _ _ rfl
  | native => rfl
  | attempt _ ih => exact congrArg Exec.attempt ih
  | holding h _ ih => exact congrArg (Exec.holding h) ih
  | bind _ _ first rest => exact congrArg₂ Bind.bind first (funext rest)

namespace Absorbing

variable (absorbing : Absorbing K)
include absorbing

/-- What a relation holds over that the native functions do it holds over all that runs nothing else. -/
theorem over_natives {x : Calls → Exec RuntimeError α} (composed : Composed Mild (Respects.Apart K) x)
    (native : ∀ r args s, K s (finalState (calls.native r args s))) (s : State) : K s (finalState (x calls s)) := by
  have keep : calls.muted.Keep K := ⟨fun _ s => absorbing.refl s, fun _ _ s => absorbing.refl s, native⟩
  rw [composed.muted]
  exact absorbing.composed (composed.mono fun _ _ apart => apart.2) keep s

theorem nested_natives (within : host.Within (Respects.Apart K)) (steps depth : Nat) (r : Ref .native)
    (args : Arguments) (s : State) : K s (finalState ((Calls.nested host steps depth).native r args s)) := by
  induction depth generalizing r args s with
  | zero => exact absorbing.refl s
  | succ depth ih => exact absorbing.over_natives (Invoke.native_composed within r args) ih s

end Absorbing

/-- The call stack that the host was shown. -/
def Event.stack : Event → List CallRecord
  | stopped stack _ => stack
  | uncaught _ stack _ => stack

/-- The store as it was then. -/
def Event.store : Event → Store
  | stopped _ store => store
  | uncaught _ _ store => store

/-- The host was shown nothing. -/
def SameEvents (s s' : State) : Prop := s'.control.events = s.control.events

/-- The host was shown only such events. -/
def Tells (P : Event → Prop) (s s' : State) : Prop :=
  ∃ shown, s'.control.events.toList = s.control.events.toList ++ shown ∧ ∀ event ∈ shown, P event

theorem SameEvents.absorbing : Absorbing SameEvents where
  mild := by
    intro s s' mild
    obtain ⟨output, same⟩ := mild.control
    rw [SameEvents, same]
  held := fun _ _ => rfl
  trans := fun first second => Eq.trans second first

theorem SameEvents.tells (same : SameEvents s s') : Tells P s s' := ⟨[], by rw [same, List.append_nil], by simp⟩

theorem Tells.refl (s : State) : Tells P s s := SameEvents.tells rfl

theorem Tells.trans (first : Tells P s s') (second : Tells P s' s'') : Tells P s s'' := by
  obtain ⟨shown, added, all⟩ := first
  obtain ⟨later, last, others⟩ := second
  refine ⟨shown ++ later, ?_, List.forall_mem_append.mpr ⟨all, others⟩⟩
  rw [last, added, List.append_assoc]

theorem Tells.absorbing : Absorbing (Tells P) where
  mild := fun mild => SameEvents.tells (SameEvents.absorbing.mild mild)
  held := fun _ _ => SameEvents.tells rfl
  trans := .trans

/-- One more event is shown. -/
theorem Tells.one {event : Event} (holds : P event) (added : s'.control.events = s.control.events.push event) :
    Tells P s s' := ⟨[event], by rw [added, Array.toList_push], by simpa using holds⟩

/-- A host whose functions do not take its callbacks away, and do not call them by themselves. -/
structure Host.SparesCallbacks (host : Host) : Prop where
  stay : host.Within (Respects StaysObserved)
  silent : host.Within (Respects SameEvents)

/-- A computation that tells what its nested runs do, if these are the ones that it waits for. -/
theorem Relays.tells {inv : Prop} {x : Calls → Exec ScriptError α}
    (relays : Relays Mild (Respects.Apart SameEvents) inv x)
    (native : ∀ r args s, SameEvents s (finalState (calls.native r args s)))
    (run : ∀ f t, Waits x s calls (.run f) t → Tells P t (finalState (calls.run f t)))
    (invoke : ∀ callee args t, Waits x s calls (.invoke callee args) t →
      Tells P t (finalState (calls.invoke callee args t))) :
    Tells P s (finalState (x calls s)) := by
  induction relays generalizing s with
  | plain mild _ => exact Tells.absorbing.mild (mild s)
  | located site composed =>
    rw [finalState_mapError]
    exact (SameEvents.absorbing.over_natives composed native s).tells
  | enter find _ =>
    dsimp only
    cases found : find s with
    | error e => exact .refl s
    | ok site => exact run _ s (Waits.found found)
  | invoke callee args _ => exact invoke callee args s (.invoke callee args s calls)
  | holding h _ ih =>
    exact Tells.absorbing.holding (ih (fun f t waits => run f t waits.holding)
      fun callee args t waits => invoke callee args t waits.holding)
  | bind first _ first_ih rest_ih =>
    have early := first.mono fun _ _ apart => Respects.Apart.asksNatives apart
    refine Tells.absorbing.bind (first_ih (fun f t waits => run f t waits.bind)
      fun callee args t waits => invoke callee args t waits.bind) fun a s' ran => rest_ih a (fun f t waits => ?_)
        fun callee args t waits => ?_
    · exact run f t (.after (fun starts => early.waits starts) ran waits)
    · exact invoke callee args t (.after (fun starts => early.waits starts) ran waits)

namespace Machine

variable {m m' : Machine}

/-- What a machine shows the host in its next turn: itself at a stop, and an error that is raised in it and that
nothing is going to catch. -/
inductive Shows (host : Host) (calls : Calls) (m : Machine) : Event → Prop
  | stopped {index : Nat} {lines : Lines} :
    m.frame.procedure.code[m.frame.pc]? = some (.stop index lines) → m.state.control.terminated = false →
      m.asksAt index = true →
      Shows host calls m (.stopped (m.placed (.ofLine lines.first)).refreshed.control.stack m.state.store)
  | uncaught {i : Instruction} {error : LocatedError} {m' : Machine} :
    m.frame.procedure.code[m.frame.pc]? = some i → step host calls i m = .error (.failed (.runtime error)) m' →
      m'.frame.handlers = [] → error.reported = false → m'.state.control.inTry = false →
      m'.state.control.watchesErrors = true →
      Shows host calls m (.uncaught (.runtime error) m'.refreshed.control.stack m'.state.store)

theorem refreshed_store (m : Machine) : m.refreshed.store = m.state.store := by
  unfold refreshed
  split <;> rfl

theorem refreshed_watches (m : Machine) : m.refreshed.control.watchesErrors = m.state.control.watchesErrors := by
  unfold refreshed
  split <;> rfl

/-- A machine that passes a marker shows nothing but itself. -/
theorem passMarker_shows {index : Nat} {lines : Lines}
    (found : m.frame.procedure.code[m.frame.pc]? = some (.stop index lines))
    (shows : ∀ event, m.Shows host calls event → P event) :
    Tells P m.state (finalState (passMarker index lines m)).state := by
  rw [passMarker_eq]
  split
  · exact .refl _
  · next goesOn =>
    split
    · next asks =>
      have shown := shows _ (.stopped found (by simpa using goesOn) asks)
      rw [finalState_interrupt]
      unfold Control.stop
      cases (m.placed (.ofLine lines.first)).refreshed.control.debugger with
      | none => exact SameEvents.tells (refreshed_events _)
      | some d =>
        refine (SameEvents.tells (refreshed_events (m.placed (.ofLine lines.first)))).trans (.one shown ?_)
        dsimp only
        rw [refreshed_store]
        split <;> rfl
    · exact .refl _

/-- A machine that answers an error shows it if nothing is going to catch it. -/
theorem recover_shows {i : Instruction} {error : ScriptError}
    (found : m.frame.procedure.code[m.frame.pc]? = some i) (failed : step host calls i m = .error (.failed error) m')
    (shows : ∀ event, m.Shows host calls event → P event) :
    Tells P m'.state (finalState (recover error m')).state := by
  cases error with
  | runtime e =>
    cases regions : m'.frame.handlers with
    | nil =>
      rw [recover_escape regions]
      rcases m'.escape_cases e with ⟨_, same⟩ | ⟨⟨unreported, open_⟩, same⟩
      · rw [same]
        exact .refl _
      · rw [same]
        change Tells P m'.state (m'.shown e).state
        unfold shown Control.report
        rw [refreshed_watches, refreshed_store]
        split
        · next watches =>
          have shown := shows _ (.uncaught found failed regions unreported open_ watches)
          exact (SameEvents.tells m'.refreshed_events).trans (.one shown rfl)
        · exact SameEvents.tells m'.refreshed_events
    | cons h outer =>
      rw [recover_handler m' regions]
      split <;> exact .refl _
  | _ => exact .refl _

section

variable (apart : host.Within (Respects.Apart SameEvents))
  (native : ∀ r args s, SameEvents s (finalState (calls.native r args s)))
  (shows : ∀ event, m.Shows host calls event → P event)
include apart native shows

/-- An instruction shows what the runs do that it starts, or itself. -/
theorem step_shows {i : Instruction} (found : m.frame.procedure.code[m.frame.pc]? = some i)
    (run : ∀ f t, Starts (fun calls => step host calls i m) calls (.run f) t → Tells P t (finalState (calls.run f t))) :
    Tells P m.state (finalState (step host calls i m)).state := by
  cases step_split apart i m with
  | @alone r _ _ _ events _ same =>
    rcases events with ⟨index, lines, rfl⟩ | events
    · have passed := passMarker_shows found shows
      change Tells P m.state (finalState ((passMarker index lines >>= fun _ => pure Flow.next) m)).state
      rcases ran : passMarker index lines m with ⟨_, m'⟩ | ⟨halt, m'⟩
      · rw [ran] at passed
        rw [bind_ok ran]
        exact passed
      · rw [ran] at passed
        rw [bind_error ran]
        exact passed
    · rw [same calls]
      exact SameEvents.tells events
  | @delegated m' x prepared same =>
    have relays := prepared.relays.holding m'.frame.hold
    have asks := relays.mono fun _ _ apart => Respects.Apart.asksNatives apart
    have nested := relays.tells (P := P) (s := m'.state) native
      (fun f t waits => run f t (delegate_starts same waits nofun))
      fun callee args t waits => absurd (waits.starts nofun) asks.never_invokes
    have before : Tells P m.state m'.state := SameEvents.tells prepared.readied.events
    rw [same calls]
    unfold delegate
    cases ran : (x calls).holding m'.frame.hold m'.state with
    | error halt t =>
      rw [ran] at nested
      rw [bind_error (onState_eq_error_iff.mpr ⟨t, ran, rfl⟩)]
      exact before.trans nested
    | ok v t =>
      rw [ran] at nested
      rw [bind_ok (onState_eq_ok_iff.mpr ⟨t, ran, rfl⟩)]
      have last : Calm (do
          push v
          pure Flow.next) := (Calm.push v).bind fun _ => .pure Flow.next
      exact before.trans (nested.trans (SameEvents.tells (last.events ⟨m'.frame, t⟩)))

theorem turn_shows (run : ∀ i f t, m.frame.procedure.code[m.frame.pc]? = some i →
      Starts (fun calls => step host calls i m) calls (.run f) t → Tells P t (finalState (calls.run f t))) :
    Tells P m.state (Sum.elim id finalState (turn host calls m)).state := by
  unfold turn
  cases found : m.frame.procedure.code[m.frame.pc]? with
  | none => exact .refl _
  | some i =>
    have stepped := step_shows apart native shows found fun f t starts => run i f t found starts
    dsimp only
    rcases ran : step host calls i m with ⟨flow, m₁⟩ | ⟨halt, m₁⟩
    · rw [ran] at stepped
      cases flow <;> exact stepped
    · rw [ran] at stepped
      cases halt with
      | exhausted => exact stepped
      | failed error =>
        have recovered := recover_shows found ran shows
        dsimp only
        rcases answered : recover error m₁ with ⟨_, m₂⟩ | ⟨halt, m₂⟩
        all_goals
          rw [answered] at recovered
          exact stepped.trans recovered

end

/-- What holds over each turn of a run holds over the run. -/
theorem execute_relates {R : State → State → Prop} (refl : ∀ s, R s s) (trans : ∀ {a b c}, R a b → R b c → R a c)
    (n : Nat) {m : Machine} (turns : ∀ k m', ReachesIn host calls k m m' → k < n →
      R m'.state (Sum.elim id finalState (turn host calls m')).state) :
    R m.state (finalState (execute host calls n m)).state := by
  induction n generalizing m with
  | zero => exact refl _
  | succ n ih =>
    have first := turns 0 m (.refl m) (Nat.succ_pos n)
    rw [execute_succ]
    cases here : turn host calls m with
    | inr ending =>
      rw [here] at first
      exact first
    | inl m₁ =>
      rw [here] at first
      exact trans first (ih fun k m' reached less => turns (k + 1) m' (.turn here reached) (Nat.succ_lt_succ less))

end Machine

namespace Engine

variable {e : Engine} {op : Operation} {program : ProgramId} {levels : Nat} {waiting : List Machine} {m : Machine}
  {f : Frame} {t : State} {event : Event}

/-- A machine that an operation visits shows the host an event. -/
def Shown {ρ : Type} (e : Engine) (x : Calls → ρ) (event : Event) : Prop :=
  ∃ levels waiting m, e.Visits x levels waiting m ∧ m.Shows e.host (e.below levels) event

section

variable (apart : e.host.Within (Respects.Apart SameEvents))
include apart

/-- The run of a frame shows what the machines do that it comes to. -/
theorem Makes.tells {ρ : Type} {x : Calls → ρ} (made : e.Makes x levels waiting (.run f) t) :
    Tells (e.Shown x) t (finalState ((e.below levels).run f t)) := by
  induction levels generalizing waiting f t with
  | zero => exact .refl t
  | succ levels ih =>
    change Tells _ t (finalState (f.run e.host (e.below levels) e.steps t))
    rw [Frame.run_eq]
    cases opened : t.control.openCall f.record with
    | error error => exact .refl t
    | ok c =>
      have same : SameEvents t ⟨t.store, c⟩ := by
        obtain ⟨_, rfl⟩ := Control.openCall_eq_ok_iff.mp opened
        rfl
      have executed : Tells (e.Shown x) ⟨t.store, c⟩
          (finalState (Machine.execute e.host (e.below levels) e.steps ⟨f, ⟨t.store, c⟩⟩)).state := by
        refine Machine.execute_relates .refl .trans e.steps fun k m reached less => ?_
        have comes : e.Comes levels f t m := ⟨c, k, opened, reached, less⟩
        refine Machine.turn_shows apart (SameEvents.absorbing.nested_natives apart e.steps levels)
          (fun event shows => ⟨levels, waiting, m, ⟨f, t, made, comes⟩, shows⟩) fun i g s' found starts => ?_
        exact ih (.instruction made comes found starts)
      have left (m : Machine) : SameEvents m.state (Frame.run.leave m.frame m.state) := rfl
      dsimp only
      rcases ran : Machine.execute e.host (e.below levels) e.steps ⟨f, ⟨t.store, c⟩⟩ with ⟨v, m⟩ | ⟨halt, m⟩
      all_goals
        rw [ran] at executed
        exact (same.tells.trans executed).trans (left m).tells

theorem perform_tells (op : Operation) (program : ProgramId) (s : State) :
    Tells (e.Shown fun calls => op.perform calls program s) s (finalState (op.perform e.calls program s)) := by
  have native (levels : Nat) := SameEvents.absorbing.nested_natives apart e.steps levels
  refine (op.perform_relays _ program).tells (native e.depth) (fun f t waits => ?_) fun callee args t waits => ?_
  · exact Makes.tells apart (.host (waits.starts nofun))
  · have made : e.Makes (fun calls => op.perform calls program s) e.depth [] (.invoke callee args) t :=
      .host (waits.starts nofun)
    change Tells _ t (finalState ((e.below e.depth).invoke callee args t))
    generalize e.depth = depth at made
    cases depth with
    | zero => exact .refl t
    | succ levels =>
      have relays := Invoke.value_relays apart .host callee none args
      have asks := relays.mono fun _ _ apart => Respects.Apart.asksNatives apart
      refine relays.tells (native levels) (fun f t' waits => ?_) fun _ _ t' waits => ?_
      · exact Makes.tells apart (.invoke made (waits.starts nofun))
      · exact absurd (waits.starts nofun) asks.never_invokes

end

/-- The call stack that a machine shows has an entry for it as it is, above those of the machines that wait for it,
which are as they were when they made their calls. -/
theorem Visits.shows (polite : e.host.IsPolite False) (observing : e.host.Within (Respects.Alone StaysObserved))
    (idle : s.control.callStack = .empty) (observed : s.control.isObserved = true)
    (visits : e.Visits (fun calls => op.perform calls program s) levels waiting m)
    (shows : m.Shows e.host (e.below levels) event) :
    event.stack = (m.frame.entry event.store :: waiting.map Machine.entry).reverse := by
  obtain ⟨watched, call, function, file, items⟩ := visits.items polite observing idle observed
  cases shows with
  | @stopped index lines found _ _ =>
    change (Stack.items _).reverse = _
    rw [Machine.refreshed_items (m := m.placed (.ofLine lines.first)) watched items, function, file]
    change _ = (m.frame.entry m.state.store :: _).reverse
    rw [Frame.entry, Frame.line_eq found]
    rfl
  | @uncaught i error m' found failed _ _ _ watches =>
    have steady := Machine.step_steady (below_books polite levels) polite i m
    rw [failed] at steady
    obtain ⟨call', items', function', file'⟩ := steady.calls call _ items
    have kept := Machine.step_failed failed
    have visible : m'.frame.visible m'.state.store = m.frame.visible m'.state.store := by
      unfold Frame.visible
      rw [kept.locals, kept.same.program]
    change (Stack.items _).reverse = (m.frame.entry m'.state.store :: _).reverse
    rw [Machine.refreshed_items (m := m') (by rw [Control.isObserved, watches, Bool.or_true]) items', function', file',
      function, file, Frame.entry, Frame.line_eq found, kept.place error rfl, visible]

/-- Whenever an operation calls the host back, a machine that it visits does, at a stop or with an error that nothing
is going to catch. The call stack that the host sees has one entry for each live frame, the outermost first: the one
that shows it as it is, and those that wait as they were when they made their calls. So all of them are as they are,
but for the members that waiting top-level code shows and that were written since. -/
theorem callbacks_see_calls (polite : e.host.IsPolite False) (spares : e.host.SparesCallbacks) (op : Operation)
    (program : ProgramId) (idle : s.control.callStack = .empty) (observed : s.control.isObserved = true) :
    ∃ shown, (finalState (op.perform e.calls program s)).control.events.toList = s.control.events.toList ++ shown ∧
      ∀ event ∈ shown, ∃ levels waiting m, e.Visits (fun calls => op.perform calls program s) levels waiting m ∧
        m.Shows e.host (e.below levels) event ∧
        event.stack = (m.frame.entry event.store :: waiting.map Machine.entry).reverse ∧
        ((∀ w ∈ waiting, ∀ hidden, w.frame.locals = .topLevel hidden →
            (event.store.program w.frame.program).members = (w.state.store.program w.frame.program).members) →
          event.stack = ((m :: waiting).map fun w => w.frame.entry event.store).reverse) := by
  obtain ⟨shown, added, all⟩ := perform_tells (polite.neverReenters.and spares.silent) op program s
  refine ⟨shown, added, fun event among => ?_⟩
  obtain ⟨levels, waiting, m, visits, shows⟩ := all event among
  have stack := visits.shows polite (polite.asksNatives.and spares.stay) idle observed shows
  refine ⟨levels, waiting, m, visits, shows, stack, fun unwritten => ?_⟩
  have entries : waiting.map Machine.entry = waiting.map fun w => w.frame.entry event.store := by
    refine List.map_congr_left fun w waits => ?_
    cases own : w.frame.locals with
    | procedure table => exact Frame.entry_procedure own _ _
    | topLevel hidden => exact (Frame.entry_of_members (unwritten w waits hidden own)).symm
  rw [stack, entries, List.map_cons]

/-- An error that a function raises is shown with the top-level code that waits for the function. -/
example :
    let source := "def f() \x7b x = true; y(); \x7d x = false;\nf();"
    let s : State := ⟨(Store.empty.addProgram (.ofSource source "demo" ⟨0, false⟩)).2,
      { Control.start with watchesErrors := true }⟩
    (finalState ((Engine.mk .none 4 100).start 0 s)).control.events.toList.map (fun event =>
      event.stack.map CallRecord.text) = [["<module> (demo:2)", "f (demo:1)"]] := by
  decide +kernel

end Engine

end ScriptEngine
