import ScriptEngine.Proofs.Bookkeeping
import ScriptEngine.Run.Execute

/-! # Computations in accord

Two computations are in accord if related states lead them to the same: to related states again, with related values
or with one error. Nothing is said when a bound is used up. What a debugger leaves behind is a relation of this kind:
two states are alike if they differ in nothing but who debugs them and what the call stack was last seen to hold.
-/

namespace ScriptEngine

variable {σ ε δ α β : Type} {R : σ → σ → Prop} {P : α → α → Prop} {Q : β → β → Prop}

/-- Two computations have ended in related states with related values or with one error, or a bound was used up. -/
inductive Accord (R : σ → σ → Prop) (P : α → α → Prop) :
    EStateM.Result (Halt ε) σ α → EStateM.Result (Halt ε) σ α → Prop
  | ok {a b : α} {s t : σ} : R s t → P a b → Accord R P (.ok a s) (.ok b t)
  | failed {e : ε} {s t : σ} : R s t → Accord R P (.error (.failed e) s) (.error (.failed e) t)
  | exhausted {s : σ} {r : EStateM.Result (Halt ε) σ α} : Accord R P (.error .exhausted s) r
  | exhausted' {r : EStateM.Result (Halt ε) σ α} {t : σ} : Accord R P r (.error .exhausted t)

/-- From related states two computations are in accord. -/
def Accords (R : σ → σ → Prop) (P : α → α → Prop) (x y : EStateM (Halt ε) σ α) : Prop :=
  ∀ s t, R s t → Accord R P (x s) (y t)

namespace Accords

variable {x y : EStateM (Halt ε) σ α} {f g : α → EStateM (Halt ε) σ β}

theorem pure {a b : α} (here : P a b) : Accords R P (Pure.pure a : EStateM (Halt ε) σ α) (Pure.pure b) :=
  fun _ _ related => .ok related here

theorem fail {e : ε} : Accords R P (throw (.failed e) : EStateM (Halt ε) σ α) (throw (.failed e)) :=
  fun _ _ related => .failed related

theorem exhausted : Accords R P (throw .exhausted : EStateM (Halt ε) σ α) y := fun _ _ _ => .exhausted

theorem exhausted' : Accords R P x (throw .exhausted) := fun _ _ _ => .exhausted'

theorem bind (first : Accords R P x y) (rest : ∀ a b, P a b → Accords R Q (f a) (g b)) :
    Accords R Q (x >>= f) (y >>= g) := by
  intro s t related
  have here := first s t related
  simp only [Bind.bind, EStateM.bind]
  generalize x s = r, y t = r' at here
  cases here with
  | ok after same => exact rest _ _ same _ _ after
  | failed after => exact .failed after
  | exhausted => exact .exhausted
  | exhausted' => exact .exhausted'

/-- A computation whose value is one, and what goes on with it. -/
theorem bind_eq (first : Accords R Eq x y) (rest : ∀ a, Accords R Q (f a) (g a)) :
    Accords R Q (x >>= f) (y >>= g) :=
  first.bind fun a _ same => same ▸ rest a

/-- What reads the whole state is in accord if what goes on is, for related states that were read. -/
theorem get {f g : σ → EStateM (Halt ε) σ β} (rest : ∀ s t, R s t → Accords R Q (f s) (g t)) :
    Accords R Q (MonadState.get >>= f) (MonadState.get >>= g) := fun s t related => rest s t related s t related

theorem changed {h k : σ → σ} (kept : ∀ s t, R s t → R (h s) (k t)) :
    Accords R Eq (modify h : EStateM (Halt ε) σ Unit) (modify k) := fun s t related => .ok (kept s t related) rfl

/-- A list of computations is in accord with another one if each of them is. -/
theorem forM {as : List α} {f g : α → EStateM (Halt ε) σ PUnit} (each : ∀ a, Accords R Eq (f a) (g a)) :
    Accords R Eq (as.forM f) (as.forM g) := by
  induction as with
  | nil => exact .pure rfl
  | cons a rest ih => exact (each a).bind_eq fun _ => ih

theorem mapM {as : List α} (each : ∀ a, Accords R Eq (f a) (g a)) : Accords R Eq (as.mapM f) (as.mapM g) := by
  induction as with
  | nil => exact .pure rfl
  | cons a rest ih =>
    rw [List.mapM_cons, List.mapM_cons]
    exact (each a).bind_eq fun _ => ih.bind_eq fun _ => .pure rfl

end Accords

/-- A call without what was last seen of it. -/
def CallRecord.bare (call : CallRecord) : CallRecord := { call with line := 0, locals := [] }

/-- The calls that are open, without what was last seen of them. -/
def bareCalls (calls : Stack CallRecord) : Stack CallRecord :=
  ⟨calls.items.map CallRecord.bare, calls.height, by rw [List.length_map, calls.height_eq]⟩

/-- A stop or a report without what was last seen of the calls. -/
def Event.bare : Event → Event
  | stopped stack store => .stopped (stack.map CallRecord.bare) store
  | uncaught error stack store => .uncaught error (stack.map CallRecord.bare) store

namespace Control

/-- A control state without a debugger and all that is there for its sake. -/
def bare (c : Control) : Control :=
  { c with
    callStack := bareCalls c.callStack
    stepMode := false
    debugger := none
    stops := 0
    events := (c.reports.map Event.bare).toArray }

/-- No debugger ever ends the run. -/
def GoesOn (c : Control) : Prop := ∀ d, c.debugger = some d → ∀ stops stack, d.answer stops stack ≠ .terminate

/-- Two control states differ at most in debuggers, neither of which ends the run, and what is there for their
sake. -/
structure Alike (c c' : Control) : Prop where
  bare : c.bare = c'.bare
  left : c.GoesOn
  right : c'.GoesOn

end Control

/-- Two states with one store and control states that are alike. -/
structure State.Alike (s t : State) : Prop where
  store : s.store = t.store
  control : s.control.Alike t.control

namespace Control

variable {c c' c'' : Control}

theorem Alike.refl (goes : c.GoesOn) : c.Alike c := ⟨rfl, goes, goes⟩

theorem Alike.symm (alike : c.Alike c') : c'.Alike c := ⟨alike.bare.symm, alike.right, alike.left⟩

theorem Alike.trans (first : c.Alike c') (second : c'.Alike c'') : c.Alike c'' :=
  ⟨first.bare.trans second.bare, first.left, second.right⟩

theorem bareCalls_eq {calls calls' : Stack CallRecord}
    (same : calls.items.map CallRecord.bare = calls'.items.map CallRecord.bare) :
    bareCalls calls = bareCalls calls' := by
  have height : calls.height = calls'.height := by
    rw [calls.height_eq, calls'.height_eq, ← List.length_map CallRecord.bare, same, List.length_map]
  unfold bareCalls
  simp only [same, height]

theorem bare_closeCall : c.closeCall.bare = { c.bare with callStack := c.bare.callStack.drop 1 } := by
  have same : bareCalls (c.callStack.drop 1) = (bareCalls c.callStack).drop 1 := by
    simp [bareCalls, Stack.drop]
  unfold closeCall bare
  simp only [same]
  rfl

/-- What was last seen of a call is nothing that counts. -/
theorem bare_refreshCall {line : Nat} {locals : List (String × Value)} : (c.refreshCall line locals).bare = c.bare := by
  have same : bareCalls (c.callStack.modifyTop fun call => { call with line, locals }) = bareCalls c.callStack := by
    refine bareCalls_eq ?_
    obtain ⟨items, height, height_eq⟩ := c.callStack
    cases items with
    | nil => rfl
    | cons call rest => rfl
  unfold refreshCall bare
  simp only [same]
  rfl

theorem bare_uncaught {e : ScriptError} {stack : List CallRecord} {store : Store} :
    { c with events := c.events.push (.uncaught e stack store) }.bare =
      { c.bare with events := c.bare.events.push (.uncaught e (stack.map CallRecord.bare) store) } := by
  have shown : [Event.uncaught e stack store].filter Event.isReport = [.uncaught e stack store] := rfl
  simp [bare, reports, shown, Event.bare]

namespace Alike

variable (alike : c.Alike c')
include alike

/-- Whatever is done to both and has nothing to do with debuggers leaves them alike. -/
theorem changed {h : Control → Control} (plain : ∀ c, (h c).bare = h c.bare)
    (debugger : ∀ c, (h c).debugger = c.debugger) : (h c).Alike (h c') where
  bare := by rw [plain, plain, alike.bare]
  left := fun d here => alike.left d (debugger c ▸ here)
  right := fun d here => alike.right d (debugger c' ▸ here)

theorem hold {h : Hold} : (c.hold h).Alike (c'.hold h) := alike.changed (h := (·.hold h)) (fun _ => rfl) fun _ => rfl

theorem letGo : c.letGo.Alike c'.letGo := alike.changed (h := Control.letGo) (fun _ => rfl) fun _ => rfl

theorem output : c.output = c'.output := congrArg (·.output) alike.bare

theorem limits : c.limits = c'.limits := congrArg (·.limits) alike.bare

theorem terminated : c.terminated = c'.terminated := congrArg (·.terminated) alike.bare

theorem inTry : c.inTry = c'.inTry := congrArg (·.inTry) alike.bare

theorem watchesErrors : c.watchesErrors = c'.watchesErrors := congrArg (·.watchesErrors) alike.bare

theorem height : c.callStack.height = c'.callStack.height := congrArg (·.callStack.height) alike.bare

theorem calls : c.callStack.items.map CallRecord.bare = c'.callStack.items.map CallRecord.bare :=
  congrArg (·.callStack.items) alike.bare

theorem closeCall : c.closeCall.Alike c'.closeCall :=
  ⟨by rw [bare_closeCall, bare_closeCall, alike.bare], alike.left, alike.right⟩

/-- A call is opened on both sides, or the limit on their number is reached on both. -/
theorem openCall (call : CallRecord) : match c.openCall call, c'.openCall call with
    | .ok d, .ok d' => d.Alike d'
    | .error e, .error e' => e = e'
    | _, _ => False := by
  unfold Control.openCall
  by_cases full : c.callStack.height ≥ c.limits.callDepth
  · rw [if_pos full, if_pos (alike.height ▸ alike.limits ▸ full), alike.limits]
  · rw [if_neg full, if_neg (alike.height ▸ alike.limits ▸ full)]
    exact ⟨congrArg (fun d => { d with callStack := d.callStack.push call.bare }) alike.bare, alike.left, alike.right⟩

/-- What was last seen of the calls may be refreshed on either side. -/
theorem refreshCall_left {line : Nat} {locals : List (String × Value)} : (c.refreshCall line locals).Alike c' :=
  ⟨bare_refreshCall.trans alike.bare, alike.left, alike.right⟩

theorem refreshCall_right {line : Nat} {locals : List (String × Value)} : c.Alike (c'.refreshCall line locals) :=
  ⟨alike.bare.trans bare_refreshCall.symm, alike.left, alike.right⟩

/-- The error watchers see one error with one call stack, but for what was last seen of the calls. -/
theorem report (e : ScriptError) (store : Store) :
    (c.report e store).1 = (c'.report e store).1 ∧ (c.report e store).2.Alike (c'.report e store).2 := by
  have stack : c.stack.map CallRecord.bare = c'.stack.map CallRecord.bare := by
    rw [Control.stack, Control.stack, Stack.toList, Stack.toList, List.map_reverse, List.map_reverse, alike.calls]
  unfold Control.report
  by_cases watches : c.watchesErrors = true
  · rw [if_pos watches, if_pos (alike.watchesErrors ▸ watches)]
    refine ⟨rfl, ?_, alike.left, alike.right⟩
    exact bare_uncaught.trans (.trans (by rw [alike.bare, stack]) bare_uncaught.symm)
  · rw [if_neg watches, if_neg (alike.watchesErrors ▸ watches)]
    exact ⟨rfl, alike⟩

end Alike

/-- A stop is nothing that counts, whatever the debugger wants next, if it does not end the run. -/
theorem stop_alike (goes : c.GoesOn) (store : Store) :
    (c.stop store).1 ≠ .terminate ∧ c.Alike (c.stop store).2 := by
  unfold stop
  split
  · exact ⟨nofun, .refl goes⟩
  · next d attached =>
    have on := goes d attached c.stops c.stack
    dsimp only
    split
    · next stopped => exact ⟨on, by simp [bare, reports, Event.isReport], goes, goes⟩
    · next stopped => exact ⟨on, by simp [bare, reports, Event.isReport], goes, goes⟩
    · next stopped => exact absurd stopped on

end Control

namespace State.Alike

variable {s t u : State}

theorem symm (alike : s.Alike t) : t.Alike s := ⟨alike.store.symm, alike.control.symm⟩

theorem trans (first : s.Alike t) (second : t.Alike u) : s.Alike u :=
  ⟨first.store.trans second.store, first.control.trans second.control⟩

end State.Alike

namespace Exec

variable {R : State → State → Prop} {x y : Exec ε α}

theorem ofExcept_accords (c : Except ε α) : Accords R Eq (Exec.ofExcept c) (Exec.ofExcept c) := by
  cases c with
  | ok a => exact .pure rfl
  | error e => exact .fail

theorem mapError_accords {h : ε → δ} (accords : Accords R P x y) : Accords R P (x.mapError h) (y.mapError h) := by
  intro s t related
  have here := accords s t related
  unfold Exec.mapError
  generalize x s = r, y t = r' at here
  cases here with
  | ok after same => exact .ok after same
  | failed after => exact .failed after
  | exhausted => exact .exhausted
  | exhausted' => exact .exhausted'

/-- A step of the control state that comes to the same. -/
theorem tryControl_accords {h k : Control → Except ε Control}
    (step : ∀ s t, R s t → match h s.control, k t.control with
      | .ok c, .ok c' => R ⟨s.store, c⟩ ⟨t.store, c'⟩
      | .error e, .error e' => e = e'
      | _, _ => False) : Accords R Eq (Exec.tryControl h) (Exec.tryControl k) := by
  refine .get fun s t related => ?_
  have here := step _ _ related
  cases ended : h s.control <;> cases ended' : k t.control <;> rw [ended, ended'] at here
  · exact here ▸ .fail
  · exact here.elim
  · exact here.elim
  · exact fun _ _ _ => .ok here rfl

end Exec

end ScriptEngine
