import ScriptEngine.Proofs.HandingOn

/-! # What lasts through a run

The interpreter itself never takes back that a program was started or that the run is ended. A relation of states
that includes whatever the interpreter does itself, and that holds over the functions of the host, holds over
whole runs, and over every part of one.
-/

namespace ScriptEngine

variable {K : State → State → Prop} {s s' t : State} {calls : Calls} {α : Type}

/-- A relation of a state to later ones, which includes whatever the interpreter does itself. -/
structure Enduring (K : State → State → Prop) : Prop where
  onward : ∀ {s s'}, Onward s s' → K s s'
  trans : ∀ {s s' s''}, K s s' → K s' s'' → K s s''

/-- Nested runs over which a relation holds. -/
structure Calls.Keep (K : State → State → Prop) (calls : Calls) : Prop where
  run : ∀ f s, K s (finalState (calls.run f s))
  invoke : ∀ callee args s, K s (finalState (calls.invoke callee args s))
  native : ∀ r args s, K s (finalState (calls.native r args s))

/-- Computations over which a relation holds if it does over their nested runs. -/
def Respects (K : State → State → Prop) : Conduct := fun _ x =>
  ∀ calls : Calls, calls.Keep K → ∀ s, K s (finalState (x calls s))

/-- What functions do that respect a relation and do not re-enter. -/
abbrev Respects.Alone (K : State → State → Prop) : Conduct := fun α x => AsksNatives α x ∧ Respects K α x

/-- A relation of a state to later ones that includes what the pieces of the interpreter do to it, and what is taken
hold of meanwhile. -/
structure Absorbing (K : State → State → Prop) : Prop where
  mild : ∀ {s s'}, Mild s s' → K s s'
  held : ∀ s held, K s ⟨s.store, { s.control with held }⟩
  trans : ∀ {s s' s''}, K s s' → K s' s'' → K s s''

namespace Absorbing

variable (absorbing : Absorbing K)
include absorbing

theorem refl (s : State) : K s s := absorbing.mild (.refl s)

/-- A relation that holds over the first part of a sequence and then over the rest holds over the sequence. -/
theorem bind {ε β : Type} {x : Exec ε α} {f : α → Exec ε β} (first : K s (finalState (x s)))
    (rest : ∀ a s', x s = .ok a s' → K s' (finalState (f a s'))) : K s (finalState ((x >>= f) s)) := by
  cases run : x s with
  | ok a s' =>
    rw [run] at first
    rw [bind_ok run]
    exact absorbing.trans first (rest a s' run)
  | error halt s' =>
    rw [run] at first
    rw [bind_error run]
    exact first

/-- What a computation holds is let go after it. -/
theorem holding {ε : Type} {x : Exec ε α} {h : Hold}
    (inner : K ⟨s.store, s.control.hold h⟩ (finalState (x ⟨s.store, s.control.hold h⟩))) :
    K s (finalState (x.holding h s)) := by
  rw [finalState_holding]
  exact absorbing.trans (absorbing.held s _) (absorbing.trans inner (absorbing.held _ _))

theorem composed {x : Calls → Exec RuntimeError α} (composed : Composed Mild (Respects K) x) (keep : calls.Keep K)
    (s : State) : K s (finalState (x calls s)) := by
  induction composed generalizing s with
  | plain mild => exact absorbing.mild (mild s)
  | host respects => exact respects calls keep s
  | native r args => exact keep.native r args s
  | attempt _ ih =>
    rw [finalState_attempt]
    exact ih s
  | holding h _ ih => exact absorbing.holding (ih _)
  | bind _ _ first rest => exact absorbing.bind (first s) fun a s' _ => rest a s'

theorem relays {inv : Prop} {x : Calls → Exec ScriptError α} (relays : Relays Mild (Respects K) inv x)
    (keep : calls.Keep K) (s : State) : K s (finalState (x calls s)) := by
  induction relays generalizing s with
  | plain mild _ => exact absorbing.mild (mild s)
  | located site composed =>
    rw [finalState_mapError]
    exact absorbing.composed composed keep s
  | enter find _ =>
    dsimp only
    cases find s with
    | error e => exact absorbing.refl s
    | ok site => exact keep.run _ s
  | invoke callee args _ => exact keep.invoke callee args s
  | holding h _ ih => exact absorbing.holding (ih _)
  | bind _ _ first rest => exact absorbing.bind (first s) fun a s' _ => rest a s'

end Absorbing

namespace Enduring

variable (enduring : Enduring K)
include enduring

theorem refl (s : State) : K s s := enduring.onward (.refl s)

/-- Changes of the control state alone that neither take back the end of a run nor the callbacks. -/
theorem ofControl {control : Control} (kept : s.control.terminated = true → control.terminated = true)
    (observed : s.control.isObserved = true → control.isObserved = true) : K s ⟨s.store, control⟩ :=
  enduring.onward (.ofControl kept observed)

theorem absorbing : Absorbing K :=
  ⟨fun mild => enduring.onward mild.onward, fun _ _ => enduring.ofControl id id, enduring.trans⟩

/-- A run or a call that a computation starts comes later. -/
theorem starts {inv : Prop} {x : Calls → Exec ScriptError α} (relays : Relays Mild (Respects.Alone K) inv x)
    (keep : calls.Keep K) {q : Request} (nested : ∀ r args, q ≠ .native r args)
    (starts : Starts (fun calls => x calls s) calls q t) : K s t := by
  induction relays generalizing s with
  | plain => exact absurd starts Starts.not_const
  | located site composed =>
    have asks := (composed.mono fun _ _ both => both.1).only_native
    obtain ⟨r, args, same⟩ := asks (starts.of_congr fun _ same => mapError_congr same)
    exact absurd same (nested r args)
  | enter find _ =>
    obtain ⟨_, _, _, _, _, rfl⟩ := starts.found
    exact enduring.refl _
  | invoke callee args _ =>
    obtain ⟨_, rfl⟩ := starts.invoke
    exact enduring.refl _
  | holding h _ ih =>
    have held : K s ⟨s.store, s.control.hold h⟩ := enduring.ofControl id id
    exact enduring.trans held (ih (starts.of_congr fun _ same => holding_congr same))
  | @bind α β x f firstly _ first rest =>
    rcases starts.bind_cases with starts | ⟨a, s', run, starts⟩
    · exact first starts
    · have before := enduring.absorbing.relays (firstly.mono fun _ _ both => both.2) keep s
      rw [run] at before
      exact enduring.trans before (rest a starts)

end Enduring

namespace Machine

variable {m m' : Machine} {host : Host}

/-- Answering an error takes nothing back. -/
theorem recover_onward (m : Machine) (e : ScriptError) : Onward m.state (finalState (recover e m)).state := by
  cases e with
  | runtime error =>
    cases regions : m.frame.handlers with
    | nil =>
      rw [recover_escape regions]
      rcases m.escape_cases error with ⟨_, same⟩ | ⟨_, same⟩
      · rw [same]
        exact .refl _
      · have refreshed := Calm.refreshCall.onward m
        rw [refreshCall_eq] at refreshed
        rw [same]
        refine refreshed.trans (.ofControl (fun ended => ?_) fun observed => ?_)
        · unfold Control.report
          split <;> exact ended
        · unfold Control.report
          split <;> exact observed
    | cons h outer =>
      rw [recover_handler m regions]
      split
      · exact .ofControl id id
      · exact .ofControl id id
  | _ => exact .refl _

variable (enduring : Enduring K) (within : host.Within (Respects K)) (keep : calls.Keep K)
include enduring within keep

theorem step_endures (i : Instruction) (m : Machine) : K m.state (finalState (step host calls i m)).state := by
  cases step_split within i m with
  | alone _ _ onward _ _ same => exact same calls ▸ enduring.onward onward
  | @delegated m₁ x prepared same =>
    rw [same calls]
    refine enduring.trans (enduring.onward prepared.readied.onward) ?_
    have delegated := enduring.absorbing.relays (prepared.relays.holding m₁.frame.hold) keep m₁.state
    have last (v : Value) : Calm (do
        push v
        Pure.pure Flow.next) := (Calm.push v).bind fun _ => .pure Flow.next
    unfold delegate
    cases run : (x calls).holding m₁.frame.hold m₁.state with
    | error halt s =>
      rw [run] at delegated
      rw [bind_error (onState_eq_error_iff.mpr ⟨s, run, rfl⟩)]
      exact delegated
    | ok v s =>
      rw [run] at delegated
      rw [bind_ok (onState_eq_ok_iff.mpr ⟨s, run, rfl⟩)]
      exact enduring.trans delegated (enduring.onward ((last v).onward ⟨m₁.frame, s⟩))

theorem turn_endures (m : Machine) : K m.state (Sum.elim id finalState (turn host calls m)).state := by
  unfold turn
  cases m.frame.procedure.code[m.frame.pc]? with
  | none => exact enduring.refl _
  | some i =>
    have stepped := step_endures enduring within keep i m
    dsimp only
    rcases run : step host calls i m with ⟨flow, m₁⟩ | ⟨halt, m₁⟩
    · rw [run] at stepped
      cases flow <;> exact stepped
    · rw [run] at stepped
      cases halt with
      | exhausted => exact stepped
      | failed error =>
        have recovered := enduring.onward (m₁.recover_onward error)
        dsimp only
        rcases answered : recover error m₁ with ⟨_, m₂⟩ | ⟨halt, m₂⟩
        all_goals
          rw [answered] at recovered
          exact enduring.trans stepped recovered

theorem ReachesIn.endures {n : Nat} (reached : ReachesIn host calls n m m') : K m.state m'.state := by
  induction reached with
  | refl => exact enduring.refl _
  | @turn n a b c here _ ih =>
    have turned := turn_endures enduring within keep a
    rw [here] at turned
    exact enduring.trans turned ih

theorem execute_endures (n : Nat) (m : Machine) : K m.state (finalState (execute host calls n m)).state := by
  rcases execute_cases host calls n m with ⟨m', reached, used⟩ | ⟨k, m', ending, _, reached, last, ended⟩
  · rw [used]
    exact reached.endures enduring within keep
  · rw [ended]
    have turned := turn_endures enduring within keep m'
    rw [last] at turned
    exact enduring.trans (reached.endures enduring within keep) turned

end Machine

section

variable {host : Host} (enduring : Enduring K) (within : host.Within (Respects K))
include enduring

/-- A call that is opened takes nothing back. -/
theorem Enduring.opened {c : Control} {call : CallRecord} (opened : s.control.openCall call = .ok c) :
    K s ⟨s.store, c⟩ := by
  obtain ⟨_, rfl⟩ := Control.openCall_eq_ok_iff.mp opened
  exact enduring.ofControl id id

include within

theorem Frame.run_endures (keep : calls.Keep K) (steps : Nat) (f : Frame) (s : State) :
    K s (finalState (f.run host calls steps s)) := by
  rw [Frame.run_eq]
  cases opened : s.control.openCall f.record with
  | error e => exact enduring.refl s
  | ok c =>
    have executed := Machine.execute_endures enduring within keep steps ⟨f, ⟨s.store, c⟩⟩
    have left (m : Machine) : K m.state (Frame.run.leave m.frame m.state) := enduring.ofControl id id
    dsimp only
    rcases run : Machine.execute host calls steps ⟨f, ⟨s.store, c⟩⟩ with ⟨v, m⟩ | ⟨halt, m⟩
    all_goals
      rw [run] at executed
      exact enduring.trans (enduring.opened opened) (enduring.trans executed (left m))

/-- However deep runs nest, what the functions of the host respect lasts through them. -/
theorem Calls.nested_keep (steps depth : Nat) : (Calls.nested host steps depth).Keep K := by
  induction depth with
  | zero => exact ⟨fun _ s => enduring.refl s, fun _ _ s => enduring.refl s, fun _ _ s => enduring.refl s⟩
  | succ depth ih =>
    refine ⟨Frame.run_endures enduring within ih steps, fun callee args => ?_, fun r args => ?_⟩
    · exact enduring.absorbing.relays (Invoke.value_relays within .host callee none args) ih
    · exact enduring.absorbing.composed (Invoke.native_composed within r args) ih

end

namespace Engine

variable {e : Engine} {op : Operation} {program : ProgramId} {levels : Nat} {waiting : List Machine} {m : Machine}
  {q : Request}

/-- What the functions of the host respect lasts through an operation. -/
theorem perform_endures (enduring : Enduring K) (within : e.host.Within (Respects K)) (op : Operation)
    (program : ProgramId) (s : State) : K s (finalState (op.perform e.calls program s)) :=
  enduring.absorbing.relays (op.perform_relays _ program) (Calls.nested_keep enduring within e.steps e.depth) s

/-- The states to which a host comes with operations, and with whatever else it does in between over which a relation
holds. -/
inductive Later (e : Engine) (K : State → State → Prop) (s : State) : State → Prop
  | here : Later e K s s
  | operation {t : State} (op : Operation) (program : ProgramId) :
    Later e K s t → Later e K s (finalState (op.perform e.calls program t))
  | between {t t' : State} : Later e K s t → K t t' → Later e K s t'

theorem Later.endures (enduring : Enduring K) (within : e.host.Within (Respects K)) (later : e.Later K s t) :
    K s t := by
  induction later with
  | here => exact enduring.refl s
  | operation op program _ ih => exact enduring.trans ih (perform_endures enduring within op program _)
  | between _ holds ih => exact enduring.trans ih holds

section

variable (enduring : Enduring K) (within : e.host.Within (Respects K))
include enduring within

theorem below_keep (levels : Nat) : (e.below levels).Keep K := Calls.nested_keep enduring within e.steps levels

theorem Comes.endures {f : Frame} (comes : e.Comes levels f s m) : K s m.state := by
  obtain ⟨c, k, opened, reached, _⟩ := comes
  exact enduring.trans (enduring.opened opened) (reached.endures enduring within (below_keep enduring within levels))

end

section

variable (enduring : Enduring K) (within : e.host.Within (Respects.Alone K))
include enduring within

/-- Until a run or a call is requested, what the functions of the host respect has lasted. -/
theorem Makes.endures (made : e.Makes (fun calls => op.perform calls program s) levels waiting q t)
    (nested : ∀ r args, q ≠ .native r args) : K s t := by
  have respects : e.host.Within (Respects K) := within.mono fun _ _ both => both.2
  have keep := below_keep enduring respects
  induction made with
  | host starts => exact enduring.starts (op.perform_relays _ program) (keep _) nested starts
  | @instruction levels ws f s₀ s' w i q _ comes _ starts ih =>
    obtain ⟨m', x, ready, relays, _, starts⟩ := Machine.step_starts_relayed within starts
    have later := enduring.starts (relays.holding m'.frame.hold) (keep _) nested starts
    exact enduring.trans (ih nofun)
      (enduring.trans (comes.endures enduring respects) (enduring.trans (enduring.onward ready.onward) later))
  | invoke _ starts ih =>
    exact enduring.trans (ih nofun) (enduring.starts (Invoke.value_relays within ..) (keep _) nested starts)
  | native _ starts _ =>
    have asks : e.host.Within AsksNatives := within.mono fun _ _ both => both.1
    obtain ⟨r, args, same⟩ := (Invoke.native_composed asks ..).only_native starts
    exact absurd same (nested r args)

/-- What the functions of the host respect has lasted whenever a machine is about to do a turn. -/
theorem Visits.endures (visits : e.Visits (fun calls => op.perform calls program s) levels waiting m) :
    K s m.state := by
  obtain ⟨f, t, made, comes⟩ := visits
  exact enduring.trans (made.endures enduring within nofun)
    (comes.endures enduring (within.mono fun _ _ both => both.2))

end

end Engine

end ScriptEngine
