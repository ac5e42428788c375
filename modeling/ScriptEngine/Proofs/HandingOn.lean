import ScriptEngine.Proofs.Accounts

/-! # Handing on errors

A host whose functions do not re-enter the interpreter leaves the machines that are live waiting for one another:
each waits for a run that its instruction started. What such a run fails with, the instruction fails with, and
so on outward, as long as nobody catches it; from the outermost run it goes to the host.
-/

namespace ScriptEngine

variable {s t : State} {halt : Halt ScriptError}

/-- A host whose functions do not run anything of the interpreter but native functions. What else they do is up to
them: they may change the state in any way. -/
def Host.NeverReenters (host : Host) : Prop :=
  host.Within fun _ x => ∀ calls other : Calls, calls.native = other.native → x calls = x other

theorem Host.NeverReenters.asksNatives {host : Host} (never : host.NeverReenters) : host.Within AsksNatives :=
  never.mono fun _ _ congr => AsksNatives.of_congr congr

/-- Functions that leave the books alone and may not re-enter the interpreter do not. -/
theorem Consults.congr {α : Type} {x : Calls → Exec RuntimeError α} (consults : Consults False x) {calls other : Calls}
    (same : calls.native = other.native) : x calls = x other := by
  induction consults with
  | plain => rfl
  | native r args => exact congrFun (congrFun same r) args
  | invoke _ _ may => exact may.elim
  | attempt _ ih => exact congrArg Exec.attempt ih
  | holding h _ ih => exact congrArg (Exec.holding h) ih
  | bind _ _ first rest => exact congrArg₂ Bind.bind first (funext rest)

theorem Host.IsPolite.neverReenters {host : Host} (polite : host.IsPolite False) : host.NeverReenters :=
  polite.within.mono fun _ _ consults _ _ same => consults.congr same

theorem Host.IsPolite.asksNatives {host : Host} (polite : host.IsPolite False) : host.Within AsksNatives :=
  polite.neverReenters.asksNatives

/-- What the computation of an instruction waits for the instruction starts. -/
theorem Machine.delegate_starts {host : Host} {calls : Calls} {i : Instruction} {m m' : Machine}
    {x : Calls → Exec ScriptError Value} {q : Request} (same : ∀ calls, step host calls i m = delegate (x calls) m')
    (waits : Waits (fun calls => (x calls).holding m'.frame.hold) m'.state calls q t)
    (nested : ∀ r args, q ≠ .native r args) : Starts (fun calls => step host calls i m) calls q t := by
  have stops (halt : Halt ScriptError) : ∃ m₁, step host (calls.failingAt q t halt) i m = .error halt m₁ := by
    obtain ⟨s₁, here⟩ := waits.fails nested halt
    exact ⟨_, (same _).trans (bind_error (onState_eq_error_iff.mpr ⟨s₁, here, rfl⟩))⟩
  obtain ⟨_, first⟩ := stops .exhausted
  obtain ⟨_, second⟩ := stops (.failed .terminated)
  refine Starts.of_failingAt fun alike => ?_
  rw [first, second] at alike
  cases alike

namespace Engine

variable {e : Engine} {op : Operation} {program : ProgramId} {levels : Nat} {waiting : List Machine} {m w : Machine}
  {f : Frame}

section

variable (within : e.host.Within AsksNatives)
include within

/-- Only the operation itself asks for the call of a value. -/
theorem Makes.invoke_cases {callee : Value} {args : Arguments}
    (made : e.Makes (fun calls => op.perform calls program s) levels waiting (.invoke callee args) t) :
    waiting = [] ∧ levels = e.depth ∧
      Starts (fun calls => op.perform calls program s) e.calls (.invoke callee args) t := by
  cases made with
  | host starts => exact ⟨rfl, rfl, starts⟩
  | instruction _ _ _ starts =>
    obtain ⟨m', x, _, relays, _, starts⟩ := Machine.step_starts_relayed within starts
    exact absurd starts (relays.holding _).never_invokes
  | invoke _ starts => exact absurd starts (Invoke.value_relays within ..).never_invokes
  | native _ starts =>
    obtain ⟨_, _, ⟨⟩⟩ := (Invoke.native_composed within ..).only_native starts

/-- What the run of a frame that is asked for fails with, whoever waits for it fails with. -/
theorem Makes.hands_on {t' : State} (made : e.Makes (fun calls => op.perform calls program s) levels waiting (.run f) t)
    (failed : (e.below levels).run f t = .error halt t') :
    (waiting = [] → ∃ s', op.perform e.calls program s = .error halt s' ∧ Freed t' s') ∧
      ∀ w ws, waiting = w :: ws → e.Visits (fun calls => op.perform calls program s) levels ws w ∧
        ∃ i w', w.frame.procedure.code[w.frame.pc]? = some i ∧
          Machine.step e.host (e.below levels) i w = .error halt w' ∧ Freed t' w'.state := by
  have agree (calls : Calls) (G : Request → State → Prop) : calls.AgreeWhere G calls :=
    ⟨fun _ _ _ => rfl, fun _ _ _ _ => rfl, fun _ _ _ _ => rfl⟩
  cases made with
  | host starts =>
    have waits := (op.perform_relays AsksNatives program).waits starts
    exact ⟨fun _ => waits e.calls (agree ..) halt t' (.run failed), by rintro _ _ ⟨⟩⟩
  | @instruction _ ws g s₀ _ w i _ made comes found starts =>
    obtain ⟨m', x, _, relays, same, starts⟩ := Machine.step_starts_relayed within starts
    obtain ⟨s₃, held, freed⟩ := (relays.holding m'.frame.hold).waits starts (e.below levels) (agree ..) halt t'
      (.run failed)
    refine ⟨by rintro ⟨⟩, ?_⟩
    rintro w ws ⟨⟩
    refine ⟨⟨g, s₀, made, comes⟩, i, ⟨m'.frame, s₃⟩, found, ?_, freed⟩
    rw [same]
    exact bind_error (Machine.onState_eq_error_iff.mpr ⟨s₃, held, rfl⟩)
  | @invoke _ _ callee args s₀ _ _ made starts =>
    obtain ⟨rfl, deepest, asked⟩ := made.invoke_cases within
    obtain ⟨s₁, called, freed⟩ := (Invoke.value_relays within ..).waits starts (e.below levels)
      (agree ..) halt t' (.run failed)
    have invoked : e.calls.invoke callee args s₀ = .error halt s₁ := by
      rw [Engine.calls, ← deepest]
      exact called
    obtain ⟨s', performed, freed'⟩ := (op.perform_relays AsksNatives program).waits asked e.calls (agree ..) halt s₁
      (.invoke invoked)
    refine ⟨fun _ => ⟨s', performed, ?_⟩, by rintro _ _ ⟨⟩⟩
    obtain ⟨held, rfl⟩ := freed
    obtain ⟨held', rfl⟩ := freed'
    exact ⟨held', rfl⟩
  | native _ starts =>
    obtain ⟨_, _, ⟨⟩⟩ := (Invoke.native_composed within ..).only_native starts

omit within in
/-- How the run of a frame ends if a machine in it has its last turn. -/
theorem Comes.run_eq {m' : Machine} (comes : e.Comes levels f t m)
    (last : Machine.turn e.host (e.below levels) m = .inr (.error halt m')) :
    (e.below (levels + 1)).run f t = .error halt (Frame.run.leave m'.frame m'.state) := by
  obtain ⟨c, k, opened, reached, less⟩ := comes
  have ended : Machine.execute e.host (e.below levels) e.steps ⟨f, { t with control := c }⟩ = .error halt m' := by
    obtain ⟨n, enough⟩ : ∃ n, e.steps = k + (n + 1) := ⟨e.steps - k - 1, by omega⟩
    rw [enough, reached.execute_add, Machine.execute_succ, last]
  change f.run e.host (e.below levels) e.steps t = _
  rw [Frame.run_eq, opened]
  dsimp only
  rw [ended]

/-- An error that no region of its frame catches goes on to the machine that waits. -/
theorem Visits.hands_on {ws : List Machine} {m' : Machine}
    (visits : e.Visits (fun calls => op.perform calls program s) levels (w :: ws) m)
    (last : Machine.turn e.host (e.below levels) m = .inr (.error halt m')) :
    e.Visits (fun calls => op.perform calls program s) (levels + 1) ws w ∧
      ∃ i w', w.frame.procedure.code[w.frame.pc]? = some i ∧
        Machine.step e.host (e.below (levels + 1)) i w = .error halt w' ∧
        Freed (Frame.run.leave m'.frame m'.state) w'.state := by
  obtain ⟨f, t, made, comes⟩ := visits
  exact (made.hands_on within (comes.run_eq last)).2 w ws rfl

end

end Engine

end ScriptEngine
