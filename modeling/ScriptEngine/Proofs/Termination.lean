import ScriptEngine.Proofs.Enduring
import ScriptEngine.Proofs.Unwinding

/-! # The end of a run

A stop ends the run if the run is terminated already, or if the debugger is asked there and wants it terminated.
That error, like a broken invariant, is none that a region catches: every frame that is live fails with it where
it is, and nothing else happens until the host has it. A run that is terminated stays so in later operations until
the host takes it back, and no stop passes before.
-/

namespace ScriptEngine

variable {host : Host} {calls : Calls} {s s' t : State} {halt : Halt ScriptError}

namespace Machine

variable {m m' : Machine} {index : Nat} {lines : Lines}

/-- What the debugger answers if it is shown a machine at a stop. -/
def answerAt (m : Machine) (lines : Lines) : DebugAction :=
  let s := (m.placed (.ofLine lines.first)).refreshed
  (s.control.stop s.store).1

/-- A stop at which the run ends: it is terminated, or the debugger is asked and answers so. -/
def EndsAt (m : Machine) (index : Nat) (lines : Lines) : Prop :=
  m.state.control.terminated = true ∨ m.asksAt index = true ∧ m.answerAt lines = .terminate

instance : Decidable (m.EndsAt index lines) := inferInstanceAs (Decidable (_ ∨ _))

/-- Whether the next instruction is a stop at which the run ends. -/
def ends (m : Machine) : Bool :=
  match m.frame.procedure.code[m.frame.pc]? with
  | some (.stop index lines) => decide (m.EndsAt index lines)
  | _ => false

theorem ends_eq_true_iff :
    m.ends = true ↔ ∃ index lines, m.frame.procedure.code[m.frame.pc]? = some (.stop index lines) ∧
      m.EndsAt index lines := by
  unfold ends
  split
  · next index lines here =>
    rw [decide_eq_true_iff]
    refine ⟨fun ends => ⟨index, lines, here, ends⟩, ?_⟩
    rintro ⟨_, _, same, ends⟩
    cases here.symm.trans same
    exact ends
  · next other =>
    refine ⟨fun ends => absurd ends Bool.false_ne_true, ?_⟩
    rintro ⟨index, lines, here, -⟩
    exact absurd here (other index lines)

/-- A debugger that ends the run leaves it terminated. -/
theorem stop_terminates {c : Control} {store : Store} (ends : (c.stop store).1 = .terminate) :
    (c.stop store).2.terminated = true := by
  unfold Control.stop at ends ⊢
  cases found : c.debugger with
  | none =>
    simp only [found] at ends
    cases ends
  | some d =>
    simp only [found] at ends ⊢
    cases answered : d.answer c.stops c.stack <;> simp only [answered] at ends ⊢
    all_goals cases ends

/-- A stop ends the run or passes. Where it ends the run, the run is terminated from then on. -/
theorem passMarker_ends (m : Machine) (index : Nat) (lines : Lines) :
    (m.EndsAt index lines ∧ ∃ m', passMarker index lines m = .error (.failed .terminated) m' ∧
        m'.state.control.terminated = true) ∨
      (¬ m.EndsAt index lines ∧ ∃ m', passMarker index lines m = .ok () m') := by
  rw [passMarker_eq]
  by_cases ended : m.state.control.terminated = true
  · rw [if_pos ended]
    exact .inl ⟨.inl ended, m, rfl, ended⟩
  rw [if_neg ended]
  by_cases asked : m.asksAt index = true
  · rw [if_pos asked, interrupt_eq]
    by_cases ends : m.answerAt lines = .terminate
    · refine .inl ⟨.inr ⟨asked, ends⟩, ?_⟩
      unfold answerAt at ends
      rw [if_pos ends]
      exact ⟨_, rfl, stop_terminates ends⟩
    · refine .inr ⟨fun here => here.elim ended fun both => ends both.2, ?_⟩
      unfold answerAt at ends
      rw [if_neg ends]
      exact ⟨_, rfl⟩
  · rw [if_neg asked]
    exact .inr ⟨fun here => here.elim ended fun both => asked both.1, _, rfl⟩

end Machine

/-- The state when some frames, the latest first, are gone. -/
def State.without (s : State) (frames : List Frame) : State := frames.foldl (fun s f => Frame.run.leave f s) s

theorem Freed.trans {s'' : State} (first : Freed s s') (second : Freed s' s'') : Freed s s'' := by
  obtain ⟨held, rfl⟩ := first
  obtain ⟨held', rfl⟩ := second
  exact ⟨held', rfl⟩

theorem Freed.without (freed : Freed s s') (frames : List Frame) : Freed (s.without frames) (s'.without frames) := by
  induction frames generalizing s s' with
  | nil => exact freed
  | cons f frames ih =>
    obtain ⟨held, rfl⟩ := freed
    exact ih ⟨held, rfl⟩

/-- Frames that are gone take nothing back. -/
theorem State.without_terminated (s : State) (frames : List Frame) :
    (s.without frames).control.terminated = s.control.terminated := by
  induction frames generalizing s with
  | nil => rfl
  | cons f frames ih => exact ih (Frame.run.leave f s)

/-- The next turn of a machine is its last. It fails with an error where it is, and no region of its frame has
caught that. -/
def Machine.FailsWith (host : Host) (calls : Calls) (e : ScriptError) (m : Machine) : Prop :=
  ∃ m', Machine.turn host calls m = .inr (.error (.failed e) m') ∧ m'.frame.pc = m.frame.pc ∧
    m'.frame.handlers = m.frame.handlers

/-- If the instruction of a machine fails with an error that no region catches, so does the machine. -/
theorem Machine.failsWith_of_step {m m' : Machine} {i : Instruction} {error : ScriptError}
    (found : m.frame.procedure.code[m.frame.pc]? = some i)
    (failed : Machine.step host calls i m = .error (.failed error) m') (fatal : error.isRecoverable = false) :
    Machine.turn host calls m = .inr (.error (.failed error) m') ∧ m.FailsWith host calls error ∧
      Frame.run.leave m'.frame m'.state = Frame.run.leave m.frame m'.state := by
  have last := Machine.turn_escaped found failed (m'.recover_other fatal)
  have kept := step_failed failed
  refine ⟨last, ⟨m', last, kept.same.pc, kept.regions⟩, ?_⟩
  unfold Frame.run.leave
  rw [kept.regions]

namespace Engine

variable {e : Engine} {op : Operation} {program : ProgramId} {levels : Nat} {waiting : List Machine} {m : Machine}

/-- All frames that are live give up for an error: each machine fails with it where it is, whatever regions are
open, and so does the operation, in the state in which the error was raised but for the frames that are gone. -/
structure GivesUp (e : Engine) (op : Operation) (program : ProgramId) (s : State) (levels : Nat)
    (live : List Machine) (raised : State) (error : ScriptError) : Prop where
  machines : ∀ (k : Nat) (w : Machine), live[k]? = some w → w.FailsWith e.host (e.below (levels + k)) error
  operation : ∃ s', op.perform e.calls program s = .error (.failed error) s' ∧
    Freed (raised.without (live.map Machine.frame)) s'

/-- An error that no region catches goes all the way out. -/
theorem Visits.givesUp (within : e.host.Within AsksNatives) {i : Instruction} {m' : Machine} {error : ScriptError}
    (visits : e.Visits (fun calls => op.perform calls program s) levels waiting m)
    (found : m.frame.procedure.code[m.frame.pc]? = some i)
    (failed : Machine.step e.host (e.below levels) i m = .error (.failed error) m')
    (fatal : error.isRecoverable = false) : e.GivesUp op program s levels (m :: waiting) m'.state error := by
  induction waiting generalizing levels m m' i with
  | nil =>
    obtain ⟨last, fails, left⟩ := Machine.failsWith_of_step found failed fatal
    obtain ⟨f, t, made, comes⟩ := visits
    obtain ⟨s', performed, freed⟩ := (made.hands_on within (comes.run_eq last)).1 rfl
    rw [left] at freed
    refine ⟨fun k w live => ?_, s', performed, freed⟩
    cases k with
    | zero =>
      cases live
      exact fails
    | succ k => cases live
  | cons w ws ih =>
    obtain ⟨last, fails, left⟩ := Machine.failsWith_of_step found failed fatal
    obtain ⟨outside, j, w', next, failed', freed⟩ := visits.hands_on within last
    obtain ⟨machines, s', performed, gone⟩ := ih outside next failed'
    rw [left] at freed
    refine ⟨fun k n live => ?_, s', performed, (freed.without _).trans gone⟩
    cases k with
    | zero =>
      cases live
      exact fails
    | succ k =>
      have deeper : levels + (k + 1) = levels + 1 + k := by omega
      rw [deeper]
      exact machines k n live

end Engine

/-- A run that is terminated in a state is so in a later one. -/
def StaysTerminated (s s' : State) : Prop := s.control.terminated = true → s'.control.terminated = true

theorem StaysTerminated.enduring : Enduring StaysTerminated :=
  ⟨fun onward => onward.terminated, fun first second ended => second (first ended)⟩

/-- A host whose functions do not take back that a run is terminated. -/
def Host.KeepsTerminated (host : Host) : Prop := host.Within (Respects StaysTerminated)

namespace Engine

variable {e : Engine}

/-- No stop passes in an operation on a terminated state. -/
def NoStopPasses (e : Engine) (s : State) : Prop :=
  ∀ (op : Operation) (program : ProgramId) (levels : Nat) (waiting : List Machine) (m : Machine) (index : Nat)
    (lines : Lines), e.Visits (fun calls => op.perform calls program s) levels waiting m →
    m.frame.procedure.code[m.frame.pc]? = some (.stop index lines) →
    ∃ m', Machine.step e.host (e.below levels) (.stop index lines) m = .error (.failed .terminated) m'

theorem noStopPasses (never : e.host.NeverReenters) (keeps : e.host.KeepsTerminated)
    (ended : s.control.terminated = true) : e.NoStopPasses s := by
  intro op program levels waiting m index lines visits found
  have still := visits.endures StaysTerminated.enduring (never.asksNatives.and keeps) ended
  rcases m.passMarker_ends index lines with ⟨_, m', failed, _⟩ | ⟨goesOn, _⟩
  · exact ⟨m', bind_error failed⟩
  · exact absurd (.inl still) goesOn

/-- A stop ends the run exactly if the run is terminated or the debugger wants it so. Then, and whenever an
invariant is broken, no region catches the error: every live frame fails with it where it is, and so does the
operation, which changes nothing more. After a stop that ends the run no stop passes in later operations, until
the host takes back that the run is terminated. -/
theorem fatal_error_ends_operation (never : e.host.NeverReenters) (op : Operation) (program : ProgramId) {s : State}
    {levels : Nat} {waiting : List Machine} {m : Machine} {i : Instruction}
    (visits : e.Visits (fun calls => op.perform calls program s) levels waiting m)
    (found : m.frame.procedure.code[m.frame.pc]? = some i) :
    (∀ error m', Machine.step e.host (e.below levels) i m = .error (.failed error) m' → error.isRecoverable = false →
      e.GivesUp op program s levels (m :: waiting) m'.state error) ∧
    ∀ index lines, i = .stop index lines →
      (m.EndsAt index lines → ∃ m', Machine.step e.host (e.below levels) i m = .error (.failed .terminated) m' ∧
        e.GivesUp op program s levels (m :: waiting) m'.state .terminated ∧
        (e.host.KeepsTerminated →
          ∀ t, e.Later StaysTerminated (finalState (op.perform e.calls program s)) t → e.NoStopPasses t)) ∧
      (¬ m.EndsAt index lines → ∃ m', Machine.step e.host (e.below levels) i m = .ok .next m') := by
  refine ⟨fun error m' failed fatal => visits.givesUp never.asksNatives found failed fatal, ?_⟩
  rintro index lines rfl
  rcases m.passMarker_ends index lines with ⟨ends, m', failed, ended⟩ | ⟨goesOn, m', passed⟩
  · have stopped : Machine.step e.host (e.below levels) (.stop index lines) m = .error (.failed .terminated) m' :=
      bind_error failed
    have givesUp := visits.givesUp never.asksNatives found stopped rfl
    refine ⟨fun _ => ⟨m', stopped, givesUp, fun keeps t later => ?_⟩, fun goesOn => absurd ends goesOn⟩
    obtain ⟨s', performed, held, rfl⟩ := givesUp.operation
    rw [performed] at later
    have here := (m'.state.without_terminated ((m :: waiting).map Machine.frame)).trans ended
    exact noStopPasses never keeps (later.endures StaysTerminated.enduring keeps here)
  · exact ⟨fun ends => absurd ends goesOn, fun _ => ⟨m', bind_ok passed⟩⟩

end Engine

theorem Host.none_neverReenters : Host.none.NeverReenters :=
  ⟨fun _ _ _ _ _ _ => rfl, fun _ _ _ _ _ _ _ => rfl, fun _ _ _ _ _ _ _ => rfl, fun _ _ _ _ _ _ => rfl,
    fun _ _ _ _ _ _ => rfl⟩

theorem Host.none_keepsTerminated : Host.none.KeepsTerminated :=
  ⟨fun _ _ _ _ _ _ => id, fun _ _ _ _ _ _ _ => id, fun _ _ _ _ _ _ _ => id, fun _ _ _ _ _ _ => id,
    fun _ _ _ _ _ _ => id⟩

/-- A text with a function that has a stop in a guarded region. -/
def guardedStop : String := "def f() \x7b try \x7b return 1; \x7d catch : e \x7b return 2; \x7d \x7d"

/-- The state in which that text is loaded, with a debugger that steps once and then ends the run. -/
def guardedStopLoaded : State :=
  ⟨(Store.empty.addProgram (.ofSource guardedStop "demo" ⟨0, true⟩)).2,
    { Control.start.attach ⟨fun stops _ => if stops = 0 then .step else .terminate⟩ with stepMode := true }⟩

/-- The debugger ends the run in the region, which does not catch that, and no stop passes afterwards. -/
theorem Engine.guardedStop_ends :
    ∃ m index lines, (Engine.mk .none 2 100).Visits
        (fun calls => (Operation.invoke (.procedure ⟨0, 0⟩) []).perform calls 0 guardedStopLoaded) 0 [] m ∧
      m.frame.procedure.code[m.frame.pc]? = some (.stop index lines) ∧ m.EndsAt index lines ∧
      m.frame.handlers ≠ [] ∧ Host.none.NeverReenters ∧ Host.none.KeepsTerminated ∧
      (∃ raised, (Engine.mk .none 2 100).GivesUp (.invoke (.procedure ⟨0, 0⟩) []) 0 guardedStopLoaded 0 [m] raised
        .terminated) ∧
      (Engine.mk .none 2 100).NoStopPasses (finalState
        ((Operation.invoke (.procedure ⟨0, 0⟩) []).perform (Engine.mk .none 2 100).calls 0 guardedStopLoaded)) := by
  let s := guardedStopLoaded
  let t : State := ⟨s.store, s.control.hold (.ofValues [.procedure ⟨0, 0⟩])⟩
  have unbound : (t.store.procedure ⟨0, 0⟩).params = [] := List.isEmpty_iff.mp (by decide +kernel)
  have found : Invoke.found .host ⟨0, 0⟩ none [] t = .ok (⟨0, 0⟩, 0, .procedure .empty) := by
    unfold Invoke.found
    rw [unbound, if_neg (by decide +kernel)]
    rfl
  have made := Makes.call_procedure (e := ⟨.none, 2, 100⟩) (s := s) 0 rfl rfl found
  let entered := Frame.enter t (t.store.procedure ⟨0, 0⟩) 0 (.procedure .empty)
  let called := { t.control with callStack := t.control.callStack.push entered.record }
  have opened : t.control.openCall entered.record = .ok called :=
    Control.openCall_eq_ok_iff.mpr ⟨by decide +kernel, rfl⟩
  have checked : ((Machine.after .none ((Engine.mk .none 2 100).below 0) 2 ⟨entered, t.store, called⟩).any
      fun (m : Machine) => !m.frame.handlers.isEmpty && m.ends) = true := by
    decide +kernel
  obtain ⟨m, reached, both⟩ := (Option.any_eq_true _ _).mp checked
  obtain ⟨region, atEnd⟩ := Bool.and_eq_true_iff.mp both
  obtain ⟨index, lines, here, ends⟩ := Machine.ends_eq_true_iff.mp atEnd
  have visits : (Engine.mk .none 2 100).Visits
      (fun calls => (Operation.invoke (.procedure ⟨0, 0⟩) []).perform calls 0 guardedStopLoaded) 0 [] m :=
    ⟨entered, t, made, called, 2, opened, Machine.reachesIn_of_after reached, by decide⟩
  obtain ⟨m', _, givesUp, afterwards⟩ := ((Engine.fatal_error_ends_operation Host.none_neverReenters
    (.invoke (.procedure ⟨0, 0⟩) []) 0 visits here).2 index lines rfl).1 ends
  exact ⟨m, index, lines, visits, here, ends, by simpa using region, Host.none_neverReenters,
    Host.none_keepsTerminated, ⟨m'.state, givesUp⟩, afterwards Host.none_keepsTerminated _ .here⟩

/-- A debugger ends the run in a function that was called in a guarded region of another. -/
example :
    let text := "def f() \x7b return 1; \x7d def g() \x7b try \x7b return f(); \x7d catch : e \x7b return 2; \x7d \x7d"
    let s : State := ⟨(Store.empty.addProgram (.ofSource text "demo" ⟨0, true⟩)).2,
      { Control.start.attach ⟨fun _ stack => if stack.length = 2 then .terminate else .step⟩ with stepMode := true }⟩
    (match (Operation.callMember "g" []).perform (Engine.mk .none 3 100).calls 0 s with
      | .error (.failed .terminated) s' => s'.control.terminated && s'.control.callStack.height == 0
      | _ => false) = true := by
  decide +kernel

end ScriptEngine
