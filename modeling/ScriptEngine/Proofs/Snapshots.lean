import ScriptEngine.Proofs.Enduring

/-! # What callbacks see of the call stack

An entry of the call stack is brought up to date when its frame calls something, and when the frame shows the stack
to the host. So a callback sees the frame that shows the stack as it is, and those that wait as they were when they
made their calls. That is as they are, too, as far as their variables are their own; only the members that waiting
top-level code shows may have changed since.
-/

namespace ScriptEngine

namespace Frame

variable {f : Frame} {s : Store}

/-- The line of a frame with its next instruction. -/
def line (f : Frame) : Nat :=
  (f.procedure.code[f.pc]?.elim f.place (Instruction.placeFrom f.place)).line

/-- The entry of the call stack for a frame as it is. -/
def entry (f : Frame) (s : Store) : CallRecord := ⟨f.procedure.name, f.file, f.line, f.visible s⟩

theorem line_eq {i : Instruction} (found : f.procedure.code[f.pc]? = some i) :
    f.line = (i.placeFrom f.place).line := by
  rw [line, found]
  rfl

/-- The variables that are visible are the frame's own but for those that the compiler made up, and for top-level
code the members of its program. -/
theorem mem_visible_iff {entry : String × Value} :
    entry ∈ f.visible s ↔ match f.locals with
      | .procedure table => entry ∈ table.entries ∧ isHidden entry.1 = false
      | .topLevel _ => entry ∈ (s.program f.program).members.entries := by
  unfold visible
  cases f.locals <;> simp [Table.sorted]

/-- They are sorted by name. -/
theorem visible_sorted (f : Frame) (s : Store) : (f.visible s).Pairwise fun a b => a.1 ≤ b.1 := by
  have sorted (t : Bindings) : t.sorted.Pairwise fun a b => a.1 ≤ b.1 := by
    refine (List.pairwise_mergeSort ?_ ?_ t.entries).imp fun le => by simpa using le
    · intro a b c first second
      simp only [decide_eq_true_eq] at first second ⊢
      exact String.le_trans first second
    · intro a b
      simp only [← Bool.decide_or, decide_eq_true_eq]
      exact String.le_total a.1 b.1
  unfold visible
  cases f.locals with
  | procedure table => exact (sorted table).filter _
  | topLevel _ => exact sorted _

/-- What others do to the store changes nothing in the entry of a procedure's frame. -/
theorem entry_procedure {table : Bindings} (own : f.locals = .procedure table) (s s' : Store) :
    f.entry s = f.entry s' := by
  unfold entry visible
  rw [own]

/-- The entry of top-level code stays the same as long as the members of its program do. -/
theorem entry_of_members {s' : Store} (same : (s'.program f.program).members = (s.program f.program).members) :
    f.entry s' = f.entry s := by
  unfold entry visible
  rw [same]

end Frame

/-- The host still looks at the run if it did. -/
def StaysObserved (s s' : State) : Prop := s.control.isObserved = true → s'.control.isObserved = true

theorem StaysObserved.enduring : Enduring StaysObserved :=
  ⟨fun onward => onward.observed, fun first second observed => second (first observed)⟩

namespace Machine

variable {m m₁ m' : Machine} {host : Host} {calls : Calls}

/-- The entry for a machine as it is. -/
def entry (m : Machine) : CallRecord := m.frame.entry m.state.store

/-- An entry that is brought up to date shows the place and the variables of its frame. -/
theorem refreshed_items (observed : m.state.control.isObserved = true) {call : CallRecord} {rest : List CallRecord}
    (here : m.state.control.callStack.items = call :: rest) :
    m.refreshed.control.callStack.items =
      ⟨call.function, call.file, m.frame.place.line, m.frame.visible m.state.store⟩ :: rest := by
  unfold refreshed
  rw [if_pos observed]
  obtain ⟨f, ⟨store, control⟩⟩ := m
  obtain ⟨⟨items, height, same⟩, _⟩ := control
  dsimp only at here
  subst here
  rfl

/-- An instruction that starts the run of a frame has brought the entry of its own up to date. -/
theorem step_starts_run (polite : host.IsPolite False) {i : Instruction} {f : Frame} {s : State}
    (starts : Starts (fun calls => step host calls i m) calls (.run f) s) :
    ∃ (m₁ : Machine) (x : Calls → Exec ScriptError Value), Readied m m₁ ∧ m₁.state = m.state ∧
      m₁.frame.place = i.placeFrom m.frame.place ∧ Delegates False False x ∧
      Starts (fun calls => (x calls).holding m₁.frame.hold m₁.refreshed) calls (.run f) s := by
  obtain ⟨m', x, prepared, _, starts⟩ := step_starts_prepared polite.within starts
  cases prepared with
  | access site _ composed =>
    obtain ⟨_, _, ⟨⟩⟩ := (composed.mono fun _ _ consults => consults.only_native).only_native
      (starts.of_congr fun _ same => holding_congr (mapError_congr same))
  | call ready state place relays => exact ⟨_, x, ready, state, place, relays.delegates, starts⟩

end Machine

namespace Engine

variable {e : Engine} {op : Operation} {program : ProgramId} {levels : Nat} {waiting : List Machine} {m : Machine}
  {s t : State} {q : Request} {f : Frame}

section

variable (polite : e.host.IsPolite False)
include polite

/-- While a frame runs, its entry stands above those of the frames that wait. -/
theorem Comes.items (comes : e.Comes levels f t m) :
    ∃ call, call.function = m.frame.procedure.name ∧ call.file = m.frame.file ∧
      m.state.control.callStack.items = call :: t.control.callStack.items := by
  obtain ⟨c, k, opened, reached, _⟩ := comes
  obtain ⟨_, rfl⟩ := Control.openCall_eq_ok_iff.mp opened
  have steady := reached.steady (below_books polite levels) polite
  obtain ⟨call, here, function, file⟩ := steady.calls f.record t.control.callStack.items rfl
  refine ⟨call, ?_, ?_, here⟩
  · rw [function, steady.procedure]
    rfl
  · rw [file, steady.file]
    rfl

variable (observing : e.host.Within (Respects.Alone StaysObserved)) (idle : s.control.callStack = .empty)
  (observed : s.control.isObserved = true)
include observing idle observed

/-- The entries of the frames that wait are as they were when they made their calls. -/
theorem Makes.items (made : e.Makes (fun calls => op.perform calls program s) levels waiting q t)
    (nested : ∀ r args, q ≠ .native r args) : t.control.callStack.items = waiting.map Machine.entry := by
  have guides (levels : Nat) := e.below_books polite levels
  induction made with
  | host starts =>
    obtain ⟨same, _⟩ := (op.perform_delegates False program).starts_on (guides _) Trail.books_answered starts
    rw [same.callStack, idle]
    rfl
  | @instruction levels ws f s₀ s' w i q made comes found starts ih =>
    cases q with
    | native r args => exact absurd rfl (nested r args)
    | invoke callee args =>
      obtain ⟨_, _, _, relays, _, starts⟩ := Machine.step_starts_relayed polite.asksNatives starts
      exact absurd starts (relays.holding _).never_invokes
    | run g =>
      obtain ⟨m₁, x, ready, state, place, delegates, starts⟩ := Machine.step_starts_run polite starts
      obtain ⟨same, _⟩ := (delegates.holding m₁.frame.hold).starts_on (guides _) Trail.books_answered starts
      obtain ⟨call, function, file, items⟩ := comes.items polite
      have watched : w.state.control.isObserved = true :=
        Visits.endures StaysObserved.enduring observing ⟨f, s₀, made, comes⟩ observed
      have visible : m₁.frame.visible w.state.store = w.frame.visible w.state.store := by
        unfold Frame.visible
        rw [ready.locals, ready.same.program]
      rw [same.callStack, Machine.refreshed_items (by rw [state]; exact watched) (by rw [state]; exact items),
        ih nofun, List.map_cons, Machine.entry, Frame.entry, Frame.line_eq found, function, file, place, state, visible]
  | invoke _ starts ih =>
    obtain ⟨same, _⟩ := (Invoke.value_delegates polite ..).starts_on (guides _) Trail.books_answered starts
    rw [same.callStack, ih nofun]
  | native _ starts _ =>
    obtain ⟨r, args, same⟩ := (Invoke.native_composed polite.asksNatives ..).only_native starts
    exact absurd same (nested r args)

/-- The same while a frame runs. -/
theorem Visits.items (visits : e.Visits (fun calls => op.perform calls program s) levels waiting m) :
    m.state.control.isObserved = true ∧
      ∃ call, call.function = m.frame.procedure.name ∧ call.file = m.frame.file ∧
        m.state.control.callStack.items = call :: waiting.map Machine.entry := by
  refine ⟨visits.endures StaysObserved.enduring observing observed, ?_⟩
  obtain ⟨f, t, made, comes⟩ := visits
  rw [← made.items polite observing idle observed nofun]
  exact comes.items polite

end

end Engine

end ScriptEngine
