import ScriptEngine.Proofs.Steps

/-! # Turns of a machine

One round of executing: an instruction, and what follows from how it ended. A run is a sequence of turns, and
what the bound on its length leaves of it is either all of the run or a machine that could go on.
-/

namespace ScriptEngine

/-- A frame of a procedure before its first instruction. -/
structure Frame.IsFresh (f : Frame) (p : Procedure) : Prop where
  procedure : f.procedure = p
  stack : f.stack = .empty
  handlers : f.handlers = []
  pc : f.pc = 0

namespace Machine

variable (host : Host) (calls : Calls)

/-- How a run ends. -/
abbrev Ending := EStateM.Result (Halt ScriptError) Machine Value

/-- The machine after one more instruction, or the end of the run. -/
def turn (m : Machine) : Machine ⊕ Ending :=
  match m.frame.procedure.code[m.frame.pc]? with
  | none => .inr (.ok .null m)
  | some instruction =>
    match step host calls instruction m with
    | .ok .next m => .inl ⟨{ m.frame with pc := m.frame.pc + 1 }, m.state⟩
    | .ok (.jump target) m => .inl ⟨{ m.frame with pc := target }, m.state⟩
    | .ok (.leave v) m => .inr (.ok v m)
    | .error (.failed error) m =>
      match recover error m with
      | .ok () m => .inl m
      | .error halt m => .inr (.error halt m)
    | .error .exhausted m => .inr (.error .exhausted m)

theorem execute_succ (n : Nat) (m : Machine) :
    execute host calls (n + 1) m = match turn host calls m with
      | .inl m => execute host calls n m
      | .inr ending => ending := by
  unfold turn
  rw [execute]
  cases m.frame.procedure.code[m.frame.pc]? with
  | none => rfl
  | some instruction =>
    dsimp only
    rcases step host calls instruction m with ⟨flow, m'⟩ | ⟨halt, m'⟩
    · cases flow <;> rfl
    · cases halt with
      | exhausted => rfl
      | failed error =>
        dsimp only
        rcases recover error m' with ⟨_, m''⟩ | ⟨halt, m''⟩ <;> rfl

/-- So many turns lead from one machine to another. -/
inductive ReachesIn : Nat → Machine → Machine → Prop
  | refl (m : Machine) : ReachesIn 0 m m
  | turn {n : Nat} {m m' m'' : Machine} :
    turn host calls m = .inl m' → ReachesIn n m' m'' → ReachesIn (n + 1) m m''

/-- Some number of turns leads from one machine to another. -/
def Reaches (m m' : Machine) : Prop := ∃ n, ReachesIn host calls n m m'

variable {host : Host} {calls : Calls} {m m' m'' : Machine} {k n : Nat}

theorem ReachesIn.trans (first : ReachesIn host calls k m m') (second : ReachesIn host calls n m' m'') :
    ReachesIn host calls (k + n) m m'' := by
  induction first with
  | refl => simpa using second
  | turn here _ ih =>
    rw [Nat.add_right_comm]
    exact .turn here (ih second)

theorem ReachesIn.snoc (first : ReachesIn host calls n m m') (last : Machine.turn host calls m' = .inl m'') :
    ReachesIn host calls (n + 1) m m'' :=
  first.trans (.turn last (.refl _))

/-- What runs so many turns further has as many turns less to go. -/
theorem ReachesIn.execute_add (first : ReachesIn host calls k m m') (n : Nat) :
    execute host calls (k + n) m = execute host calls n m' := by
  induction first with
  | refl => rw [Nat.zero_add]
  | turn here _ ih =>
    rw [Nat.add_right_comm, execute_succ, here]
    exact ih

theorem Reaches.refl (m : Machine) : Reaches host calls m m := ⟨0, .refl m⟩

theorem Reaches.trans (first : Reaches host calls m m') (second : Reaches host calls m' m'') :
    Reaches host calls m m'' := by
  obtain ⟨k, first⟩ := first
  obtain ⟨n, second⟩ := second
  exact ⟨k + n, first.trans second⟩

theorem Reaches.snoc (first : Reaches host calls m m') (last : turn host calls m' = .inl m'') :
    Reaches host calls m m'' := by
  obtain ⟨n, first⟩ := first
  exact ⟨n + 1, first.snoc last⟩

/-- A bounded run is used up after that many turns, or it ends as the last of fewer turns says. -/
theorem execute_cases (host : Host) (calls : Calls) (n : Nat) (m : Machine) :
    (∃ m', ReachesIn host calls n m m' ∧ execute host calls n m = .error .exhausted m') ∨
      ∃ k m' ending, k < n ∧ ReachesIn host calls k m m' ∧ turn host calls m' = .inr ending ∧
        execute host calls n m = ending := by
  induction n generalizing m with
  | zero => exact .inl ⟨m, .refl m, rfl⟩
  | succ n ih =>
    rw [execute_succ]
    cases here : turn host calls m with
    | inr ending => exact .inr ⟨0, m, ending, by omega, .refl m, here, rfl⟩
    | inl m' =>
      rcases ih m' with ⟨m'', reached, used⟩ | ⟨k, m'', ending, less, reached, last, ended⟩
      · exact .inl ⟨m'', .turn here reached, used⟩
      · exact .inr ⟨k + 1, m'', ending, by omega, .turn here reached, last, ended⟩

/-- What a property of machines that no turn breaks comes to over a whole run. -/
theorem Reaches.invariant {I : Machine → Prop} (reached : Reaches host calls m m')
    (initially : I m) (kept : ∀ a b, I a → turn host calls a = .inl b → I b) : I m' := by
  obtain ⟨n, reached⟩ := reached
  induction reached with
  | refl => exact initially
  | turn here _ ih => exact ih (kept _ _ initially here)

end Machine

end ScriptEngine
