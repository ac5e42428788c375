import ScriptEngine.Proofs.Preservation
import ScriptEngine.Proofs.Room
import ScriptEngine.Proofs.WellFormed

/-! # Outcomes of procedures

How the run of a procedure ends, on a machine and by its tree, and that the two are the same. A machine ends
where its tree ends; conversely a machine that ends does so in fewer turns than its loops would take if the
tree went on.
-/

namespace ScriptEngine

open Machine

/-- How a run ends that is not cut short: what it ends with, and the activation as it is left, its guarded
blocks closed. The text of a broken invariant does not count. -/
structure RunOutcome where
  result : Except ScriptError Value
  activation : Activation

/-- The outcome of a run of a machine. -/
def Machine.outcome? : Machine.Ending → Option RunOutcome
  | .ok v m => some ⟨.ok v, m.activation.leaveTries m.frame.handlers.length⟩
  | .error (.failed e) m =>
    some ⟨.error e.untexted, m.activation.leaveTries m.frame.handlers.length⟩
  | .error .exhausted _ => none

/-- The outcome of an evaluation. -/
def Evaluation.outcome? : EStateM.Result (Halt ScriptError) Activation Value → Option RunOutcome
  | .ok v a => some ⟨.ok v, a⟩
  | .error (.failed e) a => some ⟨.error e.untexted, a⟩
  | .error .exhausted _ => none

variable {host : Host} {calls : Calls} {rounds : Nat} {code : Array Instruction} {m m' start : Machine}
  {a : Activation}

theorem Piece.simulates {o : LoweringOptions} (quiet : o.breakpoints = false) (p : Piece)
    {η : List Handler} {pc : Nat} (plain : Plain p.calls) (seg : Segment code pc (p.emit o))
    (stands : Stands host calls m code pc [] η a) :
    Simulates host calls rounds code η m (Completes host calls code (pc + (p.emit o).length) η)
      (p.run host calls o.program rounds a) := by
  cases p with
  | block ν body => exact simulatesBlock quiet body plain seg stands
  | field ν owner lines name place value =>
    rw [Piece.emit, LoweringOptions.emitMark_nil quiet, List.nil_append] at seg ⊢
    rw [Piece.run]
    have last := seg.right
    rw [List.length_cons, List.length_cons] at last
    have same : pc + (value.emit.length + 1 + 1) = pc + 1 + 1 + value.emit.length := by omega
    rw [same] at last
    obtain ⟨m', reached, stands⟩ := stands.value seg.left.head
    obtain ⟨m'', further, stands⟩ := stands.value seg.left.tail.head
    refine .of_reaches (reached.trans further) ?_
    refine (value.simulates plain seg.left.tail.tail stands).bind fun v b m' stands => ?_
    refine (stands.send [.string name, v] last.head (by simp)).bind
      fun _ b m' stands => ?_
    obtain ⟨m'', reached, stands⟩ := stands.discard last.tail.head
    refine .of_reaches reached (.here (stands.cast ?_))
    simp
    omega

theorem runPieces_simulates {o : LoweringOptions} (quiet : o.breakpoints = false) (body : List Piece)
    {η : List Handler} {pc : Nat} {a : Activation} {m : Machine}
    (plain : Plain (body.flatMap Piece.calls)) (seg : Segment code pc (emitPieces o body))
    (stands : Stands host calls m code pc [] η a) :
    Simulates host calls rounds code η m
      (Completes host calls code (pc + (emitPieces o body).length) η)
      (runPieces host calls o.program rounds body a) := by
  induction body generalizing pc a m with
  | nil => exact .here stands
  | cons p rest ih =>
    rw [emitPieces, List.flatMap_cons] at seg ⊢
    rw [List.flatMap_cons] at plain
    rw [runPieces]
    refine (p.simulates quiet plain.left seg.left stands).sequence fun b m' stands => ?_
    refine (ih plain.right seg.right stands).mono fun done c m'' here => ?_
    exact here.cast (by rw [List.length_append, Nat.add_assoc, emitPieces])

/-- A run ends in one way only. -/
theorem Machine.ReachesIn.ending_unique {j k : Nat} {m₁ m₂ : Machine} {e₁ e₂ : Machine.Ending}
    (first : ReachesIn host calls j start m₁) (ends : Machine.turn host calls m₁ = .inr e₁)
    (second : ReachesIn host calls k start m₂) (ends' : Machine.turn host calls m₂ = .inr e₂) : e₁ = e₂ := by
  have left : execute host calls (j + (k + 1)) start = e₁ := by
    rw [first.execute_add, execute_succ, ends]
  have right : execute host calls (k + (j + 1)) start = e₂ := by
    rw [second.execute_add, execute_succ, ends']
  rw [← left, ← right]
  congr 1
  omega

/-- A run that goes on for so many turns is used up by fewer. -/
theorem Machine.ReachesIn.exhausts {n k : Nat} (reached : ReachesIn host calls k m m') (long : n ≤ k) :
    ∃ m'', execute host calls n m = .error .exhausted m'' := by
  induction reached generalizing n with
  | refl m =>
    obtain rfl : n = 0 := by omega
    exact ⟨m, rfl⟩
  | turn here _ ih =>
    cases n with
    | zero => exact ⟨_, rfl⟩
    | succ n =>
      rw [execute_succ, here]
      exact ih (by omega)

/-- The run of a machine ends so. -/
def Machine.EndsIn (host : Host) (calls : Calls) (m : Machine) (ending : Machine.Ending) : Prop :=
  ∃ m', Reaches host calls m m' ∧ turn host calls m' = .inr ending

theorem Machine.EndsIn.unique {e₁ e₂ : Machine.Ending} (first : EndsIn host calls m e₁)
    (second : EndsIn host calls m e₂) : e₁ = e₂ := by
  obtain ⟨m₁, ⟨j, reached⟩, ends⟩ := first
  obtain ⟨m₂, ⟨k, reached'⟩, ends'⟩ := second
  exact reached.ending_unique ends reached' ends'

/-- What is executed for long enough is all of the run. -/
theorem Machine.execute_outcome_iff {r : RunOutcome} :
    (∃ n, Machine.outcome? (execute host calls n m) = some r) ↔
      ∃ ending, EndsIn host calls m ending ∧ Machine.outcome? ending = some r := by
  constructor
  · rintro ⟨n, same⟩
    rcases execute_cases host calls n m with ⟨_, _, used⟩ | ⟨k, m', ending, _, reached, last, ended⟩
    · rw [used] at same
      cases same
    · rw [ended] at same
      exact ⟨ending, ⟨m', ⟨k, reached⟩, last⟩, same⟩
  · rintro ⟨ending, ⟨m', ⟨k, reached⟩, last⟩, same⟩
    refine ⟨k + 1, ?_⟩
    rw [reached.execute_add 1, execute_succ, last]
    exact same

/-- An error escapes from a machine as it escapes from its activation. -/
theorem escape_eq {α : Type} (m : Machine) (e : LocatedError) :
    ∃ located m', escape e m = .error (.failed (.runtime located)) m' ∧
      (Evaluation.escape e : Evaluation α) m.activation =
        .error (.failed (.runtime located)) m'.activation ∧ m'.frame = m.frame := by
  by_cases hidden : (e.reported || m.state.control.inTry) = true
  · refine ⟨e, m, ?_, ?_, rfl⟩
    · change (if (e.reported || m.state.control.inTry) = true then _ else _ : MachineM Unit) m = _
      rw [if_pos hidden]
      rfl
    · change (if (e.reported || m.state.control.inTry) = true then _ else _ : Evaluation α)
        m.activation = _
      rw [if_pos hidden]
      rfl
  · refine ⟨{ e with reported := (m.refreshed.control.report (.runtime e) m.refreshed.store).1 },
      ⟨m.frame, { m.refreshed with
        control := (m.refreshed.control.report (.runtime e) m.refreshed.store).2 }⟩, ?_, ?_, rfl⟩
    · change (if (e.reported || m.state.control.inTry) = true then _ else _ : MachineM Unit) m = _
      rw [if_neg hidden, bind_ok (refreshCall_eq m)]
      rfl
    · change (if (e.reported || m.state.control.inTry) = true then _ else _ : Evaluation α)
        m.activation = _
      rw [if_neg hidden, bind_ok (showCall_eq m)]
      rfl

/-- A run ends that has so ended. -/
theorem Machine.Ends.outcome {result : Except ScriptError Value}
    (ends : Ends host calls m result [] a) :
    ∃ ending, EndsIn host calls m ending ∧
      Machine.outcome? ending = some ⟨result.mapError ScriptError.untexted, a⟩ := by
  obtain ⟨m₁, m₂, inner, reached, last, handlers, rfl⟩ := ends
  rw [List.append_nil] at handlers
  cases result with
  | ok v =>
    refine ⟨_, ⟨m₁, reached, last⟩, ?_⟩
    rw [← handlers]
    rfl
  | error e =>
    obtain ⟨e', same, last⟩ := last
    refine ⟨_, ⟨m₁, reached, last⟩, ?_⟩
    change some (RunOutcome.mk (.error e'.untexted) (m₂.activation.leaveTries _)) = _
    rw [same, handlers]
    rfl

/-- An error that is raised outside of all regions ends the run as the tree says. -/
theorem Machine.Raises.outcome {e : LocatedError} {r : RunOutcome}
    (raises : Raises host calls m code e [] a)
    (escapes : Evaluation.outcome? ((Evaluation.escape e : Evaluation Value) a) = some r) :
    ∃ ending, EndsIn host calls m ending ∧ Machine.outcome? ending = some r := by
  obtain ⟨m₁, i, m₂, reached, here, found, run, handlers, rfl, _⟩ := raises
  obtain ⟨located, m₃, escaped, tree, frame⟩ := escape_eq (α := Value) m₂ e
  have regions : m₂.frame.handlers = [] := (step_failed run).regions.trans handlers
  have recovered : recover (.runtime e) m₂ = .error (.failed (.runtime located)) m₃ := by
    unfold recover
    dsimp only
    rw [bind_ok (readFrame_eq m₂ id)]
    dsimp only [id_eq]
    rw [regions]
    exact escaped
  have last : turn host calls m₁ = .inr (.error (.failed (.runtime located)) m₃) := by
    unfold turn
    rw [here, found]
    dsimp only
    rw [run]
    dsimp only
    rw [recovered]
  refine ⟨_, ⟨m₁, reached, last⟩, ?_⟩
  rw [← escapes, tree, Machine.outcome?, frame, regions]
  rfl

/-- The run of a body ends as its tree says, unless the tree goes on. -/
theorem runBody_ends {o : LoweringOptions} {body : List Piece} {r : RunOutcome}
    (simulates : Simulates host calls rounds code [] m (Completes host calls code code.size [])
      (runPieces host calls o.program rounds body a))
    (finishes : Evaluation.outcome? (runBody host calls o.program rounds body a) = some r) :
    ∃ ending, EndsIn host calls m ending ∧ Machine.outcome? ending = some r := by
  unfold runBody at finishes
  generalize runPieces host calls o.program rounds body a = result at simulates finishes
  rcases result with ⟨done, b⟩ | ⟨halt, b⟩
  · obtain ⟨m₁, reached, here⟩ := simulates
    cases done with
    | normal =>
      have stands : Stands host calls m₁ code code.size [] [] b := here
      have last : turn host calls m₁ = .inr (.ok .null m₁) := by
        unfold turn
        rw [stands.code, stands.pc, Array.getElem?_size]
      refine ⟨_, ⟨m₁, reached, last⟩, ?_⟩
      rw [← finishes, ← stands.activation, Machine.outcome?, stands.handlers]
      rfl
    | returned v =>
      have ends : Ends host calls m₁ (.ok v) [] b := here
      obtain ⟨ending, ended, same⟩ := (ends.of_reaches reached).outcome
      exact ⟨ending, ended, same.trans finishes⟩
  · cases halt with
    | exhausted => cases finishes
    | failed e =>
      cases e with
      | runtime e => exact Raises.outcome simulates finishes
      | _ =>
        have ends : Ends host calls m (.error _) [] b := simulates
        obtain ⟨ending, ended, same⟩ := ends.outcome
        exact ⟨ending, ended, same.trans finishes⟩

/-- A body whose bound on rounds is used up keeps its machine going. -/
theorem runBody_spins {o : LoweringOptions} {body : List Piece}
    (simulates : Simulates host calls rounds code [] m (Completes host calls code code.size [])
      (runPieces host calls o.program rounds body a))
    (goes : Evaluation.outcome? (runBody host calls o.program rounds body a) = none) :
    Spins host calls rounds m := by
  unfold runBody at goes
  generalize runPieces host calls o.program rounds body a = result at simulates goes
  rcases result with ⟨done, b⟩ | ⟨halt, b⟩
  · cases done <;> cases goes
  · cases halt with
    | exhausted => exact simulates
    | failed e =>
      cases e with
      | runtime e =>
        obtain ⟨m₁, i, m₂, _, _, _, _, _, rfl, _⟩ := simulates
        obtain ⟨located, m₃, _, tree, _⟩ := escape_eq (α := Value) m₂ e
        dsimp only at goes
        rw [tree] at goes
        cases goes
      | _ => cases goes

/-- A run that has an outcome is not kept going for longer than it is executed. -/
theorem Machine.Spins.absurd {n : Nat} {r : RunOutcome} (spins : Spins host calls (n + 1) m)
    (finished : Machine.outcome? (execute host calls n m) = some r) : False := by
  rcases spins with ⟨k, m', long, reached⟩ | ⟨m₁, m₂, reached, used⟩
  · obtain ⟨m'', exhausted⟩ := reached.exhausts (n := n) (by omega)
    rw [exhausted] at finished
    cases finished
  · obtain ⟨ending, ended, same⟩ := execute_outcome_iff.mp ⟨n, finished⟩
    rw [ended.unique ⟨m₁, reached, used⟩] at same
    cases same

/-- The code of a body does what its tree means. -/
theorem runBody_outcome_iff {o : LoweringOptions} (quiet : o.breakpoints = false) {p : Procedure}
    {body : List Piece} (plain : Plain (body.flatMap Piece.calls))
    (compiled : p.code = (emitPieces o body).toArray) (fresh : start.frame.IsFresh p)
    (roomy : Roomy host calls start) (r : RunOutcome) :
    (∃ n, Machine.outcome? (execute host calls n start) = some r) ↔
      ∃ rounds, Evaluation.outcome?
        (runBody host calls o.program rounds body start.activation) = some r := by
  have stands : Stands host calls start p.code 0 [] [] start.activation :=
    ⟨congrArg Procedure.code fresh.procedure, fresh.pc, congrArg Stack.items fresh.stack,
      fresh.handlers, rfl, roomy⟩
  have seg : Segment p.code 0 (emitPieces o body) := by
    have whole := Segment.whole p.code
    rwa [compiled, List.toList_toArray, ← compiled] at whole
  have size : 0 + (emitPieces o body).length = p.code.size := by simp [compiled]
  have simulates (rounds : Nat) : Simulates host calls rounds p.code [] start
      (Completes host calls p.code p.code.size [])
      (runPieces host calls o.program rounds body start.activation) :=
    (runPieces_simulates quiet body plain seg stands).mono fun done b m' here => here.cast size
  constructor
  · rintro ⟨n, finished⟩
    cases tree : Evaluation.outcome?
        (runBody host calls o.program (n + 1) body start.activation) with
    | none => exact ((runBody_spins (simulates _) tree).absurd finished).elim
    | some r' =>
      obtain ⟨ending, ended, same⟩ := execute_outcome_iff.mp ⟨n, finished⟩
      obtain ⟨ending', ended', same'⟩ := runBody_ends (simulates _) tree
      rw [ended.unique ended', same'] at same
      exact ⟨n + 1, tree.trans same⟩
  · rintro ⟨rounds, finished⟩
    exact execute_outcome_iff.mpr (runBody_ends (simulates rounds) finished)

/-- Compiling preserves meaning: in a program that is compiled without markers from a source that does not
call `set` by name, each procedure belongs to a definition of the source, and a machine that has just entered
the procedure ends with an outcome exactly if the body of the definition has that outcome, as long as the
operand stack does not overflow. This is so for all variables and states, and whatever loading, calling and
sending come to. -/
theorem Program.ofSource_preserves (source file : String) {o : LoweringOptions}
    (quiet : o.breakpoints = false) {tree : ModuleTree} (parsed : ModuleTree.ofSource source = .ok tree)
    (none : ∀ c ∈ tree.calls, ¬ c.Assigns) :
    (Program.ofSource source file o).procedures.toList =
        (tree.definitions o.program).map (·.procedure o) ∧
      ∀ d ∈ tree.definitions o.program, ∀ (host : Host) (calls : Calls) (start : Machine),
        start.frame.IsFresh (d.procedure o) → Roomy host calls start → ∀ r : RunOutcome,
          (∃ n, Machine.outcome? (execute host calls n start) = some r) ↔
            ∃ rounds, Evaluation.outcome?
              (runBody host calls o.program rounds d.body start.activation) = some r := by
  have tagged := ModuleTree.ofSource_gives source
  rw [parsed] at tagged
  have plain : Plain tree.calls := fun c member => ⟨tagged c member, none c member⟩
  constructor
  · obtain ⟨parts, same, lowered⟩ := Program.ofSource_eq file o parsed
    rw [same]
    exact lowered.procedures
  · intro d member host calls start fresh roomy r
    refine runBody_outcome_iff quiet (fun c here => plain c ?_) rfl fresh roomy r
    exact (tree.definitions_within o.program d member).spells c here

/-- A text with a loop that goes on until its guarded statement fails in a call. -/
def failingLoop : String :=
  "def check(x) \x7b if (x) \x7b return x; \x7d raise(\"no\"); \x7d " ++
    "go = true; while (go) \x7b try \x7b if (check(go)) \x7b go = check(false); \x7d \x7d " ++
      "catch : e \x7b log = e; go = false; \x7d \x7d"

/-- The text is loaded. -/
def failingLoopLoaded : State := ⟨(Store.empty.addProgram (.ofSource failingLoop "demo" ⟨0, false⟩)).2, .start⟩

/-- The top-level code of the text has just been entered. -/
def failingLoopEntered : Machine :=
  ⟨.enter failingLoopLoaded (failingLoopLoaded.store.procedure ⟨0, 1⟩) 0 (.topLevel .empty), failingLoopLoaded⟩

/-- The calls that top-level code makes of the functions of its program. -/
def failingLoopCalls : Calls := .nested .none 100 2

/-- The machine and the tree end in the same way, after the loop has gone on from the error that the call raised. -/
theorem Program.failingLoop_preserved :
    ∃ tree, ModuleTree.ofSource failingLoop = .ok tree ∧ (∀ c ∈ tree.calls, ¬ c.Assigns) ∧
    ∃ d ∈ tree.definitions 0, failingLoopEntered.frame.IsFresh (d.procedure ⟨0, false⟩) ∧
      Machine.Roomy .none failingLoopCalls failingLoopEntered ∧
      (∃ r, Machine.outcome? (Machine.execute .none failingLoopCalls 200 failingLoopEntered) = some r ∧
        r.result.isOk = true) ∧
      ∀ r, (∃ n, Machine.outcome? (Machine.execute .none failingLoopCalls n failingLoopEntered) = some r) ↔
        ∃ rounds, Evaluation.outcome? (runBody .none failingLoopCalls 0 rounds d.body
          failingLoopEntered.activation) = some r := by
  have spelled : spellsOnly failingLoop (fun c => !decide c.Assigns) = true := by decide +kernel
  obtain ⟨tree, parsed, checked⟩ := spellsOnly_iff.mp spelled
  have none : ∀ c ∈ tree.calls, ¬ c.Assigns := fun c among => by simpa using checked c among
  obtain ⟨compiled, preserved⟩ := Program.ofSource_preserves failingLoop "demo" (o := ⟨0, false⟩) rfl parsed none
  have below : 1 < (Program.ofSource failingLoop "demo" ⟨0, false⟩).procedures.size := by decide +kernel
  have room : (failingLoopLoaded.store.procedure ⟨0, 1⟩).code.size ≤ failingLoopEntered.frame.maxStack := by
    decide +kernel
  have member : failingLoopLoaded.store.procedure ⟨0, 1⟩ ∈
      (Program.ofSource failingLoop "demo" ⟨0, false⟩).procedures := by
    have loaded : failingLoopLoaded.store.program 0 = .ofSource failingLoop "demo" ⟨0, false⟩ :=
      Store.program_addProgram Store.empty _
    rw [Store.procedure, loaded, Array.getD_eq_getD_getElem?, Array.getElem?_eq_getElem below, Option.getD_some]
    exact Array.getElem_mem below
  obtain ⟨d, among, same⟩ := List.mem_map.mp (compiled ▸ Array.mem_toList_iff.mpr member)
  have fresh : failingLoopEntered.frame.IsFresh (d.procedure ⟨0, false⟩) := same ▸ Frame.enter_fresh ..
  have roomy : Machine.Roomy .none failingLoopCalls failingLoopEntered := by
    refine Program.ofSource_roomy (fun tree' parsed' => ?_) member (Frame.enter_fresh ..) room
    cases parsed.symm.trans parsed'
    exact none
  have ends : ((Machine.outcome? (Machine.execute .none failingLoopCalls 200 failingLoopEntered)).any fun r =>
      r.result.isOk) = true := by
    decide +kernel
  obtain ⟨r, ended, ok⟩ := (Option.any_eq_true _ _).mp ends
  exact ⟨tree, parsed, none, d, among, fresh, roomy, ⟨r, ended, ok⟩,
    preserved d among .none failingLoopCalls _ fresh roomy⟩

end ScriptEngine
