import ScriptEngine.Proofs.Enduring

/-! # Starting a program

A program is marked as started before its classes are set up and its top-level code runs. So these are run in one
operation at most. That operation starts the program only if all of them are completed; every later one takes the
program as started, whatever became of the first.
-/

namespace ScriptEngine

variable {calls : Calls} {e : Engine} {id : ProgramId} {s s' t : State} {halt : Halt ScriptError}

/-- The procedures that are run when a program is started: the setups of its classes, then its top-level code. -/
def Program.startup (p : Program) : List ProcedureId := p.classSetups ++ p.topLevel.toList

/-- Procedures at the top level are completed one after the other. -/
inductive Calls.Completes (calls : Calls) (id : ProgramId) : List ProcedureId → State → State → Prop
  | nil (s : State) : Completes calls id [] s s
  | cons {p : ProcedureId} {ps : List ProcedureId} {s s' s'' : State} :
    calls.runTopLevel id p s = .ok () s' → Completes calls id ps s' s'' → Completes calls id (p :: ps) s s''

/-- A state in which a program counts as started. -/
def State.marked (s : State) (id : ProgramId) : State :=
  ⟨s.store.modifyProgram id fun p => { p with initialized := true }, s.control⟩

theorem Calls.forM_eq_ok_iff {ps : List ProcedureId} :
    ps.forM (calls.runTopLevel id) s = .ok () s' ↔ calls.Completes id ps s s' := by
  induction ps generalizing s with
  | nil =>
    constructor
    · rintro ⟨⟩
      exact .nil _
    · rintro ⟨⟩
      rfl
  | cons p ps ih =>
    constructor
    · intro ran
      obtain ⟨_, s₁, first, rest⟩ := bind_eq_ok_iff.mp ran
      exact .cons first (ih.mp rest)
    · rintro (_ | ⟨first, rest⟩)
      exact bind_eq_ok_iff.mpr ⟨(), _, first, ih.mpr rest⟩

theorem Exec.readStore_eq {ε α : Type} (f : Store → α) (s : State) :
    (Exec.readStore f : Exec ε α) s = .ok (f s.store) s := rfl

theorem Engine.check_eq (id : ProgramId) (s : State) :
    Engine.check id s = match (s.store.program id).failure with
      | some report => .error (.failed (.refused report)) s
      | none => .ok () s := by
  unfold Engine.check
  rw [bind_ok (Exec.readStore_eq ..)]
  cases (s.store.program id).failure <;> rfl

/-- What starting a program comes to. -/
theorem Calls.start_eq (calls : Calls) (id : ProgramId) (s : State) :
    calls.start id s = match (s.store.program id).failure with
      | some report => .error (.failed (.refused report)) s
      | none =>
        if (s.store.program id).initialized then .ok () s
        else (s.store.program id).startup.forM (calls.runTopLevel id) (s.marked id) := by
  have checked := Engine.check_eq id s
  unfold Calls.start
  cases refused : (s.store.program id).failure with
  | some report =>
    rw [refused] at checked
    exact bind_error checked
  | none =>
    rw [refused] at checked
    rw [bind_ok checked, bind_ok (Exec.readStore_eq ..)]
    dsimp only
    split
    · rfl
    · exact bind_ok rfl

theorem State.marked_initialized (loaded : id < s.store.programs.size) :
    ((s.marked id).store.program id).initialized = true := by
  have inside : (s.marked id).store.programs[id]? =
      some { s.store.programs[id] with initialized := true } := by
    simp [State.marked, Store.modifyProgram, Array.getElem_modify_self, loaded]
  unfold Store.program
  rw [Array.getD_eq_getD_getElem?, inside]
  rfl

/-- All programs keep their code and stay started. -/
def ProgramsLast (s s' : State) : Prop := ∀ id, (s.store.program id).Lasts (s'.store.program id)

theorem ProgramsLast.enduring : Enduring ProgramsLast :=
  ⟨fun onward id => (onward.programs id).toLasts, fun first second id => (first id).trans (second id)⟩

theorem State.marked_last (s : State) (id : ProgramId) : ProgramsLast s (s.marked id) := by
  intro other
  apply Store.modifyProgram_relates .refl
  exact fun _ => ⟨rfl, rfl, rfl, rfl, fun _ => rfl⟩

/-- A host whose functions leave the code of programs as it is, and do not take back that one was started. -/
def Host.KeepsPrograms (host : Host) : Prop := host.Within (Respects ProgramsLast)

namespace Engine

/-- The call of a member that a program has. -/
def callFound (e : Engine) (id : ProgramId) (name : String) (args : Arguments) (s : State) :
    EStateM.Result (Halt ScriptError) State Value :=
  match (s.store.program id).members.get? name with
  | some callee => e.invoke callee args s
  | none => .error (.failed (.located (s.store.program id).file ⟨0, 0⟩ (.unknownFunction name))) s

/-- A program that counts as started and was not refused has its members called at once. -/
theorem callMember_of_initialized (accepted : (s.store.program id).failure = none)
    (started : (s.store.program id).initialized = true) (name : String) (args : Arguments) :
    e.callMember id name args s = e.callFound id name args s := by
  have start : e.calls.start id s = .ok () s := by rw [Calls.start_eq, accepted, started]; rfl
  have looked : Engine.member? id name s = .ok ((s.store.program id).members.get? name) s := by
    have checked := check_eq id s
    rw [accepted] at checked
    exact bind_ok checked
  unfold Engine.callMember Calls.callMember callFound
  rw [bind_ok start, bind_ok looked]
  cases (s.store.program id).members.get? name <;> rfl

/-- A refused program stays refused: it is never started, and no member of it is called. -/
theorem refused_forever (keeps : e.host.KeepsPrograms) {report : ParseError}
    (refused : (s.store.program id).failure = some report) (later : e.Later ProgramsLast s t) :
    e.start id t = .error (.failed (.refused report)) t ∧
      ∀ name args, e.callMember id name args t = .error (.failed (.refused report)) t := by
  have still := ((later.endures ProgramsLast.enduring keeps) id).failure.trans refused
  have start : e.calls.start id t = .error (.failed (.refused report)) t := by rw [Calls.start_eq, still]
  exact ⟨start, fun name args => bind_error start⟩

/-- The first time that a program is started, this is all its classes and its top-level code, and a member is called
only if they are completed. After that, however it went, the program counts as started: starting it succeeds and does
nothing, and its members are called at once. -/
theorem starts_once (keeps : e.host.KeepsPrograms) (loaded : id < s.store.programs.size)
    (accepted : (s.store.program id).failure = none) (fresh : (s.store.program id).initialized = false) :
    (∀ s', e.start id s = .ok () s' ↔ e.calls.Completes id (s.store.program id).startup (s.marked id) s') ∧
    (∀ halt s', e.start id s = .error halt s' → ∀ name args, e.callMember id name args s = .error halt s') ∧
    ∀ t, e.Later ProgramsLast (finalState (e.start id s)) t →
      e.start id t = .ok () t ∧ ∀ name args, e.callMember id name args t = e.callFound id name args t := by
  have first : e.start id s = (s.store.program id).startup.forM (e.calls.runTopLevel id) (s.marked id) := by
    unfold Engine.start
    rw [Calls.start_eq, accepted, fresh]
    rfl
  refine ⟨fun s' => first ▸ Calls.forM_eq_ok_iff, fun halt s' failed name args => bind_error failed, ?_⟩
  intro t later
  have ran : ProgramsLast (s.marked id) (finalState (e.start id s)) := by
    have relays : Relays Mild (Respects ProgramsLast) False fun calls =>
        (s.store.program id).startup.forM (calls.runTopLevel id) := .forM Calls.runTopLevel_relays _
    rw [first]
    exact ProgramsLast.enduring.absorbing.relays relays
      (Calls.nested_keep ProgramsLast.enduring keeps e.steps e.depth) _
  have after := ProgramsLast.enduring.trans ran (later.endures ProgramsLast.enduring keeps)
  have started := (after id).initialized (State.marked_initialized loaded)
  have kept := (ProgramsLast.enduring.trans (s.marked_last id) after id).failure.trans accepted
  refine ⟨?_, callMember_of_initialized kept started⟩
  unfold Engine.start
  rw [Calls.start_eq, kept, started]
  rfl

end Engine

/-- A program whose top-level code fails counts as started afterwards. -/
example :
    let s : State := ⟨(Store.empty.addProgram (.ofSource "x = y;" "demo" ⟨0, false⟩)).2, .start⟩
    let e := Engine.mk .none 2 100
    (match e.start 0 s with
      | .error (.failed (.runtime _)) s' => (match e.start 0 s' with
        | .ok .. => true
        | .error .. => false)
      | _ => false) = true := by
  decide +kernel

end ScriptEngine
