import ScriptEngine.Proofs.Loaded
import ScriptEngine.Proofs.Nesting
import ScriptEngine.Proofs.Placement

/-! # Sessions of a host

A host loads a program, starts it, calls its members and invokes its values, as often as it likes, and
arranges other things in between. As long as it brings in nothing of another program, the program stays at
home: every machine that an operation visits holds and sees only what is of its zone, and stands where the
layout of its code says. So no run ends in a broken invariant, also none that a function of the host started
and whose error it hides.
-/

namespace ScriptEngine

variable {z : Zone} {host : Host} {calls other : Calls} {q : Request} {s t : State} {m : Machine}

/-- A request that is made with nothing from outside of a zone. -/
def Zone.OwnsRequest (z : Zone) : Request → Prop
  | .run f => z.OwnsFrame f ∧ f.IsFresh f.procedure
  | .invoke callee args => z.Owns callee ∧ z.OwnsArguments args
  | .native r args => z.cells .native r.index ∧ z.OwnsArguments args

/-- A request that is made within a zone, while nothing leads out of it. -/
structure Zone.Grounds (z : Zone) (q : Request) (s : State) : Prop where
  request : z.OwnsRequest q
  settled : z.Settled s.store

/-- Nested runs that agree with some of a zone there are of the zone as well. -/
theorem Zone.OwnsCalls.alike (owned : z.OwnsCalls calls calls)
    (agree : calls.AgreeWhere z.Grounds other) : z.OwnsCalls calls other where
  run := fun f here fresh s settled =>
    ⟨agree.run f s ⟨⟨here, fresh⟩, settled⟩, (owned.run f here fresh s settled).2⟩
  invoke := fun callee args here given s settled =>
    ⟨agree.invoke callee args s ⟨⟨here, given⟩, settled⟩, (owned.invoke callee args here given s settled).2⟩
  native := fun r args has given s settled =>
    ⟨agree.native r args s ⟨⟨has, given⟩, settled⟩, (owned.native r args has given s settled).2⟩

/-- What a computation of a zone starts is of the zone. -/
theorem Starts.grounds {ρ : Type} {x : Calls → ρ} (starts : Starts x calls q s)
    (owned : z.OwnsCalls calls calls) (respects : ∀ other, z.OwnsCalls calls other → x calls = x other) :
    z.Grounds q s := starts.within fun other agree => respects other (owned.alike agree)

theorem Machine.ReachesIn.owned (sound : z.Sound) (tame : z.OwnsHost host) {k : Nat} {m' : Machine}
    (reached : ReachesIn host calls k m m') (nested : z.OwnsCalls calls calls) (owned : z.OwnsMachine m) :
    z.OwnsMachine m' := by
  induction reached with
  | refl => exact owned
  | turn here _ ih => exact ih ((turn_owned sound tame nested owned).1 _ here)

theorem Machine.ReachesIn.placed {code : Array Instruction} {layout : Layout code} {k : Nat} {m' : Machine}
    (reached : ReachesIn host calls k m m') (placed : layout.Places m.frame) : layout.Places m'.frame := by
  induction reached with
  | refl => exact placed
  | turn here _ ih => exact ih (placed.turned (turn_inl here))

/-- A machine in a zone that stands where a layout of its code says. -/
structure Zone.Sits (z : Zone) (m : Machine) : Prop where
  owned : z.OwnsMachine m
  placed : ∃ code, ∃ layout : Layout code, layout.Places m.frame

theorem Zone.Sits.unbroken [z.IsStrict] (sound : z.Sound) (tame : z.OwnsHost host) (sits : z.Sits m)
    (nested : z.OwnsCalls calls calls) {what : String} {m' : Machine} :
    Machine.turn host calls m ≠ .inr (.error (.failed (.internal what)) m') := by
  intro ended
  obtain ⟨code, layout, placed⟩ := sits.placed
  obtain ⟨i, found, breaks⟩ := Machine.turn_internal ended
  exact placed.unbroken sound tame nested sits.owned found breaks

/-- An operation that hands in nothing from outside of a zone. -/
def Operation.IsWithin (z : Zone) : Operation → Prop
  | start => True
  | callMember _ args => z.OwnsArguments args
  | invoke callee args => z.Owns callee ∧ z.OwnsArguments args

section

variable (sound : z.Sound) (nested : z.OwnsCalls calls other)
include sound

theorem Engine.check_performs (id : ProgramId) : z.Performs (check id) (check id) fun _ => True := by
  refine (Exec.readStore_keeps (Q := fun _ => True) fun _ _ => trivial).bind fun failure _ => ?_
  split
  · refine .fail (sound.orderly _ ?_)
    rintro what ⟨⟩
  · exact .pure trivial

theorem Engine.member?_performs (name : String) : z.Performs (member? z.program name)
    (member? z.program name) fun found => ∀ v, found = some v → z.Owns v :=
  (check_performs sound _).bind fun _ _ =>
    Exec.readStore_keeps fun _ settled _ found => settled.program.members.get found

include nested

theorem Calls.runTopLevel_performs {p : ProcedureId} (here : z.runs p) :
    z.Performs (calls.runTopLevel z.program p) (other.runTopLevel z.program p) fun _ => True := by
  refine Keeps.get.bind fun s settled => ?_
  have settled : z.Settled s.store := settled
  have owned : z.OwnsFrame (Frame.enter s (s.store.procedure p) z.program (.topLevel .empty)) :=
    Frame.enter_owned sound (settled.fits sound here) (settled.constants here) .empty fun _ same => by cases same; rfl
  exact (nested.run _ owned (Frame.enter_fresh ..)).bind fun _ _ => .pure trivial

theorem Calls.start_performs :
    z.Performs (calls.start z.program) (other.start z.program) fun _ => True := by
  refine (Engine.check_performs sound _).bind fun _ _ => ?_
  refine (Exec.readStore_keeps (Q := z.OwnsProgram) fun _ settled => settled.program).bind
    fun p owned => ?_
  split
  · exact .pure trivial
  · refine (Exec.modifyStore_keeps fun s settled => ?_).bind fun _ _ => Keeps.forM fun p member => ?_
    · exact settled.modifyProgram (fun _ old => ⟨old.startup, old.members, old.modules⟩)
        (fun _ _ old => old) (fun _ => rfl) (fun _ => rfl)
    · refine runTopLevel_performs sound nested (owned.startup p ?_)
      exact List.mem_append.mpr (List.mem_append.mp member).symm

theorem Operation.perform_performs {op : Operation} (within : op.IsWithin z) :
    z.Performs (op.perform calls z.program) (op.perform other z.program) z.Owns := by
  cases op with
  | start => exact (Calls.start_performs sound nested).bind fun _ _ => .pure Zone.owns_null
  | callMember name args =>
    refine (Calls.start_performs sound nested).bind fun _ _ => ?_
    refine (Engine.member?_performs sound name).bind fun found owned => ?_
    split
    · exact nested.invoke _ args (owned _ rfl) within
    · refine (Exec.readStore_keeps (Q := fun _ => True) fun _ _ => trivial).bind fun file _ =>
        .fail (sound.orderly _ ?_)
      rintro what ⟨⟩
  | invoke callee args => exact nested.invoke callee args within.1 within.2

end

section

variable [z.IsClosed] (sound : z.Sound) {e : Engine} (tame : z.OwnsHost e.host)
include sound tame

theorem Engine.Comes.owned {levels : Nat} {f : Frame} (comes : e.Comes levels f s m)
    (asked : z.Grounds (.run f) s) : z.OwnsMachine m := by
  obtain ⟨c, k, _, reached, _⟩ := comes
  exact reached.owned sound tame (Calls.nested_owned sound tame e.steps levels) ⟨asked.request.1, asked.settled⟩

/-- Whatever an operation of a zone requests is of the zone, and so are the machines that wait for it. -/
theorem Engine.Makes.grounds {op : Operation} (within : op.IsWithin z) (settled : z.Settled t.store)
    {levels : Nat} {waiting : List Machine}
    (made : e.Makes (fun calls => op.perform calls z.program t) levels waiting q s) :
    z.Grounds q s ∧ ∀ m ∈ waiting, z.OwnsMachine m := by
  have nested (levels : Nat) := Calls.nested_owned sound tame e.steps levels
  induction made with
  | host starts =>
    refine ⟨starts.grounds (nested _) fun other agree => ?_, by simp⟩
    exact (Operation.perform_performs sound agree within t settled).1
  | instruction _ comes found starts ih =>
    have owned := comes.owned sound tame ih.1
    have constant (v : Value) (same : _ = Instruction.value v) : z.Owns v :=
      constant_owned owned.frame.constants (same ▸ Array.mem_of_getElem? found)
    refine ⟨starts.grounds (nested _) fun other agree => ?_, List.forall_mem_cons.mpr ⟨owned, ih.2⟩⟩
    exact (Machine.step_moves sound tame agree constant _ owned).1
  | invoke _ starts ih =>
    obtain ⟨⟨⟨here, given⟩, settled⟩, others⟩ := ih
    refine ⟨starts.grounds (nested _) fun other agree => ?_, others⟩
    exact (Invoke.value_performs sound tame agree here (by rintro v ⟨⟩) given _ settled).1
  | native _ starts ih =>
    obtain ⟨⟨⟨has, given⟩, settled⟩, others⟩ := ih
    refine ⟨starts.grounds (nested _) fun other agree => ?_, others⟩
    exact (Invoke.native_asks tame agree has given _ settled).1

theorem Engine.Visits.owned {op : Operation} (within : op.IsWithin z) (settled : z.Settled t.store)
    {levels : Nat} {waiting : List Machine}
    (visits : e.Visits (fun calls => op.perform calls z.program t) levels waiting m) :
    z.OwnsMachine m ∧ ∀ m ∈ waiting, z.OwnsMachine m := by
  obtain ⟨f, s, made, comes⟩ := visits
  obtain ⟨asked, others⟩ := made.grounds sound tame within settled
  exact ⟨comes.owned sound tame asked, others⟩

end

/-- Where only sound procedures run, every machine stands where a layout says, and those that wait for it are of
the zone as well. -/
theorem Engine.Visits.sits [z.IsStrict] (sound : z.Sound) {e : Engine} (tame : z.OwnsHost e.host) {op : Operation}
    (within : op.IsWithin z) (settled : z.Settled t.store) {levels : Nat} {waiting : List Machine}
    (visits : e.Visits (fun calls => op.perform calls z.program t) levels waiting m) :
    z.Sits m ∧ ∀ m ∈ waiting, z.OwnsMachine m := by
  obtain ⟨owned, others⟩ := visits.owned sound tame within settled
  obtain ⟨f, s, made, comes⟩ := visits
  obtain ⟨⟨here, fresh⟩, _⟩ := (made.grounds sound tame within settled).1
  obtain ⟨c, k, _, reached, _⟩ := comes
  obtain ⟨layout⟩ := (Zone.IsStrict.sound _ here.fits).layout
  exact ⟨⟨owned, _, layout, reached.placed (layout.places_fresh fresh)⟩, others⟩

instance (s : Store) (program : ProgramId) : (s.zone program).IsStrict where
  sound := fun _ fits => fits
  orderly := fun _ allowed => allowed

/-- The states that a host comes to which operates a program from a state on. Each operation hands in what
leads to no other program. Between them the host may change what it likes if nothing of the program comes to
lead to another one; bounds can be different every time. -/
inductive Session (host : Host) (id : ProgramId) (s : State) : State → Prop
  | refl : Session host id s s
  | operate {t : State} (op : Operation) (steps levels : Nat) :
    Session host id s t → op.IsWithin (t.store.zone id) →
      Session host id s (finalState (op.perform (.nested host steps levels) id t))
  | arrange {t t' : State} :
    Session host id s t → (t.store.zone id).Settled t'.store → Session host id s t'

/-- A host that brings nothing of another program into a session. -/
def Session.IsTame (host : Host) (id : ProgramId) (s : State) : Prop :=
  ∀ t, Session host id s t → (t.store.zone id).OwnsHost host

/-- A program stays at home over a session. -/
theorem Session.houses {id : ProgramId} (session : Session host id s t)
    (tame : Session.IsTame host id s) (home : s.store.Houses id) : t.store.Houses id := by
  induction session with
  | refl => exact home
  | @operate t op steps levels before within ih =>
    have nested := Calls.nested_owned ih.sound (tame t before) steps levels
    have after := (Operation.perform_performs ih.sound nested within t ih.settled).2
    exact Zone.Settled.houses after.finalState ih.sound
  | arrange _ settled ih => exact settled.houses ih.sound

/-- Compiled code breaks no invariant: whatever a host does with a program whose source neither calls `set`
by name nor leaves out the name of a member, its operations do not end in a broken invariant, and neither
does any run that goes on within them. -/
theorem Session.breaks_no_invariant {source file : String} {breakpoints : Bool} {tree : ModuleTree}
    (parsed : ModuleTree.ofSource source = .ok tree)
    (plain : ∀ c ∈ tree.calls, ¬ c.Assigns ∧ ¬ c.LacksMember) {id : ProgramId} {s₀ s₁ s₂ : State}
    (loaded : (Engine.load source file breakpoints : Exec ScriptError ProgramId) s₀ = .ok id s₁)
    {e : Engine} (tame : Session.IsTame e.host id s₁) (session : Session e.host id s₁ s₂) {op : Operation}
    (within : op.IsWithin (s₂.store.zone id)) :
    (∀ what s', op.perform e.calls id s₂ ≠ .error (.failed (.internal what)) s') ∧
      ∀ levels waiting m, e.Visits (fun calls => op.perform calls id s₂) levels waiting m →
        ∀ what m', Machine.turn e.host (e.below levels) m ≠ .inr (.error (.failed (.internal what)) m') := by
  have home := session.houses tame (Engine.load_houses parsed plain loaded)
  have nested (levels : Nat) := Calls.nested_owned home.sound (tame s₂ session) e.steps levels
  refine ⟨?_, ?_⟩
  · intro what s' ended
    have after := (Operation.perform_performs home.sound (nested e.depth) within s₂ home.settled).2
    change Remains _ _ _ (op.perform e.calls id s₂) at after
    rw [ended] at after
    exact after.2 what rfl
  · intro levels waiting m visits what m'
    have sits := (Engine.Visits.sits home.sound (tame s₂ session) within home.settled visits).1
    exact sits.unbroken home.sound (tame s₂ session) (nested levels)

/-- A host with functions that call their first argument with the others. -/
def Host.relay : Host where
  rules := .identity
  getMember := fun _ _ object name => Exec.fail (.unknownMember object.kind name)
  setMember := fun _ _ object name _ => Exec.fail (.readOnlyMember object.kind name)
  callMethod := fun _ _ object name _ => Exec.fail (.unknownMember object.kind name)
  call := fun _ _ object _ => Exec.fail (.notCallable object.kind)
  native := fun calls name _ args =>
    match args with
    | [] => Exec.fail (.missingArgument name "callee")
    | ⟨_, callee⟩ :: rest => (calls.invoke callee rest).mapError fun error => .raised error.message

theorem Zone.owns_relay (z : Zone) : z.OwnsHost .relay where
  getMember := fun _ _ _ _ _ _ => .fail trivial
  setMember := fun _ _ _ _ _ _ _ _ => .fail trivial
  callMethod := fun _ _ _ _ _ _ _ _ => .fail trivial
  call := fun _ _ _ _ _ _ _ => .fail trivial
  native := by
    intro calls other name captured args nested _ owned
    cases args with
    | nil => exact .fail trivial
    | cons first rest =>
      obtain ⟨here, others⟩ := List.forall_mem_cons.mp owned
      exact Exec.mapError_keeps (nested.invoke first.value rest here others) fun _ _ => trivial

/-- A text with a function that calls what it is given and hands on its error as a value. -/
def guardedCall : String := "def f(g) \x7b try \x7b return g(1); \x7d catch : e \x7b return e; \x7d \x7d"

theorem Session.guardedCall_unbroken :
    ∃ tree, ModuleTree.ofSource guardedCall = .ok tree ∧
      (∀ c ∈ tree.calls, ¬ c.Assigns ∧ ¬ c.LacksMember) ∧
    ∃ s₁, (Engine.load guardedCall "demo" true : Exec ScriptError ProgramId) .start = .ok 0 s₁ ∧
      Session.IsTame Host.relay 0 s₁ ∧
    ∃ s₂, Session Host.relay 0 s₁ s₂ ∧
      (Operation.callMember "f" [⟨none, .string "x"⟩]).IsWithin (s₂.store.zone 0) ∧
      (∀ what s', (Operation.callMember "f" [⟨none, .string "x"⟩]).perform
          (Engine.mk .relay 8 100).calls 0 s₂ ≠ .error (.failed (.internal what)) s') ∧
      ∀ levels waiting m, (Engine.mk .relay 8 100).Visits (fun calls =>
          (Operation.callMember "f" [⟨none, .string "x"⟩]).perform calls 0 s₂) levels waiting m →
        ∀ what m', Machine.turn .relay ((Engine.mk .relay 8 100).below levels) m ≠
          .inr (.error (.failed (.internal what)) m') := by
  have spelled : spellsOnly guardedCall (fun c => !decide c.Assigns && !decide c.LacksMember) = true := by
    decide +kernel
  obtain ⟨tree, parsed, plain⟩ := spellsOnly_iff.mp spelled
  have plain : ∀ c ∈ tree.calls, ¬ c.Assigns ∧ ¬ c.LacksMember := by simpa using plain
  have tame {s₁ : State} : Session.IsTame Host.relay 0 s₁ := fun t _ => Zone.owns_relay _
  obtain ⟨s₁, loaded⟩ : ∃ s₁, (Engine.load guardedCall "demo" true : Exec ScriptError ProgramId) .start =
      .ok 0 s₁ := ⟨_, rfl⟩
  have session : Session Host.relay 0 s₁ _ := .operate .start 100 8 .refl trivial
  have within (z : Zone) : (Operation.callMember "f" [⟨none, .string "x"⟩]).IsWithin z := by
    simp [Operation.IsWithin, Zone.OwnsArguments]
  exact ⟨tree, parsed, plain, s₁, loaded, tame, _, session, within _,
    Session.breaks_no_invariant (e := ⟨.relay, 8, 100⟩) parsed plain loaded tame session (within _)⟩

end ScriptEngine
