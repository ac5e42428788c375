import ScriptEngine.Proofs.Numbers
import ScriptEngine.Proofs.Reaching
import ScriptEngine.Proofs.Sessions

/-! # Every procedure that runs is listed

A program that was just loaded holds its procedures, directly or through its classes and other procedures, and it
lists exactly those. A procedure whose name was given to another one is held by nothing. So the verification, which
goes through the list, sees every procedure that can run: whatever a host does with the program, values that lead to
anything else never come up.
-/

namespace ScriptEngine

variable {s : Store} {program : ProgramId} {id : ProcedureId} {h other : Holder}

/-- A program holds something, directly or through others. -/
def Store.Keeps (s : Store) (program : ProgramId) (h : Holder) : Prop :=
  ∃ root ∈ (s.program program).holders, s.LeadsTo root h

theorem Store.Keeps.held (keeps : s.Keeps program h) (held : other ∈ s.heldBy h) : s.Keeps program other := by
  obtain ⟨root, member, leads⟩ := keeps
  exact ⟨root, member, leads.tail held⟩

/-- A procedure of a program that is listed, or a class of the program. -/
def Store.Lists (s : Store) (program : ProgramId) : Holder → Prop
  | .cell .. => False
  | .procedure id => id.program = program ∧ id ∈ s.procedures program
  | .classDef id => id.program = program

/-- What a numbered value holds is listed if that is where it stands which makes a procedure listed. -/
theorem Value.IsNumbered.lists {v : Value} {n : Nat} (numbered : v.IsNumbered program n)
    (listed : ∀ id, v = .procedure id → id.program = program → id.index < n → id ∈ s.procedures program) :
    ∀ h ∈ v.holders, s.Lists program h := by
  cases numbered with
  | plain none => exact none ▸ List.forall_mem_nil _
  | procedure own below => exact List.forall_mem_singleton.mpr ⟨own, listed _ rfl own below⟩
  | classRef own => exact List.forall_mem_singleton.mpr own

theorem mem_nestedProcedures {code : Array Instruction} :
    id ∈ nestedProcedures code ↔ Instruction.value (.procedure id) ∈ code.toList := by
  unfold nestedProcedures
  rw [List.mem_filterMap]
  constructor
  · rintro ⟨i, member, same⟩
    split at same
    · cases same
      exact member
    · cases same
  · exact fun member => ⟨_, member, rfl⟩

/-- The search finds only what it was started with and what occurs in the code of what it finds. -/
theorem Store.reach_origin {fresh pending : List ProcedureId} (found : id ∈ s.reach fresh pending) :
    ∃ start ∈ pending, s.LeadsTo (.procedure start) (.procedure id) := by
  induction fresh, pending using Store.reach.induct s with
  | case1 fresh =>
    rw [reach] at found
    cases found
  | case2 fresh first rest new ih =>
    rw [reach, if_pos new] at found
    rcases List.mem_cons.mp found with rfl | later
    · exact ⟨id, List.mem_cons_self, .refl⟩
    · obtain ⟨start, member, leads⟩ := ih later
      rcases List.mem_append.mp member with nested | waiting
      · refine ⟨first, List.mem_cons_self, .head ?_ leads⟩
        have constant := mem_nestedProcedures.mp (List.mem_reverse.mp nested)
        exact List.mem_append_right _ (List.mem_flatMap.mpr ⟨_, constant, List.mem_cons_self⟩)
      · exact ⟨start, List.mem_cons_of_mem _ waiting, leads⟩
  | case3 fresh first rest old ih =>
    rw [reach, if_neg old] at found
    obtain ⟨start, member, leads⟩ := ih found
    exact ⟨start, List.mem_cons_of_mem _ member, leads⟩

theorem Store.mem_procedures_of_member {entry : String × Value}
    (member : entry ∈ (s.program program).members.entries) (held : id ∈ s.heldProcedures entry.2)
    (own : id.program = program) (below : id.index < (s.program program).procedures.size) :
    id ∈ s.procedures program :=
  mem_procedures_of_root (List.mem_append_right _ (List.mem_flatMap.mpr ⟨entry, member, held⟩)) (own ▸ below)

theorem Store.procedure_mem (own : id.program = program) (below : id.index < (s.program program).procedures.size) :
    s.procedure id ∈ (s.program program).procedures := by
  rw [Store.procedure, own, Array.getD_eq_getD_getElem?, Array.getElem?_eq_getElem below, Option.getD_some]
  exact Array.getElem_mem below

namespace Program.IsNumbered

variable (numbered : (s.program program).IsNumbered program)
include numbered

theorem holders_eq : (s.program program).holders =
    ((s.program program).topLevel.toList ++ (s.program program).classSetups).map Holder.procedure ++
      bindingHolders (s.program program).members := by
  rw [Program.holders, if_neg (by simp [numbered.alive]), numbered.modules, List.flatMap_nil, List.append_nil]

/-- A class of the program that holds anything is one of its members. -/
theorem classRef_mem {c : ClassId} (own : c.program = program) (held : other ∈ s.heldBy (.classDef c)) :
    ∃ entry ∈ (s.program program).members.entries, entry.2 = .classRef c ∧
      (s.classDef c).IsNumbered program (s.program program).procedures.size := by
  have inside : c.index < (s.program program).classes.size := by
    by_contra outside
    have none : s.classDef c = default := by
      rw [Store.classDef, own, Array.getD_eq_getD_getElem?, Array.getElem?_eq_none (Nat.le_of_not_lt outside)]
      rfl
    simp only [Store.heldBy, none] at held
    cases held
  obtain ⟨name, found⟩ := numbered.named c.index inside
  obtain ⟨entry, member, same⟩ := Zone.find?_mem found
  refine ⟨entry, member, same.trans (own ▸ rfl), numbered.classes _ ?_⟩
  rw [Store.classDef, own, Array.getD_eq_getD_getElem?, Array.getElem?_eq_getElem inside, Option.getD_some]
  exact Array.getElem_mem inside

theorem lists_startup : ∀ h ∈ (s.program program).holders, s.Lists program h := by
  rw [numbered.holders_eq, List.forall_mem_append, List.forall_mem_map]
  refine ⟨fun id member => ?_, List.forall_mem_flatMap.mpr fun entry member => ?_⟩
  · have startup : ∀ h ∈ (Value.procedure id).holders, s.Lists program h := by
      refine (numbered.startup id member).lists fun _ same own below => ?_
      cases same
      exact Store.mem_procedures_of_root (List.mem_append_left _ member) (own ▸ below)
    exact startup _ List.mem_cons_self
  · refine (numbered.members entry member).lists fun id same own below => ?_
    exact Store.mem_procedures_of_member member (same ▸ List.mem_cons_self) own below

/-- What is held by anything that is listed is listed as well. -/
theorem lists_held (listed : s.Lists program h) (held : other ∈ s.heldBy h) : s.Lists program other := by
  cases h with
  | cell => cases listed
  | procedure id =>
    obtain ⟨own, among⟩ := listed
    have member := Store.procedure_mem own (own ▸ Store.index_lt_of_mem_procedures among)
    change other ∈ (s.procedure id).holders at held
    rcases List.mem_append.mp held with default | constant
    · obtain ⟨param, declared, held⟩ := List.mem_flatMap.mp default
      obtain ⟨v, has, held⟩ := List.mem_flatMap.mp held
      rw [numbered.defaults _ member param declared v (Option.mem_toList.mp has)] at held
      cases held
    · obtain ⟨i, here, held⟩ := List.mem_flatMap.mp constant
      cases i with
      | value v =>
        have constant : v.IsNumbered program _ := numbered.code _ member _ here
        refine constant.lists (fun nested same own below => ?_) _ held
        subst same
        exact Store.mem_procedures_of_nested among (mem_nestedProcedures.mpr here) (own ▸ below)
      | _ => cases held
  | classDef c =>
    obtain ⟨entry, member, same, inside⟩ := numbered.classRef_mem listed held
    rcases List.mem_append.mp held with method | static
    · obtain ⟨m, among, rfl⟩ := List.mem_map.mp method
      refine (inside.methods m among).lists (fun _ here own below => ?_) _ List.mem_cons_self
      cases here
      refine Store.mem_procedures_of_member member ?_ own below
      rw [same]
      exact List.mem_append_left _ (List.mem_map.mpr ⟨m, among, rfl⟩)
    · obtain ⟨v, among, held⟩ := List.mem_flatMap.mp static
      refine (inside.statics v among).lists (fun id here own below => ?_) _ held
      refine Store.mem_procedures_of_member member ?_ own below
      rw [same]
      refine List.mem_append_right _ (List.mem_filterMap.mpr ⟨v, among, ?_⟩)
      obtain ⟨name, v⟩ := v
      cases here
      rfl

theorem lists_of_keeps (keeps : s.Keeps program h) : s.Lists program h := by
  obtain ⟨root, member, leads⟩ := keeps
  induction leads with
  | refl => exact numbered.lists_startup root member
  | tail _ held ih => exact numbered.lists_held ih held

/-- A program that was loaded lists exactly the procedures that it holds, directly or through others. -/
theorem mem_procedures_iff : id ∈ s.procedures program ↔ s.Keeps program (.procedure id) := by
  refine ⟨fun listed => ?_, fun keeps => (numbered.lists_of_keeps keeps).2⟩
  obtain ⟨start, pending, leads⟩ := Store.reach_origin (Store.mem_procedures.mp listed)
  have root : s.Keeps program (.procedure start) := by
    unfold Store.Keeps
    rw [numbered.holders_eq]
    rcases List.mem_append.mp (List.mem_reverse.mp pending) with startup | member
    · exact ⟨_, List.mem_append_left _ (List.mem_map.mpr ⟨start, startup, rfl⟩), .refl⟩
    · obtain ⟨entry, among, held⟩ := List.mem_flatMap.mp member
      have holds {h : Holder} (here : h ∈ entry.2.holders) : h ∈ bindingHolders (s.program program).members :=
        List.mem_flatMap.mpr ⟨entry, among, here⟩
      cases value : entry.2 with
      | procedure id =>
        rw [value] at held
        rw [List.mem_singleton.mp held]
        exact ⟨_, List.mem_append_right _ (holds (value ▸ List.mem_cons_self)), .refl⟩
      | classRef c =>
        refine ⟨.classDef c, List.mem_append_right _ (holds (value ▸ List.mem_cons_self)), .single ?_⟩
        rw [value] at held
        rcases List.mem_append.mp held with method | static
        · obtain ⟨m, here, rfl⟩ := List.mem_map.mp method
          exact List.mem_append_left _ (List.mem_map.mpr ⟨m, here, rfl⟩)
        · obtain ⟨⟨name, v⟩, here, same⟩ := List.mem_filterMap.mp static
          refine List.mem_append_right _ (List.mem_flatMap.mpr ⟨_, here, ?_⟩)
          cases v with
          | procedure id =>
            cases same
            exact List.mem_cons_self
          | _ => cases same
      | _ =>
        rw [value] at held
        cases held
  obtain ⟨first, member, before⟩ := root
  exact ⟨first, member, before.trans leads⟩

end Program.IsNumbered

/-- All in a store that leads to no class of another program and to no procedure but those that the program holds.
Its frames run procedures that are listed. -/
def Store.keptZone (s : Store) (program : ProgramId) : Zone where
  program := program
  procedures := (s.program program).procedures
  cells := fun kind index => ∀ h, s.LeadsTo (.cell kind index) h → match h with
    | .cell .. => True
    | .procedure id => id.program = program ∧ s.Keeps program (.procedure id)
    | .classDef id => id.program = program
  runs := fun id => id.program = program ∧ s.Keeps program (.procedure id)
  own := fun _ => And.left
  fits := fun p => ∃ id ∈ s.procedures program, p = s.procedure id
  errors := fun _ => True

instance (t : Store) : ((s.keptZone program).grow t).IsClosed where
  ends := fun _ _ _ _ _ _ => trivial

section

variable (numbered : (s.program program).IsNumbered program)
include numbered

/-- What a program holds that was loaded is in its zone. -/
theorem Store.Keeps.has (keeps : s.Keeps program h) : (s.keptZone program).Has h := by
  have listed := numbered.lists_of_keeps keeps
  cases h with
  | cell => cases listed
  | procedure => exact ⟨listed.1, keeps⟩
  | classDef => exact listed

theorem Store.keptZone_settled : (s.keptZone program).Settled s := by
  refine Zone.grow_settled (z := s.keptZone program) ?_ ?_ ?_ numbered.alive
  · intro id runs other held
    exact (runs.2.held held).has numbered
  · intro c own other held
    obtain ⟨entry, member, same, _⟩ := numbered.classRef_mem own held
    have among : Holder.classDef c ∈ (s.program program).holders := by
      rw [numbered.holders_eq]
      exact List.mem_append_right _ (List.mem_flatMap.mpr ⟨entry, member, same ▸ List.mem_cons_self⟩)
    exact Store.Keeps.has numbered (.held ⟨_, among, .refl⟩ held)
  · intro h member
    exact Store.Keeps.has numbered ⟨h, member, .refl⟩

theorem Store.keptZone_sound : (s.keptZone program).Sound where
  code := by
    rintro id ⟨own, keeps⟩
    refine ⟨id, numbered.mem_procedures_iff.mpr keeps, ?_⟩
    rw [Store.procedure, own]
    rfl
  owner := by
    rintro p ⟨id, listed, rfl⟩
    have own := (numbered.lists_of_keeps (numbered.mem_procedures_iff.mp listed)).1
    exact numbered.owners _ (Store.procedure_mem own (own ▸ Store.index_lt_of_mem_procedures listed))
  orderly := fun _ _ => trivial

end

/-- The states that a host comes to which operates the program of a zone from a state on. Each operation hands in
what leads only to what the zone allows. Between them the host may change what it likes if nothing of the program
comes to lead to anything else; bounds can be different every time. -/
inductive Zone.Session (z : Zone) (host : Host) (s : State) : State → Prop
  | refl : Session z host s s
  | operate {t : State} (op : Operation) (steps levels : Nat) :
    Session z host s t → op.IsWithin (z.grow t.store) →
      Session z host s (finalState (op.perform (.nested host steps levels) z.program t))
  | arrange {t t' : State} : Session z host s t → (z.grow t.store).Settled t'.store → Session z host s t'

/-- A host that brings nothing into a session but what a zone allows. -/
def Zone.Session.IsTame (z : Zone) (host : Host) (s : State) : Prop :=
  ∀ t, z.Session host s t → (z.grow t.store).OwnsHost host

variable {z : Zone} {host : Host} {s₀ s₁ s₂ : State}

/-- Nothing comes to lead out of a zone over a session, and the code of its program stays. -/
theorem Zone.Session.settled [∀ t, (z.grow t).IsClosed] (sound : z.Sound) (settled : z.Settled s₁.store)
    (tame : Session.IsTame z host s₁) (session : z.Session host s₁ s₂) :
    (z.grow s₂.store).Settled s₂.store ∧ (z.grow s₂.store).Sound ∧ (z.grow s₂.store).procedures = z.procedures := by
  induction session with
  | refl => exact ⟨settled.grow, sound.grow settled, settled.code⟩
  | @operate t op steps levels before within ih =>
    obtain ⟨here, code, same⟩ := ih
    have nested := Calls.nested_owned code (tame t before) steps levels
    have after := (Operation.perform_performs code nested within t here).2.finalState
    exact ⟨after.grow, code.grow after, after.code.trans same⟩
  | arrange _ after ih => exact ⟨after.grow, ih.2.1.grow after, after.code.trans ih.2.2⟩

/-- The list starts with the top-level code. -/
theorem Program.IsNumbered.head?_procedures {s : Store} (numbered : (s.program program).IsNumbered program) :
    ∃ top ∈ (s.procedures program).head?, (s.procedure top).name = moduleProcedure := by
  obtain ⟨top, same, named⟩ := numbered.topLevel
  have startup : Holder.procedure top ∈ (s.program program).holders := by
    rw [numbered.holders_eq, same]
    exact List.mem_cons_self
  obtain ⟨own, listed⟩ := numbered.lists_startup _ startup
  obtain ⟨q, found, called⟩ := Option.map_eq_some_iff.mp named
  refine ⟨top, Store.head?_procedures same listed, ?_⟩
  rw [Store.procedure, own, Array.getD_eq_getD_getElem?, found]
  exact called

section

variable {source file : String} {breakpoints : Bool} {tree : ModuleTree}
  (parsed : ModuleTree.ofSource source = .ok tree)
  (loaded : (Engine.load source file breakpoints : Exec ScriptError ProgramId) s₀ = .ok program s₁)
include parsed loaded

theorem Engine.load_isNumbered : (s₁.store.program program).IsNumbered program := by
  cases loaded
  have compiled : (Program.ofSource source file ⟨s₀.store.programs.size, breakpoints⟩).IsNumbered _ :=
    Program.ofSource_isNumbered parsed
  exact (Store.program_addProgram s₀.store _).symm ▸ compiled

/-- Whatever a host does with a program that was loaded, the machines that its operations visit and those that wait
for these stay in what the program holds, and its code stays as it is. -/
theorem Engine.visits_kept {e : Engine} (tame : Zone.Session.IsTame (s₁.store.keptZone program) e.host s₁)
    (session : (s₁.store.keptZone program).Session e.host s₁ s₂) {op : Operation}
    (within : op.IsWithin ((s₁.store.keptZone program).grow s₂.store)) {levels : Nat} {waiting : List Machine}
    {m : Machine} (visits : e.Visits (fun calls => op.perform calls program s₂) levels waiting m) :
    (∀ m' ∈ m :: waiting, ((s₁.store.keptZone program).grow s₂.store).OwnsMachine m') ∧
      ((s₁.store.keptZone program).grow s₂.store).procedures = (s₁.store.program program).procedures := by
  have numbered := Engine.load_isNumbered parsed loaded
  obtain ⟨settled, sound, same⟩ :=
    session.settled (Store.keptZone_sound numbered) (Store.keptZone_settled numbered) tame
  exact ⟨List.forall_mem_cons.mpr (visits.owned sound (tame s₂ session) within settled), same⟩

end

/-- A program that was loaded lists its procedures once, the top-level code first; and whatever a host does with it,
every machine that its operations visit runs a procedure of that list, and so do those that wait for it. Procedures
are numbers here, also those that were compiled but that nothing holds any more, as their names were given to others.
A host has none of these, so it does not hand them in. -/
theorem Engine.visits_listed {source file : String} {breakpoints : Bool} {tree : ModuleTree}
    (parsed : ModuleTree.ofSource source = .ok tree) {program : ProgramId}
    (loaded : (Engine.load source file breakpoints : Exec ScriptError ProgramId) s₀ = .ok program s₁) :
    (s₁.store.procedures program).Nodup ∧
    (∃ top ∈ (s₁.store.procedures program).head?, (s₁.store.procedure top).name = moduleProcedure) ∧
    ∀ e : Engine, Zone.Session.IsTame (s₁.store.keptZone program) e.host s₁ →
      ∀ s₂, (s₁.store.keptZone program).Session e.host s₁ s₂ →
      ∀ op : Operation, op.IsWithin ((s₁.store.keptZone program).grow s₂.store) →
      ∀ levels waiting m, e.Visits (fun calls => op.perform calls program s₂) levels waiting m →
      ∀ m' ∈ m :: waiting, ∃ id ∈ s₁.store.procedures program, m'.frame.procedure = s₁.store.procedure id := by
  refine ⟨Store.procedures_nodup _ _, (Engine.load_isNumbered parsed loaded).head?_procedures, ?_⟩
  intro e tame s₂ session op within levels waiting m visits m' member
  exact ((Engine.visits_kept parsed loaded tame session within visits).1 m' member).frame.fits

/-- A text with two functions of one name, the first of which is lost, and with another one inside of the second. -/
def lostFunction : String :=
  "def f(g) \x7b return null; \x7d def f(g) \x7b def h(x) \x7b return g(x); \x7d return h; \x7d"

theorem Engine.lostFunction_listed :
    ∃ tree, ModuleTree.ofSource lostFunction = .ok tree ∧
    ∃ s₁, (Engine.load lostFunction "demo" true : Exec ScriptError ProgramId) .start = .ok 0 s₁ ∧
      Zone.Session.IsTame (s₁.store.keptZone 0) Host.relay s₁ ∧
    ∃ s₂, (s₁.store.keptZone 0).Session Host.relay s₁ s₂ ∧
      (Operation.callMember "f" [⟨none, .procedure ⟨0, 1⟩⟩]).IsWithin ((s₁.store.keptZone 0).grow s₂.store) ∧
      ∀ levels waiting m, (Engine.mk .relay 8 100).Visits (fun calls =>
          (Operation.callMember "f" [⟨none, .procedure ⟨0, 1⟩⟩]).perform calls 0 s₂) levels waiting m →
        ∀ m' ∈ m :: waiting, ∃ id ∈ s₁.store.procedures 0, m'.frame.procedure = s₁.store.procedure id := by
  obtain ⟨tree, parsed, _⟩ := spellsOnly_iff.mp (show spellsOnly lostFunction (fun _ => true) = true by decide +kernel)
  obtain ⟨s₁, loaded, root, nested⟩ : ∃ s₁,
      (Engine.load lostFunction "demo" true : Exec ScriptError ProgramId) .start = .ok 0 s₁ ∧
      Holder.procedure ⟨0, 2⟩ ∈ (s₁.store.program 0).holders ∧
      Holder.procedure ⟨0, 1⟩ ∈ s₁.store.heldBy (.procedure ⟨0, 2⟩) :=
    ⟨_, rfl, by decide +kernel, by decide +kernel⟩
  have tame : Zone.Session.IsTame (s₁.store.keptZone 0) Host.relay s₁ := fun t _ => Zone.owns_relay _
  have session : (s₁.store.keptZone 0).Session Host.relay s₁ _ := .operate .start 100 8 .refl trivial
  have kept : s₁.store.Keeps 0 (.procedure ⟨0, 1⟩) := ⟨_, root, .single nested⟩
  have within (t : Store) :
      (Operation.callMember "f" [⟨none, .procedure ⟨0, 1⟩⟩]).IsWithin ((s₁.store.keptZone 0).grow t) := by
    refine List.forall_mem_singleton.mpr (Zone.owns_procedure _ |>.mpr ?_)
    exact ⟨rfl, kept⟩
  exact ⟨tree, parsed, s₁, loaded, tame, _, session, within _,
    (Engine.visits_listed parsed loaded).2.2 ⟨.relay, 8, 100⟩ tame _ session _ (within _)⟩

end ScriptEngine
