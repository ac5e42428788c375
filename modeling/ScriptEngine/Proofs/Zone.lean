import ScriptEngine.Proofs.Keeping
import ScriptEngine.Store.Holding

/-! # What a program can come across

A store may hold several programs. A zone is what one of them has to do with: procedures of its own, its classes,
and cells that hold nothing else. `Settled` says that nothing leads out of a zone, which every change of the
store keeps true that writes only what the zone owns. New cells are in the zone from the start. A zone also says
what the frames that run in it are of, and which errors its calls end in.
-/

namespace ScriptEngine

/-- A program with the procedures that it was loaded with, those of them that can be called, and cells. A frame
runs a procedure that fits, and a call ends in no errors but these. -/
structure Zone where
  program : ProgramId
  procedures : Array Procedure
  cells : CellKind → Nat → Prop
  runs : ProcedureId → Prop
  own : ∀ id, runs id → id.program = program
  fits : Procedure → Prop
  errors : ScriptError → Prop

/-- How many cells of a kind were made. -/
def Store.count (s : Store) : CellKind → Nat
  | .list => s.lists.size
  | .map => s.maps.size
  | .set => s.sets.size
  | .inst => s.instances.size
  | .native => s.natives.size
  | .object => s.objects.size

namespace Zone

variable (z : Zone)

def Has : Holder → Prop
  | .cell kind index => z.cells kind index
  | .procedure id => z.runs id
  | .classDef id => id.program = z.program

/-- A value that holds nothing outside of the zone. -/
def Owns (v : Value) : Prop := ∀ h ∈ v.holders, z.Has h

/-- Variables whose values hold nothing outside of the zone. -/
def OwnsTable (b : Bindings) : Prop := ∀ entry ∈ b.entries, z.Owns entry.2

/-- A map whose keys and values hold nothing outside of the zone. -/
def OwnsMap (d : Dict Key Value) : Prop :=
  ∀ entry ∈ d.entries, z.Owns entry.1.value ∧ z.Owns entry.2

/-- A set whose elements hold nothing outside of the zone. -/
def OwnsSet (d : Dict Key Unit) : Prop := ∀ entry ∈ d.entries, z.Owns entry.1.value

/-- Nothing in the zone holds anything outside of it, and its program is alive and unchanged. -/
structure Settled (s : Store) : Prop where
  held : ∀ h, z.Has h → ∀ other ∈ s.heldBy h, z.Has other
  roots : ∀ h ∈ (s.program z.program).holders, z.Has h
  alive : (s.program z.program).released = false
  code : (s.program z.program).procedures = z.procedures
  fresh : ∀ kind index, s.count kind ≤ index → z.cells kind index

variable {z} {s s' : Store}

theorem owns_of_holders {v : Value} (none : v.holders = []) : z.Owns v := by simp [Owns, none]

@[simp] theorem owns_null : z.Owns .null := owns_of_holders rfl

@[simp] theorem owns_bool (b : Bool) : z.Owns (.bool b) := owns_of_holders rfl

@[simp] theorem owns_number (n : Float) : z.Owns (.number n) := owns_of_holders rfl

@[simp] theorem owns_string (t : String) : z.Owns (.string t) := owns_of_holders rfl

@[simp] theorem owns_list (r : Ref .list) : z.Owns (.list r) ↔ z.cells .list r.index := by
  simp [Owns, Value.holders, Has]

@[simp] theorem owns_map (r : Ref .map) : z.Owns (.map r) ↔ z.cells .map r.index := by
  simp [Owns, Value.holders, Has]

@[simp] theorem owns_set (r : Ref .set) : z.Owns (.set r) ↔ z.cells .set r.index := by
  simp [Owns, Value.holders, Has]

@[simp] theorem owns_inst (r : Ref .inst) : z.Owns (.inst r) ↔ z.cells .inst r.index := by
  simp [Owns, Value.holders, Has]

@[simp] theorem owns_native (r : Ref .native) : z.Owns (.native r) ↔ z.cells .native r.index := by
  simp [Owns, Value.holders, Has]

@[simp] theorem owns_object (r : Ref .object) : z.Owns (.object r) ↔ z.cells .object r.index := by
  simp [Owns, Value.holders, Has]

@[simp] theorem owns_procedure (id : ProcedureId) :
    z.Owns (.procedure id) ↔ z.runs id := by
  simp [Owns, Value.holders, Has]

@[simp] theorem owns_classRef (id : ClassId) : z.Owns (.classRef id) ↔ id.program = z.program := by
  simp [Owns, Value.holders, Has]

@[simp] theorem owns_pair (i : Nat) (a b : Value) :
    z.Owns (.pair i a b) ↔ z.Owns a ∧ z.Owns b := by
  simp [Owns, Value.holders, or_imp, forall_and]

@[simp] theorem owns_method (receiver : Value) (id : ProcedureId) :
    z.Owns (.method receiver id) ↔ z.runs id ∧ z.Owns receiver := by
  simp [Owns, Value.holders, Has]

theorem ownsTable_iff {b : Bindings} : z.OwnsTable b ↔ ∀ h ∈ bindingHolders b, z.Has h := by
  constructor
  · intro owned h member
    obtain ⟨entry, among, here⟩ := List.mem_flatMap.mp member
    exact owned entry among h here
  · intro all entry among h here
    exact all h (List.mem_flatMap.mpr ⟨entry, among, here⟩)

theorem OwnsTable.empty : z.OwnsTable .empty := by simp [OwnsTable, Table.empty]

theorem OwnsTable.set {b : Bindings} {name : String} {v : Value} (owned : z.OwnsTable b)
    (here : z.Owns v) : z.OwnsTable (b.set name v) := Table.forall_put owned here

theorem OwnsTable.ofList {entries : List (String × Value)}
    (owned : ∀ entry ∈ entries, z.Owns entry.2) : z.OwnsTable (.ofList entries) := by
  have fold (b : Bindings) (start : z.OwnsTable b) :
      z.OwnsTable (entries.foldl (fun t (name, a) => t.set name a) b) := by
    induction entries generalizing b with
    | nil => exact start
    | cons first rest ih =>
      exact ih (fun entry member => owned entry (List.mem_cons_of_mem _ member)) _
        (start.set (owned first List.mem_cons_self))
  exact fold _ .empty

theorem find?_mem {α : Type} {name : String} {entries : List (String × α)} {a : α}
    (found : Table.find? name entries = some a) : ∃ entry ∈ entries, entry.2 = a := by
  induction entries with
  | nil => cases found
  | cons first rest ih =>
    obtain ⟨n, b⟩ := first
    rw [Table.find?] at found
    split at found
    · cases found
      exact ⟨_, List.mem_cons_self, rfl⟩
    · obtain ⟨entry, member, same⟩ := ih found
      exact ⟨entry, List.mem_cons_of_mem _ member, same⟩

theorem OwnsTable.get {b : Bindings} {name : String} {v : Value} (owned : z.OwnsTable b)
    (found : b.get? name = some v) : z.Owns v := by
  obtain ⟨entry, member, rfl⟩ := find?_mem found
  exact owned entry member

theorem OwnsMap.insert {d : Dict Key Value} {same : Key → Key → Bool} {key : Key} {v : Value}
    (owned : z.OwnsMap d) (keyed : z.Owns key.value) (here : z.Owns v) :
    z.OwnsMap (d.insert same key v) :=
  Dict.forall_put (P := fun k : Key => z.Owns k.value) (Q := z.Owns) owned keyed here

theorem OwnsMap.erase {d : Dict Key Value} {same : Key → Key → Bool} {key : Key}
    (owned : z.OwnsMap d) : z.OwnsMap (d.erase same key) :=
  fun entry member => owned entry (List.mem_of_mem_eraseP member)

theorem OwnsMap.get {d : Dict Key Value} {same : Key → Key → Bool} {key : Key} {v : Value}
    (owned : z.OwnsMap d) (found : d.get? same key = some v) : z.Owns v := by
  obtain ⟨entry, here, rfl⟩ := Option.map_eq_some_iff.mp found
  exact (owned entry (List.mem_of_find?_eq_some here)).2

theorem OwnsSet.insert {d : Dict Key Unit} {same : Key → Key → Bool} {key : Key} {u : Unit}
    (owned : z.OwnsSet d) (keyed : z.Owns key.value) : z.OwnsSet (d.insert same key u) := by
  have all : ∀ entry ∈ d.entries, z.Owns entry.1.value ∧ True :=
    fun entry member => ⟨owned entry member, trivial⟩
  exact fun entry member =>
    (Dict.forall_put (P := fun k : Key => z.Owns k.value) (Q := fun _ => True) all keyed trivial entry member).1

theorem OwnsSet.erase {d : Dict Key Unit} {same : Key → Key → Bool} {key : Key}
    (owned : z.OwnsSet d) : z.OwnsSet (d.erase same key) :=
  fun entry member => owned entry (List.mem_of_mem_eraseP member)

/-- An instance of a class of the program, with owned members. -/
def OwnsInstance (z : Zone) (i : Instance) : Prop :=
  i.ofClass.program = z.program ∧ z.OwnsTable i.members

/-- A native function whose values hold nothing outside of the zone. -/
def OwnsNative (z : Zone) (f : Native) : Prop := ∀ h ∈ f.holders, z.Has h

/-- An object whose members hold nothing outside of the zone. -/
def OwnsObject (z : Zone) (o : Object) : Prop := ∀ h ∈ o.holders, z.Has h

theorem held_list_iff {i : Nat} :
    (∀ other ∈ s.heldBy (.cell .list i), z.Has other) ↔ ∀ v ∈ s.list ⟨i⟩, z.Owns v := by
  constructor
  · intro all v member h here
    exact all h (List.mem_flatMap.mpr ⟨v, Array.mem_toList_iff.mpr member, here⟩)
  · intro owned other member
    obtain ⟨v, among, here⟩ := List.mem_flatMap.mp member
    exact owned v (Array.mem_toList_iff.mp among) other here

theorem held_map_iff {i : Nat} :
    (∀ other ∈ s.heldBy (.cell .map i), z.Has other) ↔ z.OwnsMap (s.map ⟨i⟩) := by
  constructor
  · intro all entry member
    have both (h : Holder) (here : h ∈ entry.1.value.holders ++ entry.2.holders) : z.Has h :=
      all h (List.mem_flatMap.mpr ⟨entry, member, here⟩)
    exact ⟨fun h here => both h (List.mem_append_left _ here),
      fun h here => both h (List.mem_append_right _ here)⟩
  · intro owned other member
    obtain ⟨entry, among, here⟩ := List.mem_flatMap.mp member
    rcases List.mem_append.mp here with here | here
    · exact (owned entry among).1 other here
    · exact (owned entry among).2 other here

theorem held_set_iff {i : Nat} :
    (∀ other ∈ s.heldBy (.cell .set i), z.Has other) ↔ z.OwnsSet (s.set ⟨i⟩) := by
  constructor
  · intro all entry member h here
    exact all h (List.mem_flatMap.mpr ⟨entry.1, List.mem_map.mpr ⟨entry, member, rfl⟩, here⟩)
  · intro owned other member
    obtain ⟨key, keyed, here⟩ := List.mem_flatMap.mp member
    obtain ⟨entry, among, rfl⟩ := List.mem_map.mp keyed
    exact owned entry among other here

theorem held_inst_iff {i : Nat} :
    (∀ other ∈ s.heldBy (.cell .inst i), z.Has other) ↔
      ∀ made, s.instances[i]? = some made → z.OwnsInstance made := by
  cases here : s.instances[i]? with
  | none => simp [Store.heldBy, here]
  | some made =>
    simp only [Store.heldBy, here, List.forall_mem_cons, ← ownsTable_iff, Option.some.injEq]
    constructor
    · rintro owned _ rfl
      exact owned
    · exact fun owned => owned made rfl

/-- A class of the program, whose statics are owned. -/
structure OwnsClass (z : Zone) (c : ClassDef) : Prop where
  methods : ∀ entry ∈ c.methods.entries, z.runs entry.2
  statics : z.OwnsTable c.statics

theorem OwnsClass.method {c : ClassDef} (owned : z.OwnsClass c) {name : String} {id : ProcedureId}
    (found : c.methods.get? name = some id) : z.runs id := by
  obtain ⟨entry, member, rfl⟩ := find?_mem found
  exact owned.methods entry member

theorem held_class_iff {id : ClassId} :
    (∀ other ∈ s.heldBy (.classDef id), z.Has other) ↔ z.OwnsClass (s.classDef id) := by
  change (∀ other ∈ (s.classDef id).methods.entries.map (Holder.procedure ·.2) ++
    bindingHolders (s.classDef id).statics, z.Has other) ↔ _
  rw [List.forall_mem_append, ← ownsTable_iff, List.forall_mem_map]
  exact ⟨fun ⟨methods, statics⟩ => ⟨methods, statics⟩, fun owned => ⟨owned.methods, owned.statics⟩⟩

/-- A program that starts with procedures of its own, with owned members and modules. -/
structure OwnsProgram (z : Zone) (p : Program) : Prop where
  startup : ∀ id ∈ p.topLevel.toList ++ p.classSetups, z.runs id
  members : z.OwnsTable p.members
  modules : ∀ v ∈ p.modules, z.Owns v

theorem holders_program_iff {p : Program} (alive : p.released = false) :
    (∀ h ∈ p.holders, z.Has h) ↔ z.OwnsProgram p := by
  have same : p.holders = (p.topLevel.toList ++ p.classSetups).map .procedure ++
      bindingHolders p.members ++ p.modules.flatMap Value.holders := by
    rw [Program.holders, alive]
    rfl
  rw [same, List.forall_mem_append, List.forall_mem_append, ← ownsTable_iff, List.forall_mem_map,
    List.forall_mem_flatMap]
  exact ⟨fun ⟨⟨startup, members⟩, modules⟩ => ⟨startup, members, modules⟩,
    fun owned => ⟨⟨owned.startup, owned.members⟩, owned.modules⟩⟩

namespace Settled

variable (settled : z.Settled s)
include settled

theorem list {r : Ref .list} (has : z.cells .list r.index) : ∀ v ∈ s.list r, z.Owns v :=
  held_list_iff.mp (settled.held (.cell .list r.index) has)

theorem map {r : Ref .map} (has : z.cells .map r.index) : z.OwnsMap (s.map r) :=
  held_map_iff.mp (settled.held (.cell .map r.index) has)

theorem set {r : Ref .set} (has : z.cells .set r.index) : z.OwnsSet (s.set r) :=
  held_set_iff.mp (settled.held (.cell .set r.index) has)

theorem inst {r : Ref .inst} (has : z.cells .inst r.index) : z.OwnsTable (s.inst r).members := by
  have owned := held_inst_iff.mp (settled.held (.cell .inst r.index) has)
  rw [Store.inst, Array.getD_eq_getD_getElem?]
  cases found : s.instances[r.index]? with
  | none => exact .empty
  | some made => exact (owned made found).2

theorem native {r : Ref .native} (has : z.cells .native r.index) : z.OwnsNative (s.native r) :=
  settled.held (.cell .native r.index) has

theorem object {r : Ref .object} (has : z.cells .object r.index) : z.OwnsObject (s.object r) :=
  settled.held (.cell .object r.index) has

theorem classDef {c : ClassId} (here : c.program = z.program) : z.OwnsClass (s.classDef c) :=
  held_class_iff.mp (settled.held (.classDef c) here)

theorem classOf {r : Ref .inst} (has : z.cells .inst r.index) : z.OwnsClass (s.classOf r) := by
  have owned := held_inst_iff.mp (settled.held (.cell .inst r.index) has)
  unfold Store.classOf
  cases found : s.instances[r.index]? with
  | none =>
    refine ⟨fun _ member => ?_, OwnsTable.empty⟩
    cases member
  | some made => exact settled.classDef (owned made found).1

theorem program : z.OwnsProgram (s.program z.program) :=
  (holders_program_iff settled.alive).mp settled.roots

end Settled

/-- What is at an index after a change of one entry. -/
theorem getD_modify_cases {α : Type} (xs : Array α) (i j : Nat) (f : α → α) (d : α) :
    (xs.modify j f).getD i d = xs.getD i d ∨ (xs.modify j f).getD i d = f (xs.getD i d) := by
  by_cases same : j = i
  · subst same
    by_cases inside : j < xs.size
    · exact .inr (by simp [Array.getD_eq_getD_getElem?, Array.getElem_modify, inside])
    · have outside : xs.size ≤ j := Nat.le_of_not_lt inside
      exact .inl (by simp [Array.getD_eq_getD_getElem?, outside])
  · exact .inl (by simp [Array.getD_eq_getD_getElem?, Array.getElem?_modify, same])

/-- What is at an index after adding an entry. -/
theorem getD_push_cases {α : Type} (xs : Array α) (a : α) (i : Nat) (d : α) :
    (xs.push a).getD i d = xs.getD i d ∨ (xs.push a).getD i d = a := by
  by_cases last : i = xs.size
  · exact .inr (by simp [Array.getD_eq_getD_getElem?, last])
  · exact .inl (by simp [Array.getD_eq_getD_getElem?, Array.getElem?_push, last])

/-- A store stays settled if a change leaves the programs alone and cells of the zone hold nothing from
outside. -/
theorem Settled.of_cells (settled : z.Settled s) (programs : s'.programs = s.programs)
    (counts : ∀ kind, s.count kind ≤ s'.count kind)
    (cells : ∀ kind i, z.cells kind i → ∀ other ∈ s'.heldBy (.cell kind i), z.Has other) :
    z.Settled s' := by
  have same (id : ProgramId) : s'.program id = s.program id := by
    rw [Store.program, programs, Store.program]
  refine ⟨?_, ?_, ?_, ?_, ?_⟩
  · intro h has other member
    cases h with
    | cell kind i => exact cells kind i has other member
    | procedure id =>
      refine settled.held _ has other ?_
      rwa [Store.heldBy, Store.procedure, same] at member
    | classDef id =>
      refine settled.held _ has other ?_
      rwa [Store.heldBy, Store.classDef, same] at member
  · rw [same]
    exact settled.roots
  · rw [same]
    exact settled.alive
  · rw [same]
    exact settled.code
  · exact fun kind i beyond => settled.fresh kind i (Nat.le_trans (counts kind) beyond)

namespace Settled

variable (settled : z.Settled s)
include settled

theorem addList {items : Array Value} (owned : ∀ v ∈ items, z.Owns v) :
    z.Settled (s.addList items).2 ∧ z.Owns (s.addList items).1 := by
  refine ⟨settled.of_cells rfl ?_ ?_, (owns_list _).mpr (settled.fresh .list _ (Nat.le_refl _))⟩
  · intro kind
    cases kind <;> simp [Store.addList, Store.count]
  · intro kind i has
    cases kind with
    | list =>
      rw [held_list_iff]
      change ∀ v ∈ (s.lists.push items).getD i #[], z.Owns v
      rcases getD_push_cases s.lists items i #[] with old | new
      · rw [old]
        exact settled.list (r := ⟨i⟩) has
      · rwa [new]
    | _ => exact settled.held (.cell _ i) has

theorem addMap {d : Dict Key Value} (owned : z.OwnsMap d) :
    z.Settled (s.addMap d).2 ∧ z.Owns (s.addMap d).1 := by
  refine ⟨settled.of_cells rfl ?_ ?_, (owns_map _).mpr (settled.fresh .map _ (Nat.le_refl _))⟩
  · intro kind
    cases kind <;> simp [Store.addMap, Store.count]
  · intro kind i has
    cases kind with
    | map =>
      rw [held_map_iff]
      change z.OwnsMap ((s.maps.push d).getD i .empty)
      rcases getD_push_cases s.maps d i .empty with old | new
      · rw [old]
        exact settled.map (r := ⟨i⟩) has
      · rwa [new]
    | _ => exact settled.held (.cell _ i) has

theorem addSet {d : Dict Key Unit} (owned : z.OwnsSet d) :
    z.Settled (s.addSet d).2 ∧ z.Owns (s.addSet d).1 := by
  refine ⟨settled.of_cells rfl ?_ ?_, (owns_set _).mpr (settled.fresh .set _ (Nat.le_refl _))⟩
  · intro kind
    cases kind <;> simp [Store.addSet, Store.count]
  · intro kind i has
    cases kind with
    | set =>
      rw [held_set_iff]
      change z.OwnsSet ((s.sets.push d).getD i .empty)
      rcases getD_push_cases s.sets d i .empty with old | new
      · rw [old]
        exact settled.set (r := ⟨i⟩) has
      · rwa [new]
    | _ => exact settled.held (.cell _ i) has

theorem addInstance {made : Instance} (owned : z.OwnsInstance made) :
    z.Settled (s.addInstance made).2 ∧ z.Owns (s.addInstance made).1 := by
  refine ⟨settled.of_cells rfl ?_ ?_, (owns_inst _).mpr (settled.fresh .inst _ (Nat.le_refl _))⟩
  · intro kind
    cases kind <;> simp [Store.addInstance, Store.count]
  · intro kind i has
    cases kind with
    | inst =>
      refine held_inst_iff.mpr fun found here => ?_
      change (s.instances.push made)[i]? = some found at here
      rw [Array.getElem?_push] at here
      split at here
      · cases here
        exact owned
      · exact held_inst_iff.mp (settled.held (.cell .inst i) has) found here
    | _ => exact settled.held (.cell _ i) has

theorem addNative {f : Native} (owned : z.OwnsNative f) :
    z.Settled (s.addNative f).2 ∧ z.Owns (s.addNative f).1 := by
  refine ⟨settled.of_cells rfl ?_ ?_, (owns_native _).mpr (settled.fresh .native _ (Nat.le_refl _))⟩
  · intro kind
    cases kind <;> simp [Store.addNative, Store.count]
  · intro kind i has
    cases kind with
    | native =>
      change z.OwnsNative ((s.natives.push f).getD i default)
      rcases getD_push_cases s.natives f i default with old | new
      · rw [old]
        exact settled.native (r := ⟨i⟩) has
      · rwa [new]
    | _ => exact settled.held (.cell _ i) has

theorem addPair {first second : Value} (left : z.Owns first) (right : z.Owns second) :
    z.Settled (s.addPair first second).2 ∧ z.Owns (s.addPair first second).1 := by
  refine ⟨settled.of_cells rfl ?_ ?_, (owns_pair _ _ _).mpr ⟨left, right⟩⟩
  · exact fun kind => by cases kind <;> exact Nat.le_refl _
  · exact fun kind i has => settled.held (.cell kind i) has

theorem modifyList {r : Ref .list} {f : Array Value → Array Value}
    (kept : ∀ items, (∀ v ∈ items, z.Owns v) → ∀ v ∈ f items, z.Owns v) :
    z.Settled (s.modifyList r f) := by
  refine settled.of_cells rfl ?_ ?_
  · intro kind
    cases kind <;> simp [Store.modifyList, Store.count]
  · intro kind i has
    cases kind with
    | list =>
      rw [held_list_iff]
      change ∀ v ∈ (s.lists.modify r.index f).getD i #[], z.Owns v
      rcases getD_modify_cases s.lists i r.index f #[] with old | new
      · rw [old]
        exact settled.list (r := ⟨i⟩) has
      · rw [new]
        exact kept _ (settled.list (r := ⟨i⟩) has)
    | _ => exact settled.held (.cell _ i) has

theorem modifyMap {r : Ref .map} {f : Dict Key Value → Dict Key Value}
    (kept : ∀ d, z.OwnsMap d → z.OwnsMap (f d)) : z.Settled (s.modifyMap r f) := by
  refine settled.of_cells rfl ?_ ?_
  · intro kind
    cases kind <;> simp [Store.modifyMap, Store.count]
  · intro kind i has
    cases kind with
    | map =>
      rw [held_map_iff]
      change z.OwnsMap ((s.maps.modify r.index f).getD i .empty)
      rcases getD_modify_cases s.maps i r.index f .empty with old | new
      · rw [old]
        exact settled.map (r := ⟨i⟩) has
      · rw [new]
        exact kept _ (settled.map (r := ⟨i⟩) has)
    | _ => exact settled.held (.cell _ i) has

theorem modifySet {r : Ref .set} {f : Dict Key Unit → Dict Key Unit}
    (kept : ∀ d, z.OwnsSet d → z.OwnsSet (f d)) : z.Settled (s.modifySet r f) := by
  refine settled.of_cells rfl ?_ ?_
  · intro kind
    cases kind <;> simp [Store.modifySet, Store.count]
  · intro kind i has
    cases kind with
    | set =>
      rw [held_set_iff]
      change z.OwnsSet ((s.sets.modify r.index f).getD i .empty)
      rcases getD_modify_cases s.sets i r.index f .empty with old | new
      · rw [old]
        exact settled.set (r := ⟨i⟩) has
      · rw [new]
        exact kept _ (settled.set (r := ⟨i⟩) has)
    | _ => exact settled.held (.cell _ i) has

theorem setField {r : Ref .inst} {name : String} {v : Value} (owned : z.Owns v) :
    z.Settled (s.setField r name v) := by
  refine settled.of_cells rfl ?_ ?_
  · intro kind
    cases kind <;> simp [Store.setField, Store.count]
  · intro kind i has
    cases kind with
    | inst =>
      refine held_inst_iff.mpr fun found here => ?_
      have old := held_inst_iff.mp (settled.held (.cell .inst i) has)
      change (s.instances.modify r.index _)[i]? = some found at here
      rw [Array.getElem?_modify] at here
      split at here
      · obtain ⟨before, there, rfl⟩ := Option.map_eq_some_iff.mp here
        exact ⟨(old before there).1, (old before there).2.set owned⟩
      · exact old found here
    | _ => exact settled.held (.cell _ i) has

end Settled

/-- A store stays settled if a change leaves the cells alone, and the program stays alive and owned. -/
theorem Settled.of_program (settled : z.Settled s) (counts : ∀ kind, s.count kind ≤ s'.count kind)
    (cells : ∀ kind i, s'.heldBy (.cell kind i) = s.heldBy (.cell kind i))
    (owned : z.OwnsProgram (s'.program z.program))
    (classes : ∀ c : ClassId, c.program = z.program → z.OwnsClass (s'.classDef c))
    (alive : (s'.program z.program).released = false)
    (code : (s'.program z.program).procedures = z.procedures) : z.Settled s' := by
  refine ⟨?_, (holders_program_iff alive).mpr owned, alive, code, ?_⟩
  · intro h has other member
    cases h with
    | cell kind i =>
      rw [cells] at member
      exact settled.held _ has other member
    | procedure id =>
      have here := z.own id has
      refine settled.held (.procedure id) has other ?_
      change other ∈ (s.procedure id).holders
      rw [Store.procedure, here, settled.code, ← code, ← here]
      exact member
    | classDef id => exact held_class_iff.mpr (classes id has) other member
  · exact fun kind i beyond => settled.fresh kind i (Nat.le_trans (counts kind) beyond)

/-- A change of one program keeps the store settled if it keeps a program of the zone one. -/
theorem Settled.modifyProgram (settled : z.Settled s) {id : ProgramId} {f : Program → Program}
    (kept : ∀ p, z.OwnsProgram p → z.OwnsProgram (f p))
    (classes : ∀ p i, z.OwnsClass (p.classes.getD i default) →
      z.OwnsClass ((f p).classes.getD i default))
    (alive : ∀ p, (f p).released = p.released) (code : ∀ p, (f p).procedures = p.procedures) :
    z.Settled (s.modifyProgram id f) := by
  have cases := s.program_modifyProgram id f z.program
  refine settled.of_program (fun kind => ?_) (fun kind i => ?_) ?_ ?_ ?_ ?_
  · cases kind <;> exact Nat.le_refl _
  · cases kind <;> rfl
  · rcases cases with same | ⟨_, same⟩ <;> rw [same]
    · exact settled.program
    · exact kept _ settled.program
  · intro c here
    have old := settled.classDef here
    rw [Store.classDef, here] at old ⊢
    rcases cases with same | ⟨_, same⟩ <;> rw [same]
    · exact old
    · exact classes _ _ old
  · rcases cases with same | ⟨_, same⟩ <;> rw [same]
    · exact settled.alive
    · rw [alive, settled.alive]
  · rcases cases with same | ⟨_, same⟩ <;> rw [same]
    · exact settled.code
    · rw [code, settled.code]

theorem Settled.define (settled : z.Settled s) {id : ProgramId} {name : String} {v : Value}
    (owned : z.Owns v) : z.Settled (s.define id name v) :=
  settled.modifyProgram (fun _ old => ⟨old.startup, old.members.set owned, old.modules⟩)
    (fun _ _ old => old) (fun _ => rfl) (fun _ => rfl)

theorem Settled.setStatic (settled : z.Settled s) {c : ClassId} {name : String} {v : Value}
    (owned : z.Owns v) : z.Settled (s.setStatic c name v) := by
  refine settled.modifyProgram (fun _ old => ⟨old.startup, old.members, old.modules⟩) ?_
    (fun _ => rfl) (fun _ => rfl)
  intro p i old
  let write (c : ClassDef) : ClassDef := { c with statics := c.statics.set name v }
  change z.OwnsClass ((p.classes.modify c.index write).getD i default)
  rcases getD_modify_cases p.classes i c.index write default with same | same <;> rw [same]
  · exact old
  · exact ⟨old.methods, old.statics.set owned⟩

end Zone

end ScriptEngine
