import Mathlib.Tactic.ByContra
import ScriptEngine.Proofs.Listed

/-! # Names and the tables of a frame

A frame finds names in three tables: its own variables, the statics of its class, and the members of its program.
Looking up and assigning walk them in ways of their own, which depend on the kind of the frame. Here they are shown to
agree: an assignment writes one table, that in which the name is found or, for a new name, that in which new names of
the frame go, and what is looked up afterwards is what was assigned.
-/

namespace ScriptEngine

namespace Store

variable {s : Store} {name : String}

/-- A class that has a static member has the one that is written. -/
theorem statics_setStatic {c : ClassId} (known : (s.classDef c).statics.contains name = true) (v : Value) :
    ((s.setStatic c name v).classDef c).statics = (s.classDef c).statics.set name v := by
  unfold setStatic classDef program modifyProgram at *
  simp only [Array.getD_eq_getD_getElem?, Array.getElem?_modify, if_true] at known ⊢
  cases loaded : s.programs[c.program]? with
  | none =>
    rw [loaded] at known
    cases known
  | some p =>
    rw [loaded] at known
    simp only [Option.getD_some, Option.map_some, Array.getElem?_modify, if_true] at known ⊢
    cases made : p.classes[c.index]? with
    | none =>
      rw [made] at known
      cases known
    | some d => rfl

theorem members_setStatic (c : ClassId) (v : Value) (p : ProgramId) :
    ((s.setStatic c name v).program p).members = (s.program p).members := by
  unfold setStatic
  rcases s.program_modifyProgram c.program _ p with same | ⟨_, same⟩ <;> rw [same]

/-- A program that is loaded has the member that is written. -/
theorem members_define {p : ProgramId} (loaded : p < s.programs.size) (v : Value) :
    ((s.define p name v).program p).members = (s.program p).members.set name v := by
  unfold define program modifyProgram
  simp only [Array.getD_eq_getD_getElem?, Array.getElem?_modify, if_true, Array.getElem?_eq_getElem loaded]
  rfl

theorem classDef_define (p : ProgramId) (v : Value) (c : ClassId) : (s.define p name v).classDef c = s.classDef c := by
  unfold define classDef
  rcases s.program_modifyProgram p _ c.program with same | ⟨_, same⟩ <;> rw [same]

/-- A program that has a member is loaded. -/
theorem lt_of_members {p : ProgramId} (known : (s.program p).members.contains name = true) : p < s.programs.size := by
  by_contra beyond
  rw [program, Array.getD_eq_getD_getElem?, Array.getElem?_eq_none (Nat.not_lt.mp beyond)] at known
  cases known

end Store

/-- The tables in which a frame finds names, in the order in which they are looked through: its own variables, the
statics of its class, and the members of its program. -/
inductive Scope where
  | own | statics | members
deriving DecidableEq, Repr

namespace Frame

variable {f : Frame} {s : Store} {name : String} {v : Value} {scope : Scope}

/-- A table of a frame. A frame without a class has no statics. -/
def tableOf (f : Frame) (s : Store) : Scope → Bindings
  | .own => f.locals.table
  | .statics => f.owner.elim .empty fun owner => (s.classDef owner).statics
  | .members => (s.program f.program).members

/-- The table in which a frame finds a name. -/
def scope? (f : Frame) (s : Store) (name : String) : Option Scope :=
  [.own, .statics, .members].find? fun scope => (f.tableOf s scope).contains name

/-- The table that a name goes to which the frame does not find: a variable of a procedure, a member of the program of
top-level code. -/
def home (f : Frame) : Scope :=
  match f.locals with
  | .procedure _ => .own
  | .topLevel _ => .members

/-- A frame and a store after writing a name in one of the tables. -/
def write (f : Frame) (s : Store) (name : String) (v : Value) : Scope → Frame × Store
  | .own =>
    let locals := match f.locals with
      | .procedure table => .procedure (table.set name v)
      | .topLevel hidden => .topLevel (hidden.set name v)
    ({ f with locals }, s)
  | .statics => (f, f.owner.elim s fun owner => s.setStatic owner name v)
  | .members => (f, s.define f.program name v)

/-- What holds of top-level code whenever it runs: its program is loaded, and its own variables are hidden ones. -/
structure IsAnchored (f : Frame) (s : Store) : Prop where
  loaded : ∀ hidden, f.locals = .topLevel hidden → f.program < s.programs.size
  owns : f.OwnsHidden

theorem lookup_tables (f : Frame) (s : Store) (name : String) :
    f.lookup s name = ((f.tableOf s .own).get? name <|> (f.tableOf s .statics).get? name <|>
      (f.tableOf s .members).get? name) := by
  have statics : f.static? s name = (f.tableOf s .statics).get? name := by
    unfold static? tableOf
    cases f.owner <;> rfl
  rw [lookup, statics]
  rfl

/-- The first table that has a name is the one that it is read from. -/
theorem lookup_scope (f : Frame) (s : Store) (name : String) :
    f.lookup s name = (f.scope? s name).bind fun scope => (f.tableOf s scope).get? name := by
  rw [lookup_tables]
  unfold scope?
  simp only [List.find?_cons, List.find?_nil, Table.contains]
  cases own : (f.tableOf s .own).get? name with
  | some v => simp [own]
  | none =>
    cases statics : (f.tableOf s .statics).get? name with
    | some v => simp [statics]
    | none => cases members : (f.tableOf s .members).get? name <;> simp [members]

/-- A frame may write a name in a table: its class has such a static, or its program is loaded, and no table before it
has the name. -/
inductive Admits (f : Frame) (s : Store) (name : String) : Scope → Prop
  | own : Admits f s name .own
  | statics : (f.tableOf s .own).contains name = false → (f.tableOf s .statics).contains name = true →
    Admits f s name .statics
  | members : (f.tableOf s .own).contains name = false → (f.tableOf s .statics).contains name = false →
    f.program < s.programs.size → Admits f s name .members

/-- Writing a name changes one table, and that only at the name. -/
theorem tableOf_write (admits : f.Admits s name scope) (v : Value) (other : Scope) :
    (f.write s name v scope).1.tableOf (f.write s name v scope).2 other =
      if other = scope then (f.tableOf s scope).set name v else f.tableOf s other := by
  cases admits with
  | own => cases locals : f.locals <;> cases other <;> simp [write, tableOf, locals, Locals.table]
  | statics _ known =>
    unfold tableOf at known
    cases owner : f.owner with
    | none =>
      rw [owner] at known
      cases known
    | some c =>
      rw [owner] at known
      cases other <;> simp [write, tableOf, owner, Store.members_setStatic, Store.statics_setStatic known]
  | members _ _ loaded =>
    cases other <;> simp [write, tableOf, Store.members_define loaded, Store.classDef_define]

/-- What is read after a name was written. -/
theorem lookup_write (admits : f.Admits s name scope) (v : Value) (other : String) :
    (f.write s name v scope).1.lookup (f.write s name v scope).2 other =
      if other = name then some v else f.lookup s other := by
  have absent {table : Bindings} (lacks : table.contains name = false) : table.get? name = none := by
    simpa [Table.contains] using lacks
  simp only [lookup_tables, tableOf_write admits]
  by_cases same : other = name
  · subst same
    cases admits with
    | own => simp [Table.get?_set]
    | statics lacks _ => simp [Table.get?_set, absent lacks]
    | members lacks lacks' _ => simp [Table.get?_set, absent lacks, absent lacks']
  · cases scope <;> simp [Table.get?_set, same]

theorem staticOwner?_eq (f : Frame) (s : Store) (name : String) :
    f.staticOwner? s name = if (f.tableOf s .statics).contains name then f.owner else none := by
  unfold staticOwner? tableOf
  cases f.owner with
  | none => rfl
  | some owner => rfl

theorem scope?_eq (f : Frame) (s : Store) (name : String) :
    f.scope? s name =
      if (f.tableOf s .own).contains name then some .own
      else if (f.tableOf s .statics).contains name then some .statics
      else if (f.tableOf s .members).contains name then some .members
      else none := by
  unfold scope?
  simp only [List.find?_cons, List.find?_nil]
  cases (f.tableOf s .own).contains name <;> cases (f.tableOf s .statics).contains name <;>
    cases (f.tableOf s .members).contains name <;> rfl

/-- The table that an assignment writes. Variables that the compiler made up stay with top-level code. -/
def target (f : Frame) (s : Store) (name : String) : Scope :=
  match f.locals with
  | .procedure _ => (f.scope? s name).getD f.home
  | .topLevel _ => if isHidden name then .own else (f.scope? s name).getD f.home

/-- A plain name goes where it is found, or else where new names go. -/
theorem target_of_plain (plain : isHidden name = false) : f.target s name = (f.scope? s name).getD f.home := by
  unfold target
  split
  · rfl
  · rw [plain]
    rfl

/-- Where a frame has a static, writing it is writing in the class of the frame. -/
theorem write_statics (known : (f.tableOf s .statics).contains name = true) (v : Value) :
    ∃ owner, f.owner = some owner ∧ f.write s name v .statics = (f, s.setStatic owner name v) := by
  unfold tableOf at known
  cases owner : f.owner with
  | none =>
    rw [owner] at known
    cases known
  | some c => exact ⟨c, rfl, by rw [write, owner]; rfl⟩

/-- An assignment writes its name in one table, and the frame may do so. -/
theorem assign_eq_write (anchored : f.IsAnchored s) (name : String) (v : Value) :
    f.assign s name v = f.write s name v (f.target s name) ∧ f.Admits s name (f.target s name) := by
  unfold assign target home
  rw [scope?_eq, staticOwner?_eq]
  cases locals : f.locals with
  | procedure table =>
    have here : f.tableOf s .own = table := by rw [tableOf, locals]; rfl
    dsimp only
    rw [here]
    cases own : table.contains name with
    | true => exact ⟨by simp [write, locals], .own⟩
    | false =>
      cases statics : (f.tableOf s .statics).contains name with
      | true =>
        obtain ⟨owner, same, written⟩ := write_statics statics v
        rw [same]
        exact ⟨written.symm, .statics (here ▸ own) statics⟩
      | false =>
        change (if (f.tableOf s .members).contains name then _ else _) = _ ∧ _
        cases members : (f.tableOf s .members).contains name with
        | true => exact ⟨rfl, .members (here ▸ own) statics (Store.lt_of_members members)⟩
        | false => exact ⟨by simp [write, locals], .own⟩
  | topLevel hidden =>
    have here : f.tableOf s .own = hidden := by rw [tableOf, locals]; rfl
    have loaded := anchored.loaded hidden locals
    have only := anchored.owns hidden locals
    dsimp only
    cases named : isHidden name with
    | true => exact ⟨by simp [write, locals], .own⟩
    | false =>
      have own : hidden.contains name = false := by
        by_contra has
        rw [only name (by simpa using has)] at named
        cases named
      rw [here, own]
      cases statics : (f.tableOf s .statics).contains name with
      | true =>
        obtain ⟨owner, same, written⟩ := write_statics statics v
        rw [same]
        exact ⟨written.symm, .statics (here ▸ own) statics⟩
      | false =>
        have lacks := Admits.members (here ▸ own) statics loaded
        cases (f.tableOf s .members).contains name <;> exact ⟨rfl, lacks⟩

/-- An assignment to a frame leaves it the kind of variables that it has. -/
theorem locals_assign (f : Frame) (s : Store) (name : String) (v : Value) :
    (f.assign s name v).1.locals = f.locals ∨
      (∃ table, f.locals = .procedure table ∧ (f.assign s name v).1.locals = .procedure (table.set name v)) ∨
      ∃ hidden, f.locals = .topLevel hidden ∧ isHidden name = true ∧
        (f.assign s name v).1.locals = .topLevel (hidden.set name v) := by
  unfold assign
  cases locals : f.locals with
  | procedure table =>
    dsimp only
    split
    · exact .inr (.inl ⟨table, rfl, rfl⟩)
    · split
      · exact .inl locals
      · split
        · exact .inl locals
        · exact .inr (.inl ⟨table, rfl, rfl⟩)
  | topLevel hidden =>
    dsimp only
    split
    · next named => exact .inr (.inr ⟨hidden, rfl, named, rfl⟩)
    · split <;> exact .inl locals

/-- Assigning gives top-level code no variables but hidden ones. -/
theorem OwnsHidden.assign (owns : f.OwnsHidden) (s : Store) (name : String) (v : Value) :
    (f.assign s name v).1.OwnsHidden := by
  intro table same
  rcases f.locals_assign s name v with kept | ⟨_, _, now⟩ | ⟨hidden, was, named, now⟩
  · exact owns table (kept.symm.trans same)
  · cases now.symm.trans same
  · exact owns.set was named v table (now.symm.trans same)

/-- Assigning leaves the programs where they are. -/
theorem size_assign (f : Frame) (s : Store) (name : String) (v : Value) :
    (f.assign s name v).2.programs.size = s.programs.size ∧ (f.assign s name v).1.program = f.program := by
  have size (id : ProgramId) (change : Program → Program) :
      (s.modifyProgram id change).programs.size = s.programs.size :=
    Array.size_modify
  unfold Frame.assign
  split
  · split
    · exact ⟨rfl, rfl⟩
    · split <;> exact ⟨size _ _, rfl⟩
  · split
    · exact ⟨rfl, rfl⟩
    · split
      · exact ⟨size _ _, rfl⟩
      · split
        · exact ⟨size _ _, rfl⟩
        · exact ⟨rfl, rfl⟩

theorem IsAnchored.assign (anchored : f.IsAnchored s) (name : String) (v : Value) :
    (f.assign s name v).1.IsAnchored (f.assign s name v).2 where
  loaded hidden same := by
    obtain ⟨size, program⟩ := f.size_assign s name v
    rw [size, program]
    rcases f.locals_assign s name v with kept | ⟨_, _, now⟩ | ⟨hidden', was, _⟩
    · exact anchored.loaded hidden (kept.symm.trans same)
    · cases now.symm.trans same
    · exact anchored.loaded hidden' was
  owns := anchored.owns.assign s name v

/-- Assigning and looking up agree. After an assignment the name means what was assigned, and every other name what it
meant. A name that the compiler did not make up is written in one table and at that name only: in the table that it was
read from if it was found, and otherwise among the variables of a procedure or the members of the program of top-level
code. -/
theorem lookup_after_assign (anchored : f.IsAnchored s) (name : String) (v : Value) :
    (∀ other, (f.assign s name v).1.lookup (f.assign s name v).2 other =
        if other = name then some v else f.lookup s other) ∧
      f.lookup s name = ((f.scope? s name).bind fun scope => (f.tableOf s scope).get? name) ∧
      (isHidden name = false → ∃ scope, scope = (f.scope? s name).getD f.home ∧
        f.assign s name v = f.write s name v scope ∧
        ∀ other, (f.assign s name v).1.tableOf (f.assign s name v).2 other =
          if other = scope then (f.tableOf s scope).set name v else f.tableOf s other) ∧
      (f.assign s name v).1.IsAnchored (f.assign s name v).2 := by
  obtain ⟨written, admits⟩ := assign_eq_write anchored name v
  refine ⟨fun other => ?_, f.lookup_scope s name, fun plain => ⟨_, rfl, ?_, fun other => ?_⟩, anchored.assign name v⟩
  · rw [written]
    exact lookup_write admits v other
  · rw [written, target_of_plain plain]
  · rw [written, ← target_of_plain plain]
    exact tableOf_write admits v other

/-- A program with a class that has a static `count`, and with a member `total`. -/
def sampleStore : Store :=
  let k : ClassDef := ⟨"Account", Table.empty.set "count" .null, .empty⟩
  { Store.empty with programs := #[{ (default : Program) with
      classes := #[k], members := Table.empty.set "total" (.bool false) }] }

/-- The frame that sets up the class, in a loop. -/
def sampleSetup : Frame :=
  ⟨default, some ⟨0, 0⟩, 0, "", .topLevel (Table.empty.set "idx#0" .null), .empty, [], 0, ⟨1, 1⟩, 8⟩

theorem sampleSetup_isAnchored : sampleSetup.IsAnchored sampleStore where
  loaded _ _ := by decide
  owns := by
    rintro _ ⟨⟩ name has
    rw [Table.contains_set] at has
    have same : name = "idx#0" := by simpa [Table.contains, Table.empty, Table.get?, Table.find?] using has
    rw [same]
    decide

/-- Setting up the class writes its static, and its program's member, and a new name becomes a member. -/
theorem sampleSetup_lookup : sampleSetup.IsAnchored sampleStore ∧
    (sampleSetup.scope? sampleStore "count" = some .statics ∧
      ∃ r, sampleSetup.assign sampleStore "count" (.bool true) = r ∧ r.1.lookup r.2 "count" = some (.bool true) ∧
        r.1.lookup r.2 "total" = some (.bool false)) ∧
    (sampleSetup.scope? sampleStore "fresh" = none ∧ sampleSetup.home = .members ∧
      ∃ r, sampleSetup.assign sampleStore "fresh" (.bool true) = r ∧
        (r.2.program 0).members.get? "fresh" = some (.bool true)) := by
  have count := (lookup_after_assign sampleSetup_isAnchored "count" (.bool true)).1
  obtain ⟨_, rfl, _, tables⟩ := (lookup_after_assign sampleSetup_isAnchored "fresh" (.bool true)).2.2.1 (by decide)
  refine ⟨sampleSetup_isAnchored, ⟨by decide, _, rfl, count "count", count "total"⟩, by decide, by decide, _, rfl, ?_⟩
  have here : ((sampleSetup.assign sampleStore "fresh" (.bool true)).2.program 0).members = _ := tables .members
  rw [here, if_pos (by decide), Table.get?_set, if_pos rfl]

end Frame

/-- Where a program has procedures, it is loaded. -/
theorem Zone.Settled.loaded {z : Zone} {s : Store} (settled : z.Settled s) (some : z.procedures ≠ #[]) :
    z.program < s.programs.size := by
  by_contra beyond
  have none : (s.program z.program).procedures = #[] := by
    rw [Store.program, Array.getD_eq_getD_getElem?, Array.getElem?_eq_none (Nat.not_lt.mp beyond)]
    rfl
  exact some (settled.code ▸ none)

theorem Zone.OwnsMachine.anchored {z : Zone} {m : Machine} (owned : z.OwnsMachine m) (some : z.procedures ≠ #[]) :
    m.frame.IsAnchored m.state.store :=
  ⟨fun _ _ => owned.frame.program ▸ owned.store.loaded some, owned.frame.hidden⟩

/-- Whatever a host does with a program that was loaded, the frames of all machines that its operations visit are
anchored, and so are those that wait for them. -/
theorem Engine.visits_anchored {source file : String} {breakpoints : Bool} {tree : ModuleTree} {program : ProgramId}
    {s₀ s₁ s₂ : State} (parsed : ModuleTree.ofSource source = .ok tree)
    (loaded : (Engine.load source file breakpoints : Exec ScriptError ProgramId) s₀ = .ok program s₁) {e : Engine}
    (tame : Zone.Session.IsTame (s₁.store.keptZone program) e.host s₁)
    (session : (s₁.store.keptZone program).Session e.host s₁ s₂) {op : Operation}
    (within : op.IsWithin ((s₁.store.keptZone program).grow s₂.store)) {levels : Nat} {waiting : List Machine}
    {m : Machine} (visits : e.Visits (fun calls => op.perform calls program s₂) levels waiting m) :
    ∀ m' ∈ m :: waiting, m'.frame.IsAnchored m'.state.store := by
  intro m' member
  obtain ⟨owned, same⟩ := Engine.visits_kept parsed loaded tame session within visits
  refine (owned m' member).anchored fun none => ?_
  obtain ⟨top, _, named⟩ := (Engine.load_isNumbered parsed loaded).topLevel
  rw [same.symm.trans none] at named
  cases named

end ScriptEngine
