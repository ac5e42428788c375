import ScriptEngine.Proofs.Privacy
import ScriptEngine.Proofs.Sessions
import ScriptEngine.Proofs.Startup

/-! # Hidden names stay hidden

No member of a program ever has a name that the compiler made up, as long as the host writes none. So the variable of a
loop can only be captured by a static of a class; where that does not happen, every loop finds its variables as it left
them, whatever else runs meanwhile.
-/

namespace ScriptEngine

/-- The members of the items so far have names of the text. -/
theorem ItemSummary.isPlain_add {s : ItemSummary} {program : ProgramId} {item : Item}
    (plain : ∀ name, isHidden name = true → s.members.contains name = false) (named : AllPlain item.names) :
    ∀ name, isHidden name = true → (s.add program item).members.contains name = false := by
  have added (own : String) (v : Value) (unhidden : isHidden own = false) (name : String)
      (hidden : isHidden name = true) : (s.members.set own v).contains name = false := by
    have differ : name ≠ own := by
      rintro rfl
      exact absurd (unhidden.symm.trans hidden) (by simp)
    rw [Table.contains_set, plain name hidden, decide_eq_false differ]
    rfl
  cases item with
  | function f => exact added f.name _ (named f.name List.mem_cons_self)
  | classDef c => exact added c.name _ (named c.name List.mem_cons_self)
  | statement t => exact plain

theorem ModuleTree.members_plain (t : ModuleTree) (program : ProgramId) (plain : AllPlain t.names) :
    ∀ name, isHidden name = true → (t.summary program).members.contains name = false := by
  have fold (items : List Item) (s : ItemSummary)
      (unhidden : ∀ name, isHidden name = true → s.members.contains name = false)
      (each : ∀ item ∈ items, AllPlain item.names) :
      ∀ name, isHidden name = true → (items.foldl (ItemSummary.add program) s).members.contains name = false := by
    induction items generalizing s with
    | nil => exact unhidden
    | cons item rest ih =>
      obtain ⟨here, others⟩ := List.forall_mem_cons.mp each
      exact ih _ (ItemSummary.isPlain_add unhidden here) others
  exact fold t.items _ (fun _ _ => rfl) fun item among name here =>
    plain name (List.mem_flatMap_of_mem among here)

/-- No member of a program has a name that the compiler made up when it is loaded. -/
theorem Program.ofSource_isPlain (source file : String) (o : LoweringOptions) :
    (Program.ofSource source file o).IsPlain := by
  cases parsed : ModuleTree.ofSource source with
  | ok t =>
    obtain ⟨parts, same, lowered⟩ := Program.ofSource_eq file o parsed
    rw [same]
    intro name hidden
    rw [show (Program.ofParts file (.of source) parts).members = _ from lowered.members]
    exact t.members_plain o.program (ModuleTree.ofSource_plain parsed) name hidden
  | error fault =>
    rw [Program.ofSource_refused file o parsed]
    exact fun _ _ => rfl

/-- If something holds of a state, it holds of a later one. -/
def Preserves (I : State → Prop) (s s' : State) : Prop := I s → I s'

/-- Functions that uphold something: it holds after them, and whenever they request a nested run. -/
def Upholds (I : State → Prop) : Conduct := fun α x =>
  Respects (Preserves I) α x ∧ ∀ calls : Calls, calls.Keep (Preserves I) → ∀ ⦃s t : State⦄ ⦃q : Request⦄, I s →
    Starts (fun calls => x calls s) calls q t → I t

section

variable {I : State → Prop} {s t : State} {q : Request} {calls : Calls} {α : Type} (enduring : Enduring (Preserves I))
include enduring

theorem Composed.upholds {x : Calls → Exec RuntimeError α} (composed : Composed Mild (Upholds I) x)
    (keep : calls.Keep (Preserves I)) (here : I s) (starts : Starts (fun calls => x calls s) calls q t) : I t := by
  induction composed generalizing s with
  | plain => exact absurd starts Starts.not_const
  | host upholds => exact upholds.2 calls keep here starts
  | native r args =>
    obtain ⟨_, rfl⟩ := starts.native
    exact here
  | attempt _ ih => exact ih here (starts.of_congr fun _ same => attempt_congr same)
  | holding h _ ih =>
    have held : I ⟨s.store, s.control.hold h⟩ := enduring.ofControl id id here
    exact ih held (starts.of_congr fun _ same => holding_congr same)
  | @bind α β x f firstly _ first rest =>
    rcases starts.bind_cases with starts | ⟨a, s', run, starts⟩
    · exact first here starts
    · have before := enduring.absorbing.composed (firstly.mono fun _ _ both => both.1) keep s here
      rw [run] at before
      exact rest a before starts

theorem Relays.upholds {inv : Prop} {x : Calls → Exec ScriptError α} (relays : Relays Mild (Upholds I) inv x)
    (keep : calls.Keep (Preserves I)) (here : I s) (starts : Starts (fun calls => x calls s) calls q t) : I t := by
  induction relays generalizing s with
  | plain => exact absurd starts Starts.not_const
  | located site composed =>
    exact composed.upholds enduring keep here (starts.of_congr fun _ same => mapError_congr same)
  | enter find _ =>
    obtain ⟨_, _, _, _, _, rfl⟩ := starts.found
    exact here
  | invoke callee args _ =>
    obtain ⟨_, rfl⟩ := starts.invoke
    exact here
  | holding h _ ih =>
    have held : I ⟨s.store, s.control.hold h⟩ := enduring.ofControl id id here
    exact ih held (starts.of_congr fun _ same => holding_congr same)
  | @bind α β x f firstly _ first rest =>
    rcases starts.bind_cases with starts | ⟨a, s', run, starts⟩
    · exact first here starts
    · have before := enduring.absorbing.relays (firstly.mono fun _ _ both => both.1) keep s here
      rw [run] at before
      exact rest a before starts

end

namespace Engine

variable {I : State → Prop} {e : Engine} {op : Operation} {program : ProgramId} {s t : State} {levels : Nat}
  {waiting : List Machine} {m : Machine} {q : Request} (enduring : Enduring (Preserves I))
  (within : e.host.Within (Upholds I))
include enduring within

/-- What the functions of the host uphold holds wherever something is requested. -/
theorem Makes.upholds (here : I s)
    (made : e.Makes (fun calls => op.perform calls program s) levels waiting q t) : I t := by
  have respects : e.host.Within (Respects (Preserves I)) := within.mono fun _ _ both => both.1
  have keep := below_keep enduring respects
  induction made with
  | host starts => exact (op.perform_relays _ program).upholds enduring (keep _) here starts
  | instruction _ comes _ starts ih =>
    obtain ⟨m', x, ready, relays, _, starts⟩ := Machine.step_starts_relayed within starts
    have prepared := enduring.onward ready.onward (comes.endures enduring respects ih)
    exact (relays.holding m'.frame.hold).upholds enduring (keep _) prepared starts
  | invoke _ starts ih => exact (Invoke.value_relays within ..).upholds enduring (keep _) ih starts
  | native _ starts ih => exact (Invoke.native_composed within ..).upholds enduring (keep _) ih starts

end Engine

/-- No member of any program has a name that the compiler made up. -/
def State.IsPlain (s : State) : Prop := ∀ id, (s.store.program id).IsPlain

/-- A host whose functions write no member with a name that the compiler made up: there is none after one of them, and
none where one goes back into the interpreter. -/
def Host.WritesNoHidden (host : Host) : Prop := host.Within (Upholds State.IsPlain)

namespace State

/-- The interpreter itself makes no such member. -/
theorem isPlain_enduring : Enduring (Preserves IsPlain) :=
  ⟨fun onward plain id => (onward.programs id).plain (plain id), fun first second plain => second (first plain)⟩

theorem start_isPlain : start.IsPlain := fun _ _ _ => rfl

end State

/-- A host whose functions only fail, or only call what they are given, writes no members. -/
theorem Host.relay_writesNoHidden : Host.relay.WritesNoHidden := by
  have fails {α : Type} (e : RuntimeError) : Upholds State.IsPlain α fun _ => Exec.fail e :=
    ⟨fun _ _ _ plain => plain, fun _ _ _ _ _ _ starts => absurd starts Starts.not_const⟩
  refine ⟨fun _ _ _ => fails _, fun _ _ _ _ => fails _, fun _ _ _ _ => fails _, fun _ _ _ => fails _, ?_⟩
  intro name captured args
  cases args with
  | nil => exact fails _
  | cons callee rest =>
    refine ⟨fun calls keep s => ?_, fun calls _ s t q plain starts => ?_⟩
    · change Preserves State.IsPlain s (finalState ((calls.invoke callee.value rest).mapError _ s))
      rw [finalState_mapError]
      exact keep.invoke callee.value rest s
    · obtain ⟨_, rfl⟩ := (starts.of_congr (x := fun calls => calls.invoke callee.value rest s) fun _ same =>
        mapError_congr same).invoke
      exact plain

namespace Engine

variable {s t : State} {ε : Type}

/-- Loading a source text makes no such member. -/
theorem load_isPlain (source file : String) (breakpoints : Bool) :
    Preserves State.IsPlain s (finalState ((load source file breakpoints : Exec ε ProgramId) s)) := by
  intro plain id
  change ((s.store.addProgram (Program.ofSource source file ⟨s.store.programs.size, breakpoints⟩)).2.program id).IsPlain
  by_cases new : id = s.store.programs.size
  · subst new
    rw [Store.program_addProgram]
    exact Program.ofSource_isPlain _ _ _
  · have old : (s.store.addProgram (Program.ofSource source file ⟨s.store.programs.size, breakpoints⟩)).2.program id =
        s.store.program id := by
      simp [Store.program, Store.addProgram, Array.getElem?_push, new]
    rw [old]
    exact plain id

/-- Nor does a host that writes a member with another name. -/
theorem setMember_isPlain (id : ProgramId) {name : String} (unhidden : isHidden name = false) (v : Value) :
    Preserves State.IsPlain s (finalState (setMember id name v s)) := by
  intro plain
  have checked := check_eq id s
  unfold setMember
  cases refused : (s.store.program id).failure with
  | some report =>
    rw [refused] at checked
    rw [bind_error checked]
    exact plain
  | none =>
    rw [refused] at checked
    rw [bind_ok checked]
    exact fun other =>
      (s.store.define_stays (fun hidden => absurd (unhidden.symm.trans hidden) (by simp)) v other).plain (plain other)

end Engine

/-- A static of the class of a procedure takes what a frame assigns to a name, as the frame has no variable of that name
yet. -/
def Frame.IsCaptured (f : Frame) (s : Store) (name : String) : Prop :=
  (f.staticOwner? s name).isSome = true ∧ ∃ table, f.locals = .procedure table ∧ table.contains name = false

/-- What no static captures a frame keeps, as no member of a program has a hidden name. -/
theorem Frame.keeps_of_not_captured {f : Frame} {s : State} {name : String} (plain : s.IsPlain)
    (hidden : isHidden name = true) (free : ¬ f.IsCaptured s.store name) : f.Keeps s.store name := by
  intro table own fresh
  refine ⟨?_, plain f.program name hidden⟩
  by_contra captured
  exact free ⟨Option.isSome_iff_ne_none.mpr captured, table, own, fresh⟩

namespace Machine

/-- A machine is at an instruction of the loop that a hidden variable belongs to; the frame wrote that variable before,
last at an instruction of the same loop; and unless a static captured the name when the frame assigned it, the variable
still has the value that was written then. -/
def FindsOwn (host : Host) (calls : Calls) (code : Array Instruction) (home : Nat → Nat) (m start : Machine)
    (name : String) : Prop :=
  ∃ role n pc v, name = hiddenName role n ∧ OwnAt code n (home n) m.frame.pc ∧ OwnAt code n (home n) pc ∧
    LastWrote host calls name start m pc v ∧
    ((∀ m₁ w, Reaches host calls start m₁ → m₁.write? = some (name, w) →
      ¬ m₁.frame.IsCaptured m₁.state.store name) → m.frame.lookup m.state.store name = some v)

end Machine

namespace Engine

variable {e : Engine} {s : State}

/-- Wherever a frame of a procedure comes to in an operation from a state, there is no member with a hidden name; it
writes hidden variables only in the loops that they belong to, each of which has one place in the code; and it finds
them there as the loop left them. -/
def KeepsLoops (e : Engine) (s : State) (p : Procedure) : Prop :=
  ∃ home : Nat → Nat, ∀ (op : Operation) (program : ProgramId) (levels : Nat) (waiting : List Machine) (f : Frame)
    (t : State) (m : Machine),
    e.Makes (fun calls => op.perform calls program s) (levels + 1) waiting (.run f) t → e.Comes levels f t m →
      f.IsFresh p → m.state.IsPlain ∧ ∃ start : Machine, start.frame = f ∧
        Machine.Reaches e.host (e.below levels) start m ∧
        (∀ name v, m.write? = some (name, v) → isHidden name = true →
          ∃ role n, name = hiddenName role n ∧ OwnAt p.code n (home n) m.frame.pc) ∧
        ∀ name place, p.code[m.frame.pc]? = some (.load name place) → isHidden name = true →
          m.FindsOwn e.host (e.below levels) p.code home start name

/-- The variables of loops are private, as long as the host writes no hidden names: no member of a program ever has such
a name, and whatever nested loops, recursive calls and other frames do, a loop finds its variables as its own
instructions wrote them last in the same frame. The exception is a variable that a static of the class has captured. -/
theorem loops_private {source file : String} {o : LoweringOptions} {tree : ModuleTree}
    (parsed : ModuleTree.ofSource source = .ok tree) (none : ∀ c ∈ tree.calls, ¬ c.Assigns)
    (quiet : e.host.WritesNoHidden) (later : e.Later (Preserves State.IsPlain) .start s) :
    s.IsPlain ∧ ∀ p ∈ (Program.ofSource source file o).procedures, e.KeepsLoops s p := by
  have respects : e.host.Within (Respects (Preserves State.IsPlain)) := quiet.mono fun _ _ both => both.1
  have plain : s.IsPlain := later.endures State.isPlain_enduring respects State.start_isPlain
  refine ⟨plain, fun p member => ?_⟩
  obtain ⟨home, owned⟩ := Program.ofSource_private parsed none member
  refine ⟨home, fun op program levels waiting f t m made comes fresh => ?_⟩
  have before := made.upholds State.isPlain_enduring quiet plain
  refine ⟨comes.endures State.isPlain_enduring respects before, ?_⟩
  obtain ⟨c, k, opened, reached, _⟩ := comes
  have entered : State.IsPlain { t with control := c } := State.isPlain_enduring.opened opened before
  obtain ⟨writes, reads⟩ := owned e.host (e.below levels) f { t with control := c } m fresh ⟨k, reached⟩
  refine ⟨⟨f, { t with control := c }⟩, rfl, ⟨k, reached⟩, writes, fun name place found hidden => ?_⟩
  obtain ⟨role, n, pc, v, named, own, wrote, last, holds⟩ := reads name place found hidden
  refine ⟨role, n, pc, v, named, own, wrote, last, fun free => holds fun m₁ w between write => ?_⟩
  have plain₁ : m₁.state.IsPlain := by
    obtain ⟨_, turns⟩ := between
    exact turns.endures State.isPlain_enduring respects (below_keep State.isPlain_enduring respects levels) entered
  exact Frame.keeps_of_not_captured plain₁ hidden (free m₁ w between write)

/-- A text with a loop in a loop whose body calls what it finds. -/
def nestedLoops : String := "def f(a) { for (x : a) { for (g : x) { g(f); } } }"

theorem nestedLoops_private :
    ∃ tree, ModuleTree.ofSource nestedLoops = .ok tree ∧ (∀ c ∈ tree.calls, ¬ c.Assigns) ∧
      Host.relay.WritesNoHidden ∧ ∃ s, s.store.program 0 = Program.ofSource nestedLoops "demo" ⟨0, true⟩ ∧ s.IsPlain ∧
        ∀ p ∈ (s.store.program 0).procedures, (Engine.mk .relay 8 100).KeepsLoops s p := by
  have spelled : spellsOnly nestedLoops (!decide ·.Assigns) = true := by decide +kernel
  obtain ⟨tree, parsed, none⟩ := spellsOnly_iff.mp spelled
  have none : ∀ c ∈ tree.calls, ¬ c.Assigns := by simpa using none
  let s := finalState ((load nestedLoops "demo" true : Exec ScriptError ProgramId) .start)
  have here : s.store.program 0 = Program.ofSource nestedLoops "demo" ⟨0, true⟩ :=
    Store.program_addProgram .empty (Program.ofSource nestedLoops "demo" ⟨0, true⟩)
  have loaded : (Engine.mk .relay 8 100).Later (Preserves State.IsPlain) .start s :=
    .between .here (load_isPlain nestedLoops "demo" true)
  obtain ⟨plain, keeps⟩ : s.IsPlain ∧ ∀ p ∈ (Program.ofSource nestedLoops "demo" ⟨0, true⟩).procedures,
      (Engine.mk .relay 8 100).KeepsLoops s p := loops_private parsed none Host.relay_writesNoHidden loaded
  exact ⟨tree, parsed, none, Host.relay_writesNoHidden, s, here, plain, here ▸ keeps⟩

end Engine

end ScriptEngine
