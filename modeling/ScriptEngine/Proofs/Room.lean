import Mathlib.Data.Finset.Card
import ScriptEngine.Proofs.Simulation
import ScriptEngine.Proofs.Unwinding

/-! # Room on the operand stack

In compiled code the height of the stack depends only on the index where a frame stands. An index that a run comes to
for the first time is at most one higher than one where it was before, so no index is higher than the number of those
that were executed until then, and there are no more of these than instructions. A frame with room for one operand for
each instruction of its procedure therefore never overflows, whatever it calls and however long it runs.
-/

namespace ScriptEngine

theorem Instruction.pushes_le_one (i : Instruction) : i.pushes ≤ 1 := by
  cases i with
  | call site =>
    unfold pushes
    dsimp only
    split <;> omega
  | _ => simp [pushes]

namespace Layout

variable {code : Array Instruction} {layout : Layout code} {f : Frame}

/-- How high the stack is at an index. -/
def height (layout : Layout code) (pc : Nat) : Nat := (layout.shapes pc).stack.length

theorem Places.height_eq (placed : layout.Places f) : f.stack.height = layout.height f.pc := by
  rw [f.stack.height_eq, height, placed.stack.length_eq]

/-- Open regions were opened on an empty stack, so that one of them is entered on one. -/
theorem Places.height_truncate (placed : layout.Places f) {h : Handler} (among : h ∈ f.handlers)
    (s : Stack Value) : (s.truncate h.depth).height = 0 := by
  rw [placed.handlers] at among
  obtain ⟨target, _, rfl⟩ := List.mem_map.mp among
  rw [Stack.height_eq, s.items_truncate_zero]
  rfl

end Layout

namespace Machine

variable {host : Host} {calls : Calls} {code : Array Instruction} {layout : Layout code} {start m m' : Machine}
  {i : Instruction}

/-- Until its value is pushed, an instruction takes operands only. -/
theorem produce_room {x : MachineM Value} {v : Value} (produces : produce host calls i = some x)
    (run : x m = .ok v m') : m'.frame.stack.height ≤ m.frame.stack.height ∧ m'.frame.maxStack = m.frame.maxStack := by
  have lower {s : Stack Value} (count : Nat) : (s.drop count).height ≤ s.height := by
    rw [Stack.height_eq, Stack.height_eq]
    exact (List.drop_sublist count _).length_le
  cases i with
  | value w =>
    cases produces
    cases run
    exact ⟨Nat.le_refl _, rfl⟩
  | load name place =>
    cases produces
    rw [bind_ok (moveTo_eq _ place), bind_ok (readFrame_eq _ _), located_eq] at run
    rw [onState_ok run]
    exact ⟨Nat.le_refl _, rfl⟩
  | call site =>
    by_cases named : site.name = "set"
    · simp [produce, named] at produces
    · simp only [produce, named, if_false, Option.some.injEq] at produces
      subst produces
      rw [bind_ok (moveTo_eq _ site.place)] at run
      obtain ⟨args, m₁, popped, run⟩ := bind_eq_ok_iff.mp run
      rw [popArguments_eq] at popped
      split at popped
      · cases popped
      · cases popped
        rw [bind_ok (refreshCall_eq _), bind_ok (readFrame_eq _ _)] at run
        rw [onState_ok run]
        exact ⟨lower site.argc, rfl⟩
  | send site =>
    cases produces
    rw [bind_ok (moveTo_eq _ site.place)] at run
    obtain ⟨args, m₁, popped, run⟩ := bind_eq_ok_iff.mp run
    rw [popArguments_eq] at popped
    split at popped
    · cases popped
    · cases popped
      obtain ⟨receiver, m₂, took, run⟩ := bind_eq_ok_iff.mp run
      rcases pop_cases _ with ⟨_, _, pops⟩ | ⟨_, fails⟩
      · rw [pops] at took
        cases took
        rw [sendTo_ok run]
        exact ⟨(lower 1).trans (lower site.argc), rfl⟩
      · rw [fails] at took
        cases took
  | _ => cases produces

/-- A turn adds at most one operand. -/
theorem Turned.height_le (turned : Turned host calls m m') (placed : layout.Places m.frame) :
    m'.frame.stack.height ≤ m.frame.stack.height + 1 := by
  have pushed {f : Frame} {i : Instruction} (stacked : Stacked i m.frame f) :
      f.stack.height ≤ m.frame.stack.height + 1 := by
    have one := i.pushes_le_one
    rw [stacked.height_eq]
    omega
  cases turned with
  | onward found run =>
    cases step_effect run with
    | next _ _ _ stack => exact pushed stack
  | jumped found run =>
    cases step_effect run with
    | jump _ _ _ _ stack => exact pushed stack
  | @caught i m₁ e h outer found run regions =>
    have among : h ∈ m.frame.handlers := (step_failed run).regions ▸ regions ▸ List.mem_cons_self
    change (m₁.frame.stack.truncate h.depth).height + 1 ≤ _
    rw [placed.height_truncate among]
    omega

/-- The indices that a run has executed: each of them is lower than their number, and the machine stands at most that
high now. -/
structure Climbs (layout : Layout code) (seen : Finset Nat) (m : Machine) : Prop where
  placed : layout.Places m.frame
  inside : seen ⊆ Finset.range code.size
  lower : ∀ pc ∈ seen, layout.height pc < seen.card
  here : m.frame.stack.height ≤ seen.card

namespace Climbs

variable {seen : Finset Nat} (climbs : Climbs layout seen m)
include climbs

/-- With the index where the machine stands, all that it has executed is lower than the number of indices. -/
theorem executes (found : code[m.frame.pc]? = some i) :
    insert m.frame.pc seen ⊆ Finset.range code.size ∧
      ∀ pc ∈ insert m.frame.pc seen, layout.height pc < (insert m.frame.pc seen).card := by
  refine ⟨Finset.insert_subset (Finset.mem_range.mpr (Array.getElem?_eq_some_iff.mp found).1) climbs.inside, ?_⟩
  by_cases known : m.frame.pc ∈ seen
  · rw [Finset.insert_eq_of_mem known]
    exact climbs.lower
  · have here := climbs.here
    rw [climbs.placed.height_eq] at here
    rw [Finset.card_insert_of_notMem known, Finset.forall_mem_insert]
    exact ⟨Nat.lt_succ_of_le here, fun pc member => (climbs.lower pc member).trans (Nat.lt_succ_self _)⟩

theorem turned (turned : Turned host calls m m') : Climbs layout (insert m.frame.pc seen) m' := by
  have found : ∃ i, code[m.frame.pc]? = some i := by
    rw [← climbs.placed.code]
    cases turned <;> exact ⟨_, ‹_›⟩
  obtain ⟨i, found⟩ := found
  obtain ⟨inside, lower⟩ := climbs.executes found
  refine ⟨climbs.placed.turned turned, inside, lower, ?_⟩
  have below := lower m.frame.pc (Finset.mem_insert_self _ _)
  rw [← climbs.placed.height_eq] at below
  exact (turned.height_le climbs.placed).trans below

/-- Where an instruction is executed, the stack is lower than the code is long. -/
theorem height_lt (found : code[m.frame.pc]? = some i) : m.frame.stack.height < code.size := by
  obtain ⟨inside, lower⟩ := climbs.executes found
  have count := Finset.card_le_card inside
  rw [Finset.card_range] at count
  rw [climbs.placed.height_eq]
  exact (lower _ (Finset.mem_insert_self _ _)).trans_le count

end Climbs

/-- Over a run of laid-out code the stack never gets as high as the code is long. -/
theorem Reaches.climbs {p : Procedure} (layout : Layout p.code) (fresh : start.frame.IsFresh p)
    (reached : Reaches host calls start m) : ∃ seen, Climbs layout seen m := by
  obtain rfl := fresh.procedure
  refine reached.invariant (I := fun m => ∃ seen, Climbs layout seen m) ⟨∅, layout.places_fresh fresh, ?_, ?_, ?_⟩ ?_
  · exact Finset.empty_subset _
  · exact fun pc member => absurd member (Finset.notMem_empty pc)
  · rw [fresh.stack]
    exact Nat.zero_le _
  · rintro a b ⟨seen, climbs⟩ here
    exact ⟨_, climbs.turned (turn_inl here)⟩

/-- With room for one operand for each instruction of its procedure, a frame does not overflow. -/
theorem roomy_of_size {p : Procedure} (layout : Layout p.code) (fresh : start.frame.IsFresh p)
    (room : p.code.size ≤ start.frame.maxStack) : Roomy host calls start := by
  intro m reached
  obtain ⟨seen, climbs⟩ := reached.climbs layout fresh
  have maxStack : m.frame.maxStack = start.frame.maxStack := reached.sameCall.maxStack
  rintro (⟨i, x, v, m₁, found, produces, run, full⟩ | ⟨i, e, m₁, h, outer, found, run, regions, full⟩)
  · obtain ⟨lower, same⟩ := produce_room produces run
    have below := climbs.height_lt (climbs.placed.code ▸ found)
    omega
  · have failed := step_failed run
    have among : h ∈ m.frame.handlers := failed.regions ▸ regions ▸ List.mem_cons_self
    have below := climbs.height_lt (climbs.placed.code ▸ found)
    change m₁.frame.maxStack ≤ (m₁.frame.stack.truncate h.depth).height at full
    rw [climbs.placed.height_truncate among, failed.same.maxStack] at full
    omega

end Machine

/-- Procedures that are compiled from a source without a call of `set` by name do not overflow with room for one
operand for each of their instructions. -/
theorem Program.ofSource_roomy {source file : String} {o : LoweringOptions}
    (plain : ∀ tree, ModuleTree.ofSource source = .ok tree → ∀ c ∈ tree.calls, ¬ c.Assigns) {p : Procedure}
    (member : p ∈ (Program.ofSource source file o).procedures) {host : Host} {calls : Calls} {start : Machine}
    (fresh : start.frame.IsFresh p) (room : p.code.size ≤ start.frame.maxStack) : Machine.Roomy host calls start := by
  obtain ⟨layout⟩ := (Program.ofSource_isLaidOut plain p member).layout
  exact Machine.roomy_of_size layout fresh room

end ScriptEngine
