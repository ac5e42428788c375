import Mathlib.Logic.Function.Iterate
import ScriptEngine.Proofs.Depths

/-! # Following depths is a complete analysis

The verification records the depth at which a path first reaches an instruction, and gives up a path where it disagrees.
Nothing is lost by that: it finds no flaw exactly if there are depths for the instructions that can be reached from the
first one which every edge of the list respects, and then these are the depths that it recorded. Loops, joins and code
that cannot be reached make no difference, and neither does a branch that leads nowhere.
-/

namespace ScriptEngine.Verification

variable {code : Array Instruction} {k target : Nat} {i : Instruction} {d : Nat → Nat}

/-- A path goes on from one index to another: to the next instruction, unless the branch is always taken, or to where a
branch leads. -/
inductive PassesTo (code : Array Instruction) (k : Nat) : Nat → Prop
  | next {i : Instruction} : code[k]? = some i → (∀ offset, i ≠ .branch .always offset) → PassesTo code k (k + 1)
  | taken {kind : BranchKind} {offset : Offset} {target : Nat} : code[k]? = some (.branch kind offset) →
    landing? k offset code.size = some (.index target) → PassesTo code k target

/-- An instruction opens a region, and this is the index of the handler. -/
def Opens (code : Array Instruction) (k target : Nat) : Prop :=
  ∃ offset, code[k]? = some (.enterTry offset) ∧ landing? k offset code.size = some (.index target)

/-- The instructions that a path from the first one can reach. -/
inductive Reachable (code : Array Instruction) : Nat → Prop
  | entry : 0 < code.size → Reachable code 0
  | passes {k target : Nat} : Reachable code k → PassesTo code k target → target < code.size → Reachable code target
  | handles {k target : Nat} : Reachable code k → Opens code k target → target < code.size → Reachable code target

/-- Depths of the stack before the instructions that can be reached. The first one finds nothing; each finds what it
takes, and leaves to where a path goes on what it puts there instead; a handler finds one message more than the
instruction that opened its region. -/
structure IsAssignment (code : Array Instruction) (d : Nat → Nat) : Prop where
  entry : 0 < code.size → d 0 = 0
  enough : ∀ k i, Reachable code k → code[k]? = some i → i.pops ≤ d k
  passes : ∀ k i target, Reachable code k → code[k]? = some i → PassesTo code k target → target < code.size →
    d target = d k - i.pops + i.pushes
  handles : ∀ k target, Reachable code k → Opens code k target → target < code.size → d target = d k + 1

theorem Reachable.lt_size (reachable : Reachable code k) : k < code.size := by
  cases reachable <;> assumption

theorem passesTo_iff (found : code[k]? = some i) :
    PassesTo code k target ↔ (target = k + 1 ∧ ∀ offset, i ≠ .branch .always offset) ∨
      ∃ kind offset, i = .branch kind offset ∧ landing? k offset code.size = some (.index target) := by
  constructor
  · intro passes
    cases passes with
    | next here onward =>
      cases found.symm.trans here
      exact .inl ⟨rfl, onward⟩
    | taken here lands =>
      cases found.symm.trans here
      exact .inr ⟨_, _, rfl, lands⟩
  · rintro (⟨rfl, onward⟩ | ⟨kind, offset, rfl, lands⟩)
    · exact .next found onward
    · exact .taken found lands

theorem opens_iff (found : code[k]? = some i) :
    Opens code k target ↔ ∃ offset, i = .enterTry offset ∧ landing? k offset code.size = some (.index target) := by
  unfold Opens
  rw [found]
  simp only [Option.some_inj]

/-- The visits that follow on one are those along the edges. -/
theorem mem_successors {v w : Visit} (found : code[v.index]? = some i) :
    w ∈ successors code.size i v ↔
      (PassesTo code v.index w.index ∧ w.depth = v.depth - i.pops + i.pushes) ∨
        Opens code v.index w.index ∧ w.depth = v.depth + 1 := by
  obtain ⟨index, depth⟩ := v
  obtain ⟨target, after⟩ := w
  rw [passesTo_iff found, opens_iff found]
  cases i with
  | branch kind offset =>
    by_cases always : kind = .always
    · simp only [successors, always, ↓reduceIte, List.mem_map, Option.mem_toList, targetIndex?_eq, Visit.mk.injEq]
      grind
    · simp only [successors, always, ↓reduceIte, List.mem_cons, List.mem_map, Option.mem_toList, targetIndex?_eq,
        Visit.mk.injEq]
      grind
  | enterTry offset =>
    simp only [successors, Instruction.pops, Instruction.pushes, List.mem_cons, List.mem_map, Option.mem_toList,
      targetIndex?_eq, Visit.mk.injEq]
    grind
  | _ => simp [successors]

/-- Depths with which every path goes on as recorded. -/
structure Closed (code : Array Instruction) (recorded : Depths) : Prop where
  entry : 0 < code.size → recorded[0]? = some (some 0)
  enough : ∀ (k d : Nat) (i : Instruction), recorded[k]? = some (some d) → code[k]? = some i → i.pops ≤ d
  onward : ∀ (k d : Nat) (i : Instruction), recorded[k]? = some (some d) → code[k]? = some i →
    ∀ w ∈ successors code.size i ⟨k, d⟩, w.index < code.size →
      recorded[w.index]? = some (some w.depth)

/-- Following paths without a flaw keeps what was recorded, records every visit, and goes on from every
instruction that it records. -/
theorem follow_recorded (recorded : Depths) (pending : List Visit) (size : recorded.size = code.size)
    (fine : (follow code recorded pending).1 = []) :
    (∀ (k d : Nat), recorded[k]? = some (some d) → (follow code recorded pending).2[k]? = some (some d)) ∧
    (∀ v ∈ pending, v.index < code.size →
      (follow code recorded pending).2[v.index]? = some (some v.depth)) ∧
    ∀ (k d : Nat) (i : Instruction), (follow code recorded pending).2[k]? = some (some d) → code[k]? = some i →
      recorded[k]? = some (some d) ∨ i.pops ≤ d ∧
        ∀ w ∈ successors code.size i ⟨k, d⟩, w.index < code.size →
          (follow code recorded pending).2[w.index]? = some (some w.depth) := by
  fun_induction follow code recorded pending with
  | case1 recorded => exact ⟨fun _ _ h => h, by simp, fun _ _ _ h _ => .inl h⟩
  | case2 recorded v rest seen ih =>
    obtain ⟨kept, visited, closed⟩ := ih size fine
    refine ⟨kept, fun w member inside => ?_, closed⟩
    rcases List.mem_cons.mp member with rfl | member
    · exact kept _ _ ‹_›
    · exact visited w member inside
  | case3 recorded v rest seen found differs => cases fine
  | case4 recorded v rest i _ found later short => cases fine
  | case5 recorded v rest i fresh found later enough ih =>
    have inside := (Array.getElem?_eq_some_iff.mp found).1
    obtain ⟨kept, visited, closed⟩ := ih (by rw [Array.size_setIfInBounds, size]) fine
    have here : later[v.index]? = some (some v.depth) :=
      Array.getElem?_setIfInBounds_self_of_lt (by omega)
    have before (k d : Nat) (other : k ≠ v.index) :
        later[k]? = some (some d) ↔ recorded[k]? = some (some d) := by
      rw [Array.getElem?_setIfInBounds_ne other.symm]
    refine ⟨fun k d there => ?_, fun w member below => ?_, fun k d j there at_ => ?_⟩
    · by_cases same : k = v.index
      · rw [same, fresh] at there
        cases there
      · exact kept k d ((before k d same).mpr there)
    · rcases List.mem_cons.mp member with rfl | member
      · exact kept _ _ here
      · exact visited w (List.mem_append_right _ member) below
    · rcases closed k d j there at_ with known | goes
      · by_cases same : k = v.index
        · subst same
          obtain rfl : v.depth = d := by simpa [here] using known
          obtain rfl : i = j := by simpa [found] using at_
          refine .inr ⟨by omega, fun w member below => ?_⟩
          exact visited w (List.mem_append_left _ member) below
        · exact .inl ((before k d same).mp known)
      · exact .inr goes
  | case6 recorded v rest unrecorded outside ih =>
    obtain ⟨kept, visited, closed⟩ := ih size fine
    refine ⟨kept, fun w member inside => ?_, closed⟩
    rcases List.mem_cons.mp member with rfl | member
    · rw [← size] at inside
      cases entry : recorded[w.index]? with
      | none =>
        rw [Array.getElem?_eq_none_iff] at entry
        omega
      | some depth =>
        cases depth with
        | some seen => exact (unrecorded seen entry).elim
        | none => exact (outside _ entry (Array.getElem?_eq_getElem (by omega))).elim
    · exact visited w member inside

theorem depths_closed (fine : (depths code).1 = []) : Closed code (depths code).2 := by
  obtain ⟨_, visited, closed⟩ := follow_recorded _ _ Array.size_replicate fine
  have empty (k d : Nat) : (Array.replicate code.size (none : Option Nat))[k]? ≠ some (some d) := by
    simp [Array.getElem?_replicate]
  refine ⟨visited ⟨0, 0⟩ List.mem_cons_self, ?_, ?_⟩
  · intro k d i recorded found
    exact ((closed k d i recorded found).resolve_left (empty k d)).1
  · intro k d i recorded found
    exact ((closed k d i recorded found).resolve_left (empty k d)).2

/-- Depths as the verification recorded them, and nothing where it recorded none. -/
def recordedDepth (recorded : Depths) (k : Nat) : Nat := (recorded[k]?.getD none).getD 0

/-- Depths with which every path goes on are recorded for all instructions that can be reached. -/
theorem Closed.recorded {recorded : Depths} (closed : Closed code recorded) (reachable : Reachable code k) :
    recorded[k]? = some (some (recordedDepth recorded k)) := by
  have known {j e : Nat} (there : recorded[j]? = some (some e)) :
      recorded[j]? = some (some (recordedDepth recorded j)) := by
    rw [recordedDepth, there]
    rfl
  induction reachable with
  | entry some => exact known (closed.entry some)
  | passes source edge inside ih =>
    have found := Array.getElem?_eq_getElem source.lt_size
    exact known (closed.onward _ _ _ ih found ⟨_, _⟩ ((mem_successors found).mpr (.inl ⟨edge, rfl⟩)) inside)
  | handles source edge inside ih =>
    have found := Array.getElem?_eq_getElem source.lt_size
    exact known (closed.onward _ _ _ ih found ⟨_, _⟩ ((mem_successors found).mpr (.inr ⟨edge, rfl⟩)) inside)

/-- Depths with which every path goes on respect every edge. -/
theorem Closed.isAssignment {recorded : Depths} (closed : Closed code recorded) :
    IsAssignment code (recordedDepth recorded) where
  entry some := by
    rw [recordedDepth, closed.entry some]
    rfl
  enough k i reachable found := closed.enough k _ i (closed.recorded reachable) found
  passes k i target reachable found edge inside := by
    have there := closed.onward k _ i (closed.recorded reachable) found ⟨target, _⟩
      ((mem_successors found).mpr (.inl ⟨edge, rfl⟩)) inside
    rw [closed.recorded (reachable.passes edge inside)] at there
    simpa using there
  handles k target reachable edge inside := by
    have found := Array.getElem?_eq_getElem reachable.lt_size
    have there := closed.onward k _ _ (closed.recorded reachable) found ⟨target, _⟩
      ((mem_successors found).mpr (.inr ⟨edge, rfl⟩)) inside
    rw [closed.recorded (reachable.handles edge inside)] at there
    simpa using there

/-- A visit is one that an assignment of depths foresees, if it is inside the list. -/
def Visit.Foreseen (code : Array Instruction) (d : Nat → Nat) (v : Visit) : Prop :=
  v.index < code.size → Reachable code v.index ∧ v.depth = d v.index

/-- Only instructions that can be reached have a depth, and it is the one that they are assigned. -/
def Agrees (code : Array Instruction) (d : Nat → Nat) (recorded : Depths) : Prop :=
  ∀ k e, recorded[k]? = some (some e) → Reachable code k ∧ e = d k

theorem IsAssignment.successors (assigned : IsAssignment code d) {v : Visit} (found : code[v.index]? = some i)
    (foreseen : v.Foreseen code d) : ∀ w ∈ successors code.size i v, w.Foreseen code d := by
  intro w member inside
  obtain ⟨reachable, depth⟩ := foreseen (Array.getElem?_eq_some_iff.mp found).1
  rcases (mem_successors found).mp member with ⟨edge, after⟩ | ⟨edge, after⟩
  · exact ⟨reachable.passes edge inside, by rw [after, depth, assigned.passes _ _ _ reachable found edge inside]⟩
  · exact ⟨reachable.handles edge inside, by rw [after, depth, assigned.handles _ _ reachable edge inside]⟩

theorem Agrees.record {recorded : Depths} {v : Visit} (agrees : Agrees code d recorded) (inside : v.index < code.size)
    (foreseen : v.Foreseen code d) : Agrees code d (recorded.setIfInBounds v.index (some v.depth)) := by
  intro k e there
  by_cases same : v.index = k
  · subst same
    rw [Array.getElem?_setIfInBounds_self] at there
    split at there
    · cases there
      exact foreseen inside
    · cases there
  · rw [Array.getElem?_setIfInBounds_ne same] at there
    exact agrees k e there

/-- Following foreseen visits finds no flaw, and records what is assigned. The list of pending visits stays foreseen:
what is added to it lies along edges from an instruction that can be reached. -/
theorem IsAssignment.follow (assigned : IsAssignment code d) {recorded : Depths} {pending : List Visit}
    (agrees : Agrees code d recorded) (foreseen : ∀ v ∈ pending, v.Foreseen code d) :
    (follow code recorded pending).1 = [] ∧ Agrees code d (follow code recorded pending).2 := by
  fun_induction Verification.follow code recorded pending with
  | case1 recorded => exact ⟨rfl, agrees⟩
  | case2 recorded v rest seen ih => exact ih agrees fun w member => foreseen w (List.mem_cons_of_mem _ member)
  | case3 recorded v rest seen there differs =>
    obtain ⟨reachable, same⟩ := agrees _ _ there
    exact absurd (same.trans (foreseen v List.mem_cons_self reachable.lt_size).2.symm) differs
  | case4 recorded v rest i _ found later short =>
    obtain ⟨reachable, depth⟩ := foreseen v List.mem_cons_self (Array.getElem?_eq_some_iff.mp found).1
    have enough := assigned.enough _ _ reachable found
    omega
  | case5 recorded v rest i _ found later enough ih =>
    have here := foreseen v List.mem_cons_self
    refine ih (agrees.record (Array.getElem?_eq_some_iff.mp found).1 here) fun w member => ?_
    rcases List.mem_append.mp member with member | member
    · exact assigned.successors found here w member
    · exact foreseen w (List.mem_cons_of_mem _ member)
  | case6 recorded v rest _ _ ih => exact ih agrees fun w member => foreseen w (List.mem_cons_of_mem _ member)

theorem IsAssignment.depths (assigned : IsAssignment code d) :
    (depths code).1 = [] ∧ Agrees code d (depths code).2 := by
  refine assigned.follow ?_ ?_
  · intro k e there
    simp [Array.getElem?_replicate] at there
  · intro v member inside
    obtain rfl : v = ⟨0, 0⟩ := by simpa using member
    exact ⟨.entry inside, (assigned.entry inside).symm⟩

theorem size_follow (code : Array Instruction) (recorded : Depths) (pending : List Visit) :
    (follow code recorded pending).2.size = recorded.size := by
  fun_induction Verification.follow code recorded pending with
  | case1 => rfl
  | case2 _ _ _ _ ih | case6 _ _ _ _ _ ih => exact ih
  | case3 _ _ _ _ _ _ _ _ same ih => rwa [same] at ih
  | case4 _ _ _ _ _ _ later _ _ _ same ih =>
    rw [same] at ih
    exact ih.trans Array.size_setIfInBounds
  | case5 _ _ _ _ _ _ later _ ih => exact ih.trans Array.size_setIfInBounds

/-- The verification under way: the flaws found, the depths recorded, and the visits to make. -/
structure Walk where
  found : List (Nat × Flaw)
  recorded : Depths
  pending : List Visit

namespace Walk

/-- Before the first visit. -/
def start (code : Array Instruction) : Walk := ⟨[], Array.replicate code.size none, [⟨0, 0⟩]⟩

/-- Makes the first of the pending visits. -/
def visit (code : Array Instruction) (w : Walk) : Walk :=
  match w.pending with
  | [] => w
  | v :: rest =>
    match w.recorded[v.index]?, code[v.index]? with
    | some (some seen), _ =>
      if seen = v.depth then { w with pending := rest }
      else ⟨w.found ++ [(v.index, .stackMismatch seen v.depth)], w.recorded, rest⟩
    | some none, some i =>
      let recorded := w.recorded.setIfInBounds v.index (some v.depth)
      if v.depth < i.pops then ⟨w.found ++ [(v.index, .stackUnderflow)], recorded, rest⟩
      else ⟨w.found, recorded, successors code.size i v ++ rest⟩
    | _, _ => { w with pending := rest }

/-- What the verification comes to from here. -/
def outcome (code : Array Instruction) (w : Walk) : List (Nat × Flaw) × Depths :=
  (w.found ++ (follow code w.recorded w.pending).1, (follow code w.recorded w.pending).2)

/-- How many visits there may be left to make: those that are pending, and two for each instruction without a depth. -/
def budget (w : Walk) : Nat := w.pending.length + 2 * unvisited w.recorded

variable {w : Walk}

theorem outcome_visit (code : Array Instruction) (w : Walk) : (w.visit code).outcome code = w.outcome code := by
  obtain ⟨found, recorded, pending⟩ := w
  unfold outcome visit
  dsimp only
  fun_cases Verification.follow code recorded pending with
  | case1 => simp [Verification.follow]
  | case2 v rest there => simp [there]
  | case3 v rest seen there differs later deeper same => simp [there, differs, same]
  | case4 v rest i there here later short more deeper same => simp [there, here, short, same, later]
  | case5 v rest i there here later enough => simp [there, here, enough, later]
  | case6 v rest unrecorded outside =>
    dsimp only
    split
    · next seen there => exact (unrecorded _ there).elim
    · next i there here => exact (outside _ there here).elim
    · rfl

theorem budget_visit (code : Array Instruction) (more : w.pending ≠ []) : (w.visit code).budget < w.budget := by
  obtain ⟨found, recorded, pending⟩ := w
  have two (i : Instruction) (v : Visit) : (successors code.size i v).length ≤ 2 := by
    have one (o : Option Nat) (f : Nat → Visit) : (o.toList.map f).length ≤ 1 := by
      cases o <;> simp
    unfold successors
    split
    · dsimp only
      split
      · exact Nat.le_trans (one _ _) (Nat.le_succ 1)
      · exact Nat.succ_le_succ (one _ _)
    · exact Nat.succ_le_succ (one _ _)
    · exact Nat.le_succ 1
  unfold budget visit
  dsimp only
  cases pending with
  | nil => exact absurd rfl more
  | cons v rest =>
    dsimp only
    split
    · next there =>
      split <;> simp
    · next i there here =>
      have fewer := unvisited_record recorded v.index v.depth there
      have := two i v
      split
      · simp only [List.length_cons]
        omega
      · simp only [List.length_cons, List.length_append]
        omega
    · simp

/-- As many visits as there may be left to make lead to the end. -/
theorem visits_end (code : Array Instruction) {n : Nat} (enough : w.budget ≤ n) :
    (visit code)^[n] w = ⟨(w.outcome code).1, (w.outcome code).2, []⟩ := by
  have ended {w : Walk} (none : w.pending = []) : w = ⟨(w.outcome code).1, (w.outcome code).2, []⟩ := by
    obtain ⟨found, recorded, pending⟩ := w
    obtain rfl : pending = [] := none
    simp [outcome, Verification.follow]
  have stays {w : Walk} (none : w.pending = []) : w.visit code = w := by
    unfold visit
    rw [none]
  induction n generalizing w with
  | zero =>
    have none : w.pending = [] := by
      unfold budget at enough
      exact List.length_eq_zero_iff.mp (by omega)
    exact ended none
  | succ n ih =>
    rw [Function.iterate_succ_apply]
    by_cases none : w.pending = []
    · rw [stays none]
      exact (Function.iterate_fixed (stays none) n).trans (ended none)
    · have less := budget_visit code none
      rw [ih (by omega), outcome_visit]

/-- The verification ends, whatever the list. It makes at most two visits for each instruction, and one more. -/
theorem start_ends (code : Array Instruction) :
    (visit code)^[2 * code.size + 1] (start code) = ⟨(depths code).1, (depths code).2, []⟩ := by
  refine visits_end code ?_
  simp [budget, start, unvisited, Nat.add_comm]

end Walk

/-- What was found and recorded, visit by visit. -/
theorem depths_eq_visits (code : Array Instruction) :
    depths code = (((Walk.visit code)^[2 * code.size + 1] (Walk.start code)).found,
      ((Walk.visit code)^[2 * code.size + 1] (Walk.start code)).recorded) := by
  rw [Walk.start_ends]

/-- Following depths is a complete analysis. It ends after at most two visits for each instruction and one more. It
finds no flaw exactly if there are depths for the instructions that can be reached which respect every edge; such depths
are unique where instructions can be reached, and they are those recorded, while nothing is recorded elsewhere. -/
theorem depths_complete (code : Array Instruction) :
    (Walk.visit code)^[2 * code.size + 1] (Walk.start code) = ⟨(depths code).1, (depths code).2, []⟩ ∧
      ((depths code).1 = [] ↔ ∃ d, IsAssignment code d) ∧
      ∀ d, IsAssignment code d →
        (∀ k < code.size, (Reachable code k → (depths code).2[k]? = some (some (d k))) ∧
          (¬ Reachable code k → (depths code).2[k]? = some none)) ∧
        ∀ other, IsAssignment code other → ∀ k, Reachable code k → other k = d k := by
  have recorded {d : Nat → Nat} (assigned : IsAssignment code d) {k : Nat} (reachable : Reachable code k) :
      (depths code).2[k]? = some (some (d k)) := by
    obtain ⟨fine, agrees⟩ := assigned.depths
    have there := (depths_closed fine).recorded reachable
    rw [there, (agrees k _ there).2]
  refine ⟨Walk.start_ends code, ⟨fun fine => ⟨_, (depths_closed fine).isAssignment⟩, fun ⟨_, assigned⟩ =>
    assigned.depths.1⟩, fun d assigned => ⟨fun k inside => ⟨recorded assigned, fun unreachable => ?_⟩, ?_⟩⟩
  · have size : (depths code).2.size = code.size := (size_follow ..).trans Array.size_replicate
    have within : k < (depths code).2.size := size ▸ inside
    have there := Array.getElem?_eq_getElem within
    cases entry : (depths code).2[k] with
    | none => rw [there, entry]
    | some e => exact absurd (assigned.depths.2 k e (by rw [there, entry])).1 unreachable
  · intro other assigned' k reachable
    simpa using (recorded assigned' reachable).symm.trans (recorded assigned reachable)

/-- Loads a name in a guarded region until it holds, with an instruction that no path reaches. -/
def loadsUntil : Array Instruction :=
  #[.enterTry (.relative 6), .load "x" ⟨1, 1⟩, .branch .ifFalse (.relative (-1)), .leaveTry,
    .branch .always (.relative 3), .discard, .caught none]

theorem loadsUntil_reachable : Reachable loadsUntil 2 ∧ Reachable loadsUntil 6 := by
  have entry : Reachable loadsUntil 0 := .entry (by decide)
  have first : Reachable loadsUntil 1 := entry.passes (.next rfl nofun) (by decide)
  exact ⟨first.passes (.next rfl nofun) (by decide), entry.handles ⟨_, rfl, rfl⟩ (by decide)⟩

theorem loadsUntil_depths : ∃ d, IsAssignment loadsUntil d ∧ d 2 = 1 ∧ d 6 = 1 ∧ ¬ Reachable loadsUntil 5 := by
  obtain ⟨_, complete, unique⟩ := depths_complete loadsUntil
  have recorded : depths loadsUntil = ([], #[some 0, some 0, some 1, some 0, some 0, none, some 1]) := by
    rw [depths_eq_visits]
    decide +kernel
  rw [recorded] at complete unique
  obtain ⟨d, assigned⟩ := complete.mp rfl
  have at_ := (unique d assigned).1
  have branch := (at_ 2 (by decide)).1 loadsUntil_reachable.1
  have handler := (at_ 6 (by decide)).1 loadsUntil_reachable.2
  refine ⟨d, assigned, ?_, ?_, fun reachable => ?_⟩
  · exact (Option.some_inj.mp (Option.some_inj.mp branch)).symm
  · exact (Option.some_inj.mp (Option.some_inj.mp handler)).symm
  · cases (at_ 5 (by decide)).1 reachable

end ScriptEngine.Verification
