import Mathlib.Data.List.Chain
import ScriptEngine.Proofs.Termination
import ScriptEngine.Proofs.Winding

/-! # Every loop with statements can be cancelled

A request to terminate a run is heard at markers. With markers on, every cycle of the control flow of a procedure
passes one, or else stays in a loop without statements. So a frame soon comes to a marker, to its end or to such a
loop, and as long as the request stands it does not get past the marker.
-/

namespace ScriptEngine

instance (code : Array Instruction) (pc : Nat) : Decidable (Marked code pc) :=
  decidable_of_iff (code[pc]?.any Instruction.isStop = true) (by simp [Marked, Option.any_eq_true])

/-- The indices that follow one in the control flow: the next one, unless a branch is always taken, where a branch
leads, and the handler of a region that opens. -/
def successors (code : Array Instruction) (pc : Nat) : List Nat :=
  match code[pc]? with
  | some i => (i.leads code.size pc []).map Prod.fst
  | none => []

/-- The control flow of a list of instructions. -/
def Edge (code : Array Instruction) (pc next : Nat) : Prop := next ∈ successors code pc

instance (code : Array Instruction) (pc next : Nat) : Decidable (Edge code pc next) :=
  inferInstanceAs (Decidable (_ ∈ _))

/-- A path in the control flow whose end leads back to its start. -/
def IsCycle (code : Array Instruction) (path : List Nat) : Prop :=
  path ≠ [] ∧ List.IsChain (Edge code) (path ++ path.head?.toList)

instance (code : Array Instruction) (path : List Nat) : Decidable (IsCycle code path) :=
  inferInstanceAs (Decidable (_ ∧ _))

/-- What an instruction leads to does not depend on the regions that are open. -/
theorem Instruction.leads_fst (i : Instruction) (size pc : Nat) (η θ : List Nat) :
    (i.leads size pc η).map Prod.fst = (i.leads size pc θ).map Prod.fst := by
  unfold Instruction.leads
  split
  · split <;> rfl
  · split <;> rfl
  · split <;> rfl
  · rfl
  · rfl

variable {code : Array Instruction} {pc next : Nat}

theorem Edge.leads (edge : Edge code pc next) :
    ∃ i, code[pc]? = some i ∧ ∀ η, ∃ θ, (next, θ) ∈ i.leads code.size pc η := by
  unfold Edge successors at edge
  cases found : code[pc]? with
  | none =>
    rw [found] at edge
    cases edge
  | some i =>
    rw [found] at edge
    refine ⟨i, rfl, fun η => ?_⟩
    dsimp only at edge
    rw [i.leads_fst _ _ [] η] at edge
    obtain ⟨⟨_, θ⟩, member, rfl⟩ := List.mem_map.mp edge
    exact ⟨θ, member⟩

theorem Edge.inside (edge : Edge code pc next) : pc < code.size := by
  obtain ⟨i, found, _⟩ := edge.leads
  exact (Array.getElem?_eq_some_iff.mp found).1

/-- A survey of a whole list, which is left at its end only. -/
def Survey.Spans (v : Survey) (code : Array Instruction) : Prop :=
  (0 < code.size → v.regions 0 = []) ∧ v.Covers code 0 code.size (paces code.toList) [(code.size, [])]

theorem Progresses.spans (progresses : Progresses code.toList) : ∃ v : Survey, v.Spans code := by
  obtain ⟨v, entry, covers⟩ := progresses [] (.whole code) (by simp : code.size = 0 + code.toList.length)
  exact ⟨v, fun inside => (entry.resolve_right (by omega)).2, covers⟩

/-- What the ranks say between markers: a rank is lower, or the same in the same loop without statements. -/
def Survey.Descends (v : Survey) (pc next : Nat) : Prop :=
  v.rank next < v.rank pc ∨ v.rank next = v.rank pc ∧ v.idle next = v.idle pc ∧ (v.idle pc).isSome = true

namespace Survey

variable {v : Survey}

instance : Trans v.Descends v.Descends v.Descends where
  trans := by
    rintro a b c (lower | ⟨rank, idle, some⟩) (lower' | ⟨rank', idle', some'⟩)
    · exact .inl (lower'.trans lower)
    · exact .inl (rank' ▸ lower)
    · exact .inl (rank ▸ lower')
    · exact .inr ⟨rank'.trans rank, idle'.trans idle, some⟩

theorem Down.descends (down : v.Down code pc next) (free : ¬ Marked code pc) (free' : ¬ Marked code next) :
    v.Descends pc next := (down.resolve_left free).resolve_left free'

/-- A step of the control flow that does not lead to the end. -/
theorem Spans.edge (spans : v.Spans code) (edge : Edge code pc next) (inside : next < code.size) :
    v.Down code pc next := by
  obtain ⟨i, found, leads⟩ := edge.leads
  obtain ⟨θ, member⟩ := leads (v.regions pc)
  obtain ⟨j, found', all⟩ := spans.2.leads pc (Nat.zero_le _) edge.inside
  obtain rfl : i = j := Option.some.inj (found.symm.trans found')
  rcases all _ (List.mem_append_left _ member) with ⟨_, _, _, down⟩ | ended
  · exact down
  · obtain ⟨same, _⟩ := Prod.mk.inj (List.mem_singleton.mp ended)
    omega

/-- A cycle without markers stays in one loop without statements. -/
theorem Spans.cycle (spans : v.Spans code) {path : List Nat} (cycle : IsCycle code path)
    (free : ∀ pc ∈ path, ¬ Marked code pc) :
    ∃ lo hi, IdleAt code lo hi ∧ ∀ pc ∈ path, lo ≤ pc ∧ pc < hi := by
  obtain ⟨solid, chain⟩ := cycle
  obtain ⟨first, rest, rfl⟩ := List.exists_cons_of_ne_nil solid
  change List.IsChain (Edge code) (first :: rest ++ [first]) at chain
  have among {pc : Nat} (member : pc ∈ first :: rest ++ [first]) : pc ∈ first :: rest :=
    (List.mem_append.mp member).elim id fun last => List.mem_singleton.mp last ▸ List.mem_cons_self
  have inside : ∀ pc ∈ first :: rest, pc < code.size := by
    intro pc member
    obtain ⟨before, after, same⟩ := List.append_of_mem member
    have here : List.IsChain (Edge code) (before ++ pc :: (after ++ [first])) := by
      rw [same] at chain
      simpa only [List.append_assoc, List.cons_append] using chain
    cases after with
    | nil => exact (List.isChain_append_cons_cons.mp here).2.1.inside
    | cons next after => exact (List.isChain_append_cons_cons.mp here).2.1.inside
  have descends : List.IsChain v.Descends (first :: rest ++ [first]) := by
    refine chain.imp_of_mem_imp fun a b here there edge => ?_
    exact (spans.edge edge (inside b (among there))).descends (free a (among here)) (free b (among there))
  have pairs := List.isChain_iff_pairwise.mp descends
  have round : v.Descends first first := (List.pairwise_cons.mp pairs).1 first (by simp)
  obtain ⟨⟨lo, hi⟩, idle⟩ := Option.isSome_iff_exists.mp
    (round.resolve_left (Nat.lt_irrefl _)).2.2
  refine ⟨lo, hi, (spans.2.loops first lo hi (Nat.zero_le _) (inside first List.mem_cons_self) idle).1, ?_⟩
  intro pc member
  have same : v.idle pc = some (lo, hi) := by
    rcases List.mem_cons.mp member with rfl | later
    · exact idle
    · have there := (List.pairwise_cons.mp pairs).1 pc (List.mem_append_left _ later)
      have back := (List.pairwise_append.mp (List.pairwise_cons.mp pairs).2).2.2 pc later first
        (List.mem_singleton_self first)
      rcases there with lower | ⟨_, same, _⟩
      · rcases back with lower' | ⟨equal, _, _⟩ <;> omega
      · exact same.trans idle
  exact (spans.2.loops pc lo hi (Nat.zero_le _) (inside pc member) same).2

end Survey

namespace Machine

variable {host : Host} {calls : Calls} {m m' m'' : Machine}

/-- The handlers of the regions that are open, innermost first. -/
def targets (m : Machine) : List Nat := m.frame.handlers.map Handler.target

/-- A turn goes where the instruction leads, or to the innermost handler. -/
theorem Turned.leads (turned : Turned host calls m m') :
    m'.frame.procedure = m.frame.procedure ∧ ∃ i, m.frame.procedure.code[m.frame.pc]? = some i ∧
      (m'.frame.pc, m'.targets) ∈
        i.leads m.frame.procedure.code.size m.frame.pc m.targets ++ raised m.targets := by
  cases turned with
  | @onward i m₁ found run =>
    cases step_effect run with
    | next onward same _ _ guarded =>
      refine ⟨same.procedure, i, found, List.mem_append_left _ ?_⟩
      change (m₁.frame.pc + 1, m₁.targets) ∈ _
      rw [same.pc]
      have kept (other : m₁.frame.handlers = m.frame.handlers) : m₁.targets = m.targets := by
        rw [Machine.targets, other, Machine.targets]
      cases i with
      | branch kind offset =>
        have conditional : kind ≠ .always := fun always => onward offset (by rw [always])
        rw [kept guarded]
        cases kind with
        | always => exact absurd rfl conditional
        | _ =>
          simp only [Instruction.leads]
          split <;> simp
      | enterTry offset =>
        obtain ⟨target, lands, opened⟩ := guarded
        have there : m₁.targets = target :: m.targets := congrArg (List.map Handler.target) opened
        rw [Instruction.leads_enterTry _ lands, there]
        exact List.mem_cons_self
      | leaveTry =>
        obtain ⟨h, closed⟩ := guarded
        have here : m.targets = h.target :: m₁.targets := congrArg (List.map Handler.target) closed
        rw [Instruction.leads, here]
        exact List.mem_cons_self
      | _ => exact kept guarded ▸ List.mem_cons_self
  | @jumped i m₁ target found run =>
    cases step_effect run with
    | @jump kind offset _ branch lands same _ _ kept =>
      refine ⟨same.procedure, i, found, List.mem_append_left _ ?_⟩
      have here : (m₁.jumped target).targets = m.targets := congrArg (List.map Handler.target) kept
      change (target, (m₁.jumped target).targets) ∈ _
      rw [branch, here]
      cases kind with
      | always =>
        rw [Instruction.leads_jump _ lands]
        exact List.mem_cons_self
      | _ =>
        rw [Instruction.leads_test _ (by simp) lands]
        exact List.mem_cons_of_mem _ List.mem_cons_self
  | @caught i m₁ e h outer found run latest =>
    refine ⟨(step_failed run).same.procedure, i, found, List.mem_append_right _ ?_⟩
    have here : m.targets = h.target :: outer.map Handler.target := by
      rw [Machine.targets, ← (step_failed run).regions, latest, List.map_cons]
    rw [here]
    exact List.mem_cons_self

/-- A machine is at an index where a survey of its procedure knows of the regions that are open, or at the end. -/
def Fits (m : Machine) (v : Survey) (code : Array Instruction) : Prop :=
  m.frame.procedure.code = code ∧
    (m.frame.pc < code.size ∧ v.regions m.frame.pc = m.targets ∨ m.frame.pc = code.size ∧ m.targets = [])

variable {v : Survey}

theorem Fits.start (spans : v.Spans code) {f : Frame} {p : Procedure} (fresh : f.IsFresh p) (same : p.code = code)
    (s : State) : Fits ⟨f, s⟩ v code := by
  have none : Machine.targets ⟨f, s⟩ = [] := by rw [Machine.targets, fresh.handlers, List.map_nil]
  refine ⟨by rw [fresh.procedure, same], ?_⟩
  rw [none]
  change f.pc < _ ∧ v.regions f.pc = [] ∨ f.pc = _ ∧ _
  rw [fresh.pc]
  rcases Nat.eq_zero_or_pos code.size with empty | solid
  · exact .inr ⟨empty.symm, rfl⟩
  · exact .inl ⟨solid, spans.1 solid⟩

/-- A turn is a step of the survey, if it does not lead to the end. -/
theorem Fits.turn (fits : m.Fits v code) (spans : v.Spans code) (turned : Turned host calls m m') :
    m'.Fits v code ∧ m.frame.pc < code.size ∧
      (m'.frame.pc < code.size → v.Down code m.frame.pc m'.frame.pc) := by
  obtain ⟨same, here⟩ := fits
  obtain ⟨kept, i, found, member⟩ := turned.leads
  rw [same] at found member
  have inside := (Array.getElem?_eq_some_iff.mp found).1
  obtain ⟨_, known⟩ := here.resolve_right (fun ended => by omega)
  obtain ⟨j, found', all⟩ := spans.2.leads m.frame.pc (Nat.zero_le _) inside
  obtain rfl : i = j := Option.some.inj (found.symm.trans found')
  rw [known] at all
  rcases all _ member with ⟨_, below, there, down⟩ | ended
  · exact ⟨⟨kept ▸ same, .inl ⟨below, there⟩⟩, inside, fun _ => down⟩
  · obtain ⟨last, closed⟩ := Prod.mk.inj (List.mem_singleton.mp ended)
    exact ⟨⟨kept ▸ same, .inr ⟨last, closed⟩⟩, inside, fun less => by omega⟩

theorem Fits.reached (fits : m.Fits v code) (spans : v.Spans code) (reached : Reaches host calls m m') :
    m'.Fits v code :=
  reached.invariant (I := fun m => m.Fits v code) fits fun _ _ here turned => (Fits.turn here spans (turn_inl turned)).1

/-- The next instruction of a machine is a marker. -/
def AtMarker (m : Machine) : Prop := Marked m.frame.procedure.code m.frame.pc

/-- A machine is in a loop without statements. -/
def Idles (m : Machine) : Prop :=
  ∃ lo hi, IdleAt m.frame.procedure.code lo hi ∧ lo ≤ m.frame.pc ∧ m.frame.pc < hi

/-- A frame goes on from one machine to another, and the request to terminate stands wherever it comes to a
marker; so many turns are outside of loops without statements. -/
inductive GoesOn (host : Host) (calls : Calls) : Nat → Machine → Machine → Prop
  | refl (m : Machine) : GoesOn host calls 0 m m
  | outside {n : Nat} {m m' m'' : Machine} :
    (m.AtMarker → m.state.control.terminated = true) → ¬ m.Idles → Machine.turn host calls m = .inl m' →
      GoesOn host calls n m' m'' → GoesOn host calls (n + 1) m m''
  | within {n : Nat} {m m' m'' : Machine} :
    (m.AtMarker → m.state.control.terminated = true) → m.Idles → Machine.turn host calls m = .inl m' →
      GoesOn host calls n m' m'' → GoesOn host calls n m m''

/-- A frame does not get past a marker while the request to terminate stands. -/
theorem turn_terminated (marked : m.AtMarker) (ended : m.state.control.terminated = true) :
    Machine.turn host calls m = .inr (.error (.failed .terminated) m) := by
  obtain ⟨i, found, stops⟩ := marked
  cases i with
  | stop index lines =>
    have failed : passMarker index lines m = .error (.failed .terminated) m := by
      rw [passMarker_eq, if_pos ended]
    exact turn_escaped found (bind_error failed) (m.recover_other rfl)
  | _ => cases stops

theorem not_atMarker (stands : m.AtMarker → m.state.control.terminated = true)
    (turned : Machine.turn host calls m = .inl m') : ¬ Marked m.frame.procedure.code m.frame.pc := by
  intro marked
  rw [turn_terminated marked (stands marked)] at turned
  cases turned

/-- A turn outside of loops without statements takes a frame to a lower rank, as long as no marker comes. -/
theorem Fits.bound {n : Nat} (fits : m.Fits v code) (spans : v.Spans code) (goes : GoesOn host calls n m m') :
    n = 0 ∨ m.frame.pc < code.size ∧ ¬ Marked code m.frame.pc ∧ n ≤ v.rank m.frame.pc + 1 := by
  induction goes with
  | refl => exact .inl rfl
  | @outside n m m₁ m₂ stands busy turned _ ih =>
    obtain ⟨fits₁, inside, down⟩ := fits.turn spans (turn_inl turned)
    have free : ¬ Marked code m.frame.pc := fits.1 ▸ not_atMarker stands turned
    refine .inr ⟨inside, free, ?_⟩
    rcases ih fits₁ with rfl | ⟨inside₁, free₁, less⟩
    · omega
    · rcases (down inside₁).descends free free₁ with lower | ⟨_, _, idle⟩
      · omega
      · obtain ⟨⟨lo, hi⟩, idle⟩ := Option.isSome_iff_exists.mp idle
        refine absurd ⟨lo, hi, ?_⟩ busy
        rw [fits.1]
        exact spans.2.loops m.frame.pc lo hi (Nat.zero_le _) inside idle
  | @within n m m₁ m₂ stands _ turned _ ih =>
    obtain ⟨fits₁, inside, down⟩ := fits.turn spans (turn_inl turned)
    have free : ¬ Marked code m.frame.pc := fits.1 ▸ not_atMarker stands turned
    rcases ih fits₁ with rfl | ⟨inside₁, free₁, less⟩
    · exact .inl rfl
    · refine .inr ⟨inside, free, ?_⟩
      rcases (down inside₁).descends free free₁ with lower | ⟨same, _, _⟩ <;> omega

end Machine

theorem paces_le_length (is : List Instruction) : paces is ≤ is.length := List.countP_le_length

theorem BeginsMarked.paces_lt {is : List Instruction} (begins : BeginsMarked is) : paces is < is.length := by
  obtain ⟨index, lines, rest, rfl⟩ := begins
  exact Nat.lt_succ_of_le (by simpa [Instruction.isStop] using paces_le_length rest)

/-- A program that was compiled with markers: its code progresses, and begins with a marker if there is any. -/
theorem Program.ofSource_progresses {source file : String} {program : ProgramId} {p : Procedure}
    (member : p ∈ (Program.ofSource source file ⟨program, true⟩).procedures) :
    Progresses p.code.toList ∧ (p.code = #[] ∨ BeginsMarked p.code.toList) := by
  have given := ModuleTree.ofSource_gives source
  cases parsed : ModuleTree.ofSource source with
  | ok tree =>
    rw [parsed] at given
    obtain ⟨parts, same, lowered⟩ := Program.ofSource_eq file ⟨program, true⟩ parsed
    rw [same] at member
    obtain ⟨d, among, rfl⟩ := lowered.mem_procedures_iff.mp member
    obtain ⟨progresses, empty | begins⟩ := d.progresses (o := ⟨program, true⟩) rfl (admits_anything given)
      (tree.definitions_within program d among)
    · exact ⟨progresses, .inl (congrArg List.toArray empty)⟩
    · exact ⟨progresses, .inr begins⟩
  | error fault =>
    rw [Program.ofSource_refused file ⟨program, true⟩ parsed] at member
    cases Array.mem_toList_iff.mpr member

/-- Every loop with statements can be cancelled. In a procedure that was compiled with markers, a cycle of the
control flow that passes no marker stays in one loop without statements. So once the request to terminate stands,
a frame goes on for no more instructions outside of such loops than there are ones that are no markers, which are
fewer than its list is long. Where it comes to a marker it fails, and nothing catches that. -/
theorem Program.ofSource_cancellable (source file : String) (program : ProgramId) {p : Procedure}
    (member : p ∈ (Program.ofSource source file ⟨program, true⟩).procedures) :
    (∀ path, IsCycle p.code path → (∀ pc ∈ path, ¬ Marked p.code pc) →
      ∃ lo hi, IdleAt p.code lo hi ∧ ∀ pc ∈ path, lo ≤ pc ∧ pc < hi) ∧
    ∀ (host : Host) (calls : Calls) (f : Frame) (s : State) (m m' : Machine) (n : Nat), f.IsFresh p →
      Machine.Reaches host calls ⟨f, s⟩ m → Machine.GoesOn host calls n m m' →
        n ≤ paces p.code.toList ∧ (p.code ≠ #[] → n < p.code.size) ∧
        (m'.AtMarker → m'.state.control.terminated = true →
          Machine.turn host calls m' = .inr (.error (.failed .terminated) m')) := by
  obtain ⟨progresses, begins⟩ := Program.ofSource_progresses member
  obtain ⟨v, spans⟩ := progresses.spans
  refine ⟨fun path cycle free => spans.cycle cycle free, ?_⟩
  intro host calls f s m m' n fresh reached goes
  have fits := (Machine.Fits.start spans fresh rfl s).reached spans reached
  have within : n ≤ paces p.code.toList := by
    rcases fits.bound spans goes with rfl | ⟨inside, free, less⟩
    · exact Nat.zero_le _
    · exact less.trans (spans.2.bounded m.frame.pc (Nat.zero_le _) inside free)
  refine ⟨within, fun some => ?_, Machine.turn_terminated⟩
  exact Nat.lt_of_le_of_lt within (begins.resolve_left some).paces_lt

/-- A loop without statements in one with statements. -/
theorem Program.nested_loop_cancellable :
    ∃ p ∈ (Program.ofSource "while (c) \x7b while (d) \x7b \x7d x = 1; \x7d" "demo" ⟨0, true⟩).procedures,
      IsCycle p.code [4, 5, 6] ∧ (∀ pc ∈ [4, 5, 6], ¬ Marked p.code pc) ∧
      (∃ lo hi, IdleAt p.code lo hi ∧ ∀ pc ∈ [4, 5, 6], lo ≤ pc ∧ pc < hi) ∧
      ∀ (host : Host) (calls : Calls) (f : Frame) (s : State) (m : Machine) (n : Nat), f.IsFresh p →
        Machine.GoesOn host calls n ⟨f, s⟩ m → n ≤ 9 := by
  have checked : ((Program.ofSource "while (c) \x7b while (d) \x7b \x7d x = 1; \x7d" "demo" ⟨0, true⟩).procedures[0]?.any
      fun (p : Procedure) => decide (IsCycle p.code [4, 5, 6] ∧ (∀ pc ∈ ([4, 5, 6] : List Nat), ¬ Marked p.code pc) ∧
        paces p.code.toList = 9)) = true := by
    decide +kernel
  obtain ⟨p, here, known⟩ := (Option.any_eq_true _ _).mp checked
  obtain ⟨cycle, free, count⟩ := of_decide_eq_true known
  have member := Array.mem_of_getElem? here
  obtain ⟨cycles, bounds⟩ := Program.ofSource_cancellable _ "demo" 0 member
  refine ⟨p, member, cycle, free, cycles _ cycle free, fun host calls f s m n fresh goes => ?_⟩
  exact count ▸ (bounds host calls f s _ m n fresh (.refl _) goes).1

/-- A loop without statements has no marker. -/
theorem Program.idle_loop_unmarked :
    ∃ p ∈ (Program.ofSource "while (c) \x7b \x7d" "demo" ⟨0, true⟩).procedures,
      IsCycle p.code [1, 2, 3] ∧ ∀ pc ∈ [1, 2, 3], ¬ Marked p.code pc := by
  have checked : ((Program.ofSource "while (c) \x7b \x7d" "demo" ⟨0, true⟩).procedures[0]?.any
      fun (p : Procedure) => decide (IsCycle p.code [1, 2, 3] ∧
        ∀ pc ∈ ([1, 2, 3] : List Nat), ¬ Marked p.code pc)) = true := by
    decide +kernel
  obtain ⟨p, here, known⟩ := (Option.any_eq_true _ _).mp checked
  exact ⟨p, Array.mem_of_getElem? here, of_decide_eq_true known⟩

end ScriptEngine
