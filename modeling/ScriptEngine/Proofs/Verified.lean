import ScriptEngine.Proofs.Dataflow
import ScriptEngine.Proofs.Effects
import ScriptEngine.Proofs.Targets

/-! # Runs of verified procedures

What a list without findings guarantees of its runs, whoever wrote it. The verification follows the paths that
instructions take when they do not fail; an error may reach a handler with fewer values on the stack than
there were when the region was opened, and regions are only counted. As long as no error is caught that low,
the height of the stack is the depth that was recorded, and nothing that the verification looked at breaks.
-/

namespace ScriptEngine

open Verification

namespace Verification

variable {p : Procedure}

/-- Nothing is found in a procedure exactly if its list is within the limits, no instruction shows a flaw, as many
regions are left as are entered, and no path shows a flaw. -/
theorem ofProcedure_eq_nil_iff :
    ofProcedure p = [] ↔
      (p.code.size ≤ maxInstructions ∧ flaws p.code argumentLimit = []) ∧ shape p.code = [] ∧
        p.code.countP isEnterTry = p.code.countP isLeaveTry ∧ (depths p.code).1 = [] := by
  simp only [ofProcedure, List.append_eq_nil_iff, List.map_eq_nil_iff, ite_eq_right_iff, List.cons_ne_nil, imp_false,
    Nat.not_lt, Decidable.not_not, ne_eq]
  constructor
  · rintro ⟨⟨⟨limits, shaped⟩, balanced⟩, paths⟩
    rw [shaped] at paths
    exact ⟨limits, shaped, balanced, paths⟩
  · rintro ⟨limits, shaped, balanced, paths⟩
    rw [shaped]
    exact ⟨⟨⟨limits, rfl⟩, balanced⟩, paths⟩

/-- What a procedure has whose shape shows no flaw. -/
structure Sound (code : Array Instruction) : Prop where
  branches : ∀ (k : Nat) (kind : BranchKind) (offset : Offset), code[k]? = some (.branch kind offset) →
    landing? k offset code.size ≠ none
  regions : ∀ (k : Nat) (offset : Offset), code[k]? = some (.enterTry offset) →
    ∃ target binding, landing? k offset code.size = some (.index target) ∧
      code[target]? = some (.caught binding)
  assigns : ∀ (k : Nat) (site : CallSite), code[k]? = some (.call site) → site.name = "set" →
    site.argc = 2
  accesses : ∀ (k : Nat) (site : CallSite), code[k]? = some (.send site) →
    site.name = "getMember" ∨ site.name = "setMember" → 1 ≤ site.argc

theorem sound_of_shape_nil {code : Array Instruction} (shaped : shape code = []) : Sound code := by
  have none (k : Nat) (i : Instruction) (found : code[k]? = some i) : shapeFlaws code i k = [] := by
    rw [List.eq_nil_iff_forall_not_mem]
    intro what member
    have among : (k, what) ∈ shape code := List.mem_append_left _ (mem_flaws.mpr ⟨i, found, member⟩)
    rw [shaped] at among
    cases among
  have targets (k : Nat) (i : Instruction) (found : code[k]? = some i) : targetFlaws code i k = [] := by
    have all := none k i found
    simp only [shapeFlaws, List.append_eq_nil_iff] at all
    exact all.1.1
  have arities (k : Nat) (i : Instruction) (found : code[k]? = some i) : arityFlaws i = [] := by
    have all := none k i found
    simp only [shapeFlaws, List.append_eq_nil_iff] at all
    exact all.1.2
  refine ⟨?_, ?_, ?_, ?_⟩
  · intro k kind offset found missed
    have := targets k _ found
    simp [targetFlaws, missed] at this
  · intro k offset found
    have fine := targets k _ found
    cases there : (handler? code (.enterTry offset) k).bind (code[·]?) with
    | none => simp [targetFlaws, there] at fine
    | some i =>
      obtain ⟨target, lands, at_⟩ := Option.bind_eq_some_iff.mp there
      have caught : isCaught i = true := by simpa [targetFlaws, there] using fine
      obtain ⟨binding, rfl⟩ : ∃ binding, i = .caught binding := by
        cases i <;> first | exact ⟨_, rfl⟩ | cases caught
      refine ⟨target, binding, ?_, at_⟩
      unfold handler? at lands
      dsimp only at lands
      split at lands
      · next t same =>
        split at lands <;> cases lands
        exact same
      · cases lands
  · intro k site found named
    have fine := arities k _ found
    simpa [arityFlaws, callSite?, reservedArity?, named] using fine
  · intro k site found access
    have fine := arities k _ found
    rcases access with named | named
    · have : site.argc = 1 := by simpa [arityFlaws, callSite?, reservedArity?, named] using fine
      omega
    · have : site.argc = 2 := by simpa [arityFlaws, callSite?, reservedArity?, named] using fine
      omega

end Verification

/-- A frame stays in its list, and the handlers of its open regions stand in it. -/
structure Kept (f : Frame) : Prop where
  inside : f.pc ≤ f.procedure.code.size
  handlers : ∀ h ∈ f.handlers, ∃ binding, f.procedure.code[h.target]? = some (.caught binding)

/-- The stack of a frame is as high as recorded, and so it is going to be in the handlers of its open
regions. -/
structure Level (recorded : Depths) (f : Frame) : Prop where
  height : f.pc < f.procedure.code.size → recorded[f.pc]? = some (some f.stack.height)
  handlers : ∀ h ∈ f.handlers, recorded[h.target]? = some (some (h.depth + 1))

variable {i : Instruction} {f f' : Frame} {recorded : Depths}

/-- The regions that an instruction leaves open lead to handlers. -/
theorem Guarded.kept (sound : Sound f.procedure.code) (found : f.procedure.code[f.pc]? = some i)
    (kept : Kept f) (regions : Guarded i f f') :
    ∀ h ∈ f'.handlers, ∃ binding, f.procedure.code[h.target]? = some (.caught binding) := by
  cases i with
  | enterTry offset =>
    obtain ⟨target, lands, handlers⟩ := regions
    obtain ⟨t, binding, lands', there⟩ := sound.regions _ _ found
    obtain rfl : t = target := by simpa [lands] using lands'.symm
    rw [handlers]
    intro h member
    rcases List.mem_cons.mp member with rfl | member
    · exact ⟨binding, there⟩
    · exact kept.handlers h member
  | leaveTry =>
    obtain ⟨h, handlers⟩ := regions
    intro h member
    refine kept.handlers h ?_
    rw [handlers]
    exact List.mem_cons_of_mem _ member
  | _ =>
    rw [show f'.handlers = f.handlers from regions]
    exact kept.handlers

theorem Guarded.level (sound : Sound f.procedure.code) (closed : Closed f.procedure.code recorded)
    (found : f.procedure.code[f.pc]? = some i) (level : Level recorded f) (regions : Guarded i f f') :
    ∀ h ∈ f'.handlers, recorded[h.target]? = some (some (h.depth + 1)) := by
  cases i with
  | enterTry offset =>
    obtain ⟨target, lands, handlers⟩ := regions
    obtain ⟨t, binding, lands', there⟩ := sound.regions _ _ found
    obtain rfl : t = target := by simpa [lands] using lands'.symm
    have inside := (Array.getElem?_eq_some_iff.mp found).1
    have below := (Array.getElem?_eq_some_iff.mp there).1
    rw [handlers]
    intro h member
    rcases List.mem_cons.mp member with rfl | member
    · refine closed.onward _ _ _ (level.height inside) found ⟨t, f.stack.height + 1⟩ ?_ below
      simp [successors, targetIndex?, lands]
    · exact level.handlers h member
  | leaveTry =>
    obtain ⟨h, handlers⟩ := regions
    intro h member
    refine level.handlers h ?_
    rw [handlers]
    exact List.mem_cons_of_mem _ member
  | _ =>
    rw [show f'.handlers = f.handlers from regions]
    exact level.handlers

/-- An instruction that goes on to the next one. -/
theorem Effect.next_kept (sound : Sound f.procedure.code) (found : f.procedure.code[f.pc]? = some i)
    (kept : Kept f) (effect : Effect i f f' .next) : Kept { f' with pc := f'.pc + 1 } := by
  cases effect with
  | next onward same enough stack regions =>
    have inside := (Array.getElem?_eq_some_iff.mp found).1
    constructor
    · change f'.pc + 1 ≤ f'.procedure.code.size
      rw [same.pc, same.procedure]
      exact inside
    · change ∀ h ∈ f'.handlers, ∃ binding, f'.procedure.code[h.target]? = some (.caught binding)
      rw [same.procedure]
      exact regions.kept sound found kept

theorem Effect.next_level (sound : Sound f.procedure.code) (closed : Closed f.procedure.code recorded)
    (found : f.procedure.code[f.pc]? = some i) (level : Level recorded f)
    (effect : Effect i f f' .next) : Level recorded { f' with pc := f'.pc + 1 } := by
  cases effect with
  | next onward same enough stack regions =>
    have inside := (Array.getElem?_eq_some_iff.mp found).1
    constructor
    · change f'.pc + 1 < f'.procedure.code.size → recorded[f'.pc + 1]? = some (some f'.stack.height)
      rw [same.pc, same.procedure]
      intro below
      refine closed.onward _ _ _ (level.height inside) found ⟨f.pc + 1, f'.stack.height⟩ ?_ below
      rw [stack.height_eq]
      cases i with
      | branch kind offset =>
        have conditional : kind ≠ .always := fun always => onward offset (by rw [always])
        simp [successors, conditional]
      | _ => simp [successors, Instruction.pops, Instruction.pushes]
    · exact regions.level sound closed found level

/-- A branch that is taken. -/
theorem Effect.jump_kept {target : Nat} (kept : Kept f) (effect : Effect i f f' (.jump target)) :
    Kept { f' with pc := target } := by
  cases effect with
  | jump branch lands same enough stack regions =>
    constructor
    · change target ≤ f'.procedure.code.size
      rw [same.procedure]
      exact (landing?_index lands).2
    · change ∀ h ∈ f'.handlers, ∃ binding, f'.procedure.code[h.target]? = some (.caught binding)
      rw [same.procedure, regions]
      exact kept.handlers

theorem Effect.jump_level {target : Nat} (closed : Closed f.procedure.code recorded)
    (found : f.procedure.code[f.pc]? = some i) (level : Level recorded f)
    (effect : Effect i f f' (.jump target)) : Level recorded { f' with pc := target } := by
  cases effect with
  | @jump kind offset _ branch lands same enough stack regions =>
    have inside := (Array.getElem?_eq_some_iff.mp found).1
    constructor
    · change target < f'.procedure.code.size → recorded[target]? = some (some f'.stack.height)
      rw [same.procedure]
      intro below
      refine closed.onward _ _ _ (level.height inside) found ⟨target, f'.stack.height⟩ ?_ below
      subst branch
      rw [stack.height_eq]
      by_cases always : kind = .always <;> simp [successors, always, targetIndex?_eq.mpr lands]
    · change ∀ h ∈ f'.handlers, recorded[h.target]? = some (some (h.depth + 1))
      rw [regions]
      exact level.handlers

namespace Machine

variable (host : Host) (calls : Calls)

/-- The instruction of a machine fails, and there are fewer values on the stack than when the innermost
region was opened, whose handler is going to take the error. -/
def Sinks (m : Machine) : Prop :=
  ∃ i e m₁ h outer, m.frame.procedure.code[m.frame.pc]? = some i ∧
    step host calls i m = .error (.failed (.runtime e)) m₁ ∧ m₁.frame.handlers = h :: outer ∧
    m₁.frame.stack.height < h.depth

/-- On its way from one machine to another, a run has caught an error with too little on the stack. -/
def Sunk (start m : Machine) : Prop :=
  ∃ m₀ m₁, Reaches host calls start m₀ ∧ Sinks host calls m₀ ∧ turn host calls m₀ = .inl m₁ ∧
    Reaches host calls m₁ m

/-- What a run may find broken although the verification has found nothing. The last two are not of this
frame: it passes on what a call or a send ended with. -/
inductive Unforeseen (start m : Machine) (what : String) : Prop
  | noRegion (here : m.frame.procedure.code[m.frame.pc]? = some .leaveTry)
    (none : m.frame.handlers = [])
  | noName {site : CallSite} {target : Value}
    (here : m.frame.procedure.code[m.frame.pc]? = some (.call site)) (named : site.name = "set")
    (first : (m.operands site).value? 0 = some target) (other : ∀ name, target ≠ .string name)
  | underflow {i : Instruction} (here : m.frame.procedure.code[m.frame.pc]? = some i)
    (short : m.frame.stack.height < i.pops) (sunk : Sunk host calls start m)
  | calling {site : CallSite} {m' : Machine}
    (here : m.frame.procedure.code[m.frame.pc]? = some (.call site)) (named : site.name ≠ "set")
    (nested : onState (Name.call host calls ((m.placed site.place).dropped site.argc).frame site.name
      (m.operands site)) ((m.placed site.place).dropped site.argc).current =
        .error (.failed (.internal what)) m')
  | sending {site : CallSite} {receiver : Value} {m' : Machine}
    (here : m.frame.procedure.code[m.frame.pc]? = some (.send site))
    (found : m.frame.stack.items[site.argc]? = some receiver)
    (nested : onState (Invoke.send host calls (m.opened site).frame.site receiver site.name
      (m.operands site)) (m.opened site).current = .error (.failed (.internal what)) m')

variable {host : Host} {calls : Calls} {m m' start : Machine} {recorded : Depths}

theorem Turned.kept (turned : Turned host calls m m') (sound : Sound m.frame.procedure.code)
    (kept : Kept m.frame) : Kept m'.frame := by
  cases turned with
  | onward found run => exact (step_effect run).next_kept sound found kept
  | jumped found run => exact (step_effect run).jump_kept kept
  | @caught i m₁ e h outer found run regions =>
    have failed := step_failed run
    have handlers := kept.handlers
    rw [← failed.regions, regions] at handlers
    obtain ⟨binding, there⟩ := handlers h List.mem_cons_self
    constructor
    · change h.target ≤ m₁.frame.procedure.code.size
      rw [failed.same.procedure]
      exact Nat.le_of_lt (Array.getElem?_eq_some_iff.mp there).1
    · change ∀ h ∈ outer, ∃ binding, m₁.frame.procedure.code[h.target]? = some (.caught binding)
      rw [failed.same.procedure]
      exact fun h member => handlers h (List.mem_cons_of_mem _ member)

theorem Turned.level (turned : Turned host calls m m') (sound : Sound m.frame.procedure.code)
    (closed : Closed m.frame.procedure.code recorded) (level : Level recorded m.frame)
    (afloat : ¬ Sinks host calls m) : Level recorded m'.frame := by
  cases turned with
  | onward found run => exact (step_effect run).next_level sound closed found level
  | jumped found run => exact (step_effect run).jump_level closed found level
  | @caught i m₁ e h outer found run regions =>
    have handlers := level.handlers
    rw [← (step_failed run).regions, regions] at handlers
    have enough : h.depth ≤ m₁.frame.stack.height :=
      Nat.le_of_not_lt fun short => afloat ⟨i, e, m₁, h, outer, found, run, regions, short⟩
    constructor
    · intro _
      have height : m₁.frame.stack.height - (m₁.frame.stack.height - h.depth) + 1 = h.depth + 1 := by
        omega
      change recorded[h.target]? =
        some (some (m₁.frame.stack.height - (m₁.frame.stack.height - h.depth) + 1))
      rw [height]
      exact handlers h List.mem_cons_self
    · exact fun h member => handlers h (List.mem_cons_of_mem _ member)

end Machine

namespace Machine

variable {host : Host} {calls : Calls} {m start : Machine} {p : Procedure}

/-- What holds of every machine that a run of a procedure without findings reaches. -/
structure Foreseen (host : Host) (calls : Calls) (p : Procedure) (start m : Machine) : Prop where
  procedure : m.frame.procedure = p
  kept : Kept m.frame
  level : ¬ Sunk host calls start m → Level (depths p.code).2 m.frame

theorem Reaches.foreseen (verified : ofProcedure p = []) (fresh : start.frame.IsFresh p)
    (reached : Reaches host calls start m) : Foreseen host calls p start m := by
  obtain ⟨_, shaped, _, fine⟩ := ofProcedure_eq_nil_iff.mp verified
  have sound := sound_of_shape_nil shaped
  have closed := depths_closed fine
  refine (reached.invariant (I := fun m => Reaches host calls start m ∧ Foreseen host calls p start m)
    ⟨.refl _, ?_⟩ ?_).2
  · refine ⟨fresh.procedure, ⟨?_, ?_⟩, fun _ => ⟨?_, ?_⟩⟩
    · rw [fresh.pc]
      exact Nat.zero_le _
    · rw [fresh.handlers]
      simp
    · rw [fresh.pc, fresh.procedure, fresh.stack]
      exact closed.entry
    · rw [fresh.handlers]
      simp
  · rintro a b ⟨before, same, kept, level⟩ here
    have turned := turn_inl here
    subst same
    refine ⟨before.snoc here, turned.sameCall.procedure, turned.kept sound kept, fun dry => ?_⟩
    have afloat : ¬ Sinks host calls a := fun sinks => dry ⟨a, b, before, sinks, here, .refl _⟩
    refine turned.level sound closed (level ?_) afloat
    rintro ⟨m₀, m₁, first, sinks, next, rest⟩
    exact dry ⟨m₀, m₁, first, sinks, next, rest.snoc here⟩

/-- A procedure without findings, whatever its names and calls come to: every branch and every handler is
inside its list, every `set` has its two operands, and as long as no error was caught with too little on the
stack, the stack is as high as the verification recorded. A run ends with a broken invariant only if it was
broken in a call or a send, or where a region is closed that is not open, where the name that `set` takes is
no string, or, after an error that was caught with too little on the stack, where an operand is missing. -/
theorem verified_run (verified : ofProcedure p = []) (fresh : start.frame.IsFresh p) :
    Sound p.code ∧
    (∀ m, Reaches host calls start m → Foreseen host calls p start m) ∧
    ∀ n what m', execute host calls n start = .error (.failed (.internal what)) m' →
      ∃ m, Reaches host calls start m ∧
        turn host calls m = .inr (.error (.failed (.internal what)) m') ∧
        Unforeseen host calls start m what := by
  obtain ⟨_, shaped, _, fine⟩ := ofProcedure_eq_nil_iff.mp verified
  have sound := sound_of_shape_nil shaped
  have closed := depths_closed fine
  refine ⟨sound, fun m reached => reached.foreseen verified fresh, ?_⟩
  intro n what m' ended
  rcases execute_cases host calls n start with ⟨_, _, used⟩ | ⟨k, m, ending, _, reached, last, same⟩
  · rw [used] at ended
    cases ended
  rw [ended] at same
  subst same
  have reached : Reaches host calls start m := ⟨k, reached⟩
  obtain ⟨i, found, breaks⟩ := turn_internal last
  obtain ⟨rfl, kept, level⟩ := reached.foreseen verified fresh
  refine ⟨m, reached, last, ?_⟩
  cases breaks with
  | underflow short =>
    refine .underflow found short (Classical.byContradiction fun dry => ?_)
    have recorded := (level dry).height (Array.getElem?_eq_some_iff.mp found).1
    have enough := closed.enough _ _ _ recorded found
    omega
  | noRegion closes none =>
    subst closes
    exact .noRegion found none
  | noName call named first other =>
    subst call
    exact .noName found named first other
  | fewOperands call named few =>
    subst call
    have two := sound.assigns _ _ found named
    omega
  | noMember send named none =>
    subst send
    have one := sound.accesses _ _ found named
    omega
  | noTarget branch none =>
    subst branch
    exact absurd none (sound.branches _ _ _ found)
  | noHandler opens none =>
    subst opens
    obtain ⟨target, _, lands, _⟩ := sound.regions _ _ found
    exact absurd lands (none target)
  | calling call named nested =>
    subst call
    exact .calling found named nested
  | sending send receives nested =>
    subst send
    exact .sending found receives nested

/-- A procedure with nothing but its code. -/
def bare (code : Array Instruction) : Procedure := ⟨"p", [], code, 1, none⟩

/-- A bare procedure that has just been entered, with nothing loaded. -/
def entered (code : Array Instruction) : Machine :=
  ⟨.enter .start (bare code) 0 (.procedure .empty), .start⟩

theorem entered_fresh (code : Array Instruction) : (entered code).frame.IsFresh (bare code) :=
  ⟨rfl, rfl, rfl, rfl⟩

/-- Loads an unknown name in a guarded region. -/
def loadsGuarded : Array Instruction :=
  #[.enterTry (.relative 5), .load "x" ⟨0, 0⟩, .discard, .leaveTry, .branch .always (.relative 2),
    .caught none]

theorem loadsGuarded_run :
    (ofProcedure (bare loadsGuarded) = [] ∧
      (entered loadsGuarded).frame.IsFresh (bare loadsGuarded)) ∧
    Sound loadsGuarded ∧
    (∀ m, Reaches .none (.nested .none 0 0) (entered loadsGuarded) m →
      Foreseen .none (.nested .none 0 0) (bare loadsGuarded) (entered loadsGuarded) m) ∧
    ∀ n what m', execute .none (.nested .none 0 0) n (entered loadsGuarded) =
        .error (.failed (.internal what)) m' →
      ∃ m, Reaches .none (.nested .none 0 0) (entered loadsGuarded) m ∧
        turn .none (.nested .none 0 0) m = .inr (.error (.failed (.internal what)) m') ∧
        Unforeseen .none (.nested .none 0 0) (entered loadsGuarded) m what := by
  have verified : ofProcedure (bare loadsGuarded) = [] := by
    rw [ofProcedure_eq_nil_iff, depths_eq_visits]
    decide +kernel
  exact ⟨⟨verified, entered_fresh _⟩, verified_run verified (entered_fresh _)⟩

/-- Closes a region that is opened later, if at all. -/
def closesEarly : Array Instruction :=
  #[.leaveTry, .enterTry (.relative 3), .value .null, .branch .always .exit, .caught none]

/-- Assigns to what is no name. -/
def assignsNull : Array Instruction :=
  #[.value .null, .value .null, .call (.positional "set" 2 ⟨0, 0⟩)]

/-- Fails in a region after taking a value that was there before it was opened. -/
def takesOuter : Array Instruction :=
  #[.value .null, .enterTry (.relative 5), .discard, .load "x" ⟨0, 0⟩, .leaveTry,
    .branch .always .exit, .caught none, .discard]

/-- The verification is not enough to keep the invariants of the engine: three lists without findings, each
of which breaks one in its own frame. -/
theorem verified_yet_broken :
    (ofProcedure (bare closesEarly) = [] ∧
      ∃ m, execute .none (.nested .none 0 0) 1 (entered closesEarly) =
        .error (.failed (.internal "END_TRY without TRY in p at instruction 0")) m) ∧
    (ofProcedure (bare assignsNull) = [] ∧
      ∃ m, execute .none (.nested .none 0 0) 3 (entered assignsNull) =
        .error (.failed (.internal "set target is not a name in p at instruction 2")) m) ∧
    (ofProcedure (bare takesOuter) = [] ∧
      ∃ m, execute .none (.nested .none 0 0) 6 (entered takesOuter) =
        .error (.failed (.internal "operand stack underflow in p at instruction 7")) m) := by
  refine ⟨⟨?_, _, rfl⟩, ⟨?_, _, rfl⟩, ⟨?_, _, rfl⟩⟩
  · rw [ofProcedure_eq_nil_iff, depths_eq_visits]
    decide +kernel
  · rw [ofProcedure_eq_nil_iff, depths_eq_visits]
    decide +kernel
  · rw [ofProcedure_eq_nil_iff, depths_eq_visits]
    decide +kernel

end Machine

end ScriptEngine
