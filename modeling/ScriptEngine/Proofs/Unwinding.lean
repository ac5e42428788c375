import ScriptEngine.Proofs.Catching
import ScriptEngine.Proofs.HandingOn

/-! # Unwinding

The frames that are live when an error is raised wait for one another. If the host does not re-enter the
interpreter, each of them that has no region open hands the error on to the one that waits for it, and the first
one that has a region open goes on in the handler of its latest region.
-/

namespace ScriptEngine

variable {host : Host} {calls : Calls} {s t : State} {halt : Halt ScriptError}

/-- A store into which only source texts were loaded that do not call `set` by name. -/
def Store.IsCompiled (s : Store) : Prop :=
  ∀ p ∈ s.programs, ∃ source file o, p.procedures = (Program.ofSource source file o).procedures ∧
    ∀ tree, ModuleTree.ofSource source = .ok tree → ∀ c ∈ tree.calls, ¬ c.Assigns

theorem Balanced.isLaidOut {p : Procedure} (balanced : Balanced Instruction.IsNoAssignment p.code.toList) :
    p.IsLaidOut :=
  ⟨balanced.layout callsOnly_isNoAssignment, fun _ _ found => balanced.paired.handler found⟩

/-- A procedure without code, which stands for those that are not there. -/
theorem Procedure.isLaidOut_of_empty {p : Procedure} (empty : p.code = #[]) : p.IsLaidOut := by
  refine Balanced.isLaidOut ?_
  rw [empty]
  exact .nil

theorem Program.ofSource_isLaidOut {source file : String} {o : LoweringOptions}
    (plain : ∀ tree, ModuleTree.ofSource source = .ok tree → ∀ c ∈ tree.calls, ¬ c.Assigns) :
    ∀ p ∈ (Program.ofSource source file o).procedures, p.IsLaidOut := by
  have given := ModuleTree.ofSource_gives source
  cases parsed : ModuleTree.ofSource source with
  | ok tree =>
    rw [parsed] at given
    obtain ⟨parts, same, lowered⟩ := Program.ofSource_eq file o parsed
    rw [same]
    intro p member
    obtain ⟨d, among, rfl⟩ := lowered.mem_procedures_iff.mp member
    exact Balanced.isLaidOut (ModuleTree.balanced o (admits_isNoAssignment given (plain tree parsed)) d among)
  | error fault =>
    rw [Program.ofSource_refused file o parsed]
    intro p member
    cases Array.mem_toList_iff.mpr member

theorem Store.IsCompiled.isLaidOut {s : Store} (compiled : s.IsCompiled) : s.IsLaidOut := by
  intro id
  unfold Store.procedure
  rw [Array.getD_eq_getD_getElem?]
  cases found : (s.program id.program).procedures[id.index]? with
  | none => exact Procedure.isLaidOut_of_empty rfl
  | some p =>
    have member := Array.mem_of_getElem? found
    unfold Store.program at member
    rw [Array.getD_eq_getD_getElem?] at member
    cases loaded : s.programs[id.program]? with
    | none =>
      rw [loaded] at member
      cases Array.mem_toList_iff.mpr member
    | some program =>
      rw [loaded] at member
      obtain ⟨source, file, o, same, plain⟩ := compiled program (Array.mem_of_getElem? loaded)
      change p ∈ program.procedures at member
      rw [same] at member
      exact Program.ofSource_isLaidOut plain p member

theorem Store.empty_isCompiled : Store.empty.IsCompiled := by
  intro p member
  cases Array.mem_toList_iff.mpr member

/-- A store stays compiled when a source text is loaded that does not call `set` by name. -/
theorem Engine.load_isCompiled {source file : String} {breakpoints : Bool} {ε : Type} {id : ProgramId} {s s' : State}
    (compiled : s.store.IsCompiled)
    (plain : ∀ tree, ModuleTree.ofSource source = .ok tree → ∀ c ∈ tree.calls, ¬ c.Assigns)
    (loaded : (Engine.load source file breakpoints : Exec ε ProgramId) s = .ok id s') : s'.store.IsCompiled := by
  cases loaded
  intro p member
  rcases Array.mem_push.mp member with before | rfl
  · exact compiled p before
  · exact ⟨source, file, _, rfl, plain⟩

namespace Machine

variable {m m' m'' : Machine} {k n : Nat}

theorem ReachesIn.unique (first : ReachesIn host calls n m m') (second : ReachesIn host calls n m m'') : m' = m'' := by
  induction first with
  | refl =>
    cases second
    rfl
  | turn here _ ih =>
    cases second with
    | turn there rest =>
      rw [here] at there
      cases there
      exact ih rest

theorem ReachesIn.succ_cases (reached : ReachesIn host calls (n + 1) m m'') :
    ∃ m', ReachesIn host calls n m m' ∧ Machine.turn host calls m' = .inl m'' := by
  induction n generalizing m with
  | zero =>
    cases reached with
    | turn here rest =>
      cases rest
      exact ⟨m, .refl m, here⟩
  | succ n ih =>
    cases reached with
    | turn here rest =>
      obtain ⟨m', before, last⟩ := ih rest
      exact ⟨m', .turn here before, last⟩

/-- A machine opens a region that is open in all of the following turns up to some machine. -/
structure KeepsOpen (host : Host) (calls : Calls) (n : Nat) (m m' : Machine) (h : Handler) : Prop where
  opens : ∃ offset, m.frame.procedure.code[m.frame.pc]? = some (.enterTry offset) ∧
    landing? m.frame.pc offset m.frame.procedure.code.size = some (.index h.target)
  depth : h.depth = m.frame.stack.height
  reached : ReachesIn host calls (n + 1) m m'
  since : ∀ k g, k ≤ n → ReachesIn host calls (k + 1) m g → (h :: m.frame.handlers) <:+ g.frame.handlers

/-- What a turn does to the regions of its frame: nothing, or it closes the latest one, or opens one. -/
theorem Turned.regions (turned : Turned host calls m m') :
    m'.frame.handlers = m.frame.handlers ∨ (∃ h, m.frame.handlers = h :: m'.frame.handlers) ∨
      ∃ offset target, m.frame.procedure.code[m.frame.pc]? = some (.enterTry offset) ∧
        landing? m.frame.pc offset m.frame.procedure.code.size = some (.index target) ∧
        m'.frame.handlers = ⟨target, m.frame.stack.height⟩ :: m.frame.handlers := by
  cases turned with
  | @onward i m₁ found run =>
    cases step_effect run with
    | next _ _ _ _ guarded =>
      cases i with
      | enterTry offset =>
        obtain ⟨target, lands, opened⟩ := guarded
        exact .inr (.inr ⟨offset, target, found, lands, opened⟩)
      | leaveTry => exact .inr (.inl guarded)
      | _ => exact .inl guarded
  | jumped found run =>
    cases step_effect run with
    | jump _ _ _ _ _ regions => exact .inl regions
  | @caught i m₁ e h outer found run regions =>
    exact .inr (.inl ⟨h, (step_failed run).regions ▸ regions⟩)

/-- The machine after so many turns, if the run goes on for so long. -/
def after (host : Host) (calls : Calls) : (turns : Nat) → Machine → Option Machine
  | 0, m => some m
  | turns + 1, m =>
    match turn host calls m with
    | .inl m' => after host calls turns m'
    | .inr _ => none

theorem reachesIn_of_after (here : after host calls n m = some m') : ReachesIn host calls n m m' := by
  induction n generalizing m with
  | zero =>
    cases here
    exact .refl _
  | succ n ih =>
    rw [after] at here
    cases turned : turn host calls m with
    | inl m₁ =>
      rw [turned] at here
      exact .turn turned (ih here)
    | inr ending =>
      rw [turned] at here
      cases here

theorem KeepsOpen.snoc {h : Handler} (keeps : KeepsOpen host calls n m m' h) (last : turn host calls m' = .inl m'')
    (regions : (h :: m.frame.handlers) <:+ m''.frame.handlers) : KeepsOpen host calls (n + 1) m m'' h := by
  refine ⟨keeps.opens, keeps.depth, keeps.reached.snoc last, fun k g within reached => ?_⟩
  rcases Nat.le_or_eq_of_le_succ within with before | rfl
  · exact keeps.since k g before reached
  · cases reached.unique (keeps.reached.snoc last)
    exact regions

/-- A region that is open was opened in an earlier turn, on top of those below it, and was never closed since. -/
theorem ReachesIn.keepsOpen {front outer : List Handler} {h : Handler} (fresh : m.frame.handlers = [])
    (reached : ReachesIn host calls k m m') (regions : m'.frame.handlers = front ++ h :: outer) :
    ∃ j n m₀, j < k ∧ ReachesIn host calls j m m₀ ∧ m₀.frame.handlers = outer ∧
      KeepsOpen host calls n m₀ m' h := by
  induction k generalizing m' front with
  | zero =>
    cases reached
    rw [fresh] at regions
    cases front <;> cases regions
  | succ k ih =>
    obtain ⟨m₁, before, last⟩ := reached.succ_cases
    have later {front : List Handler} (kept : m₁.frame.handlers = front ++ h :: outer) :
        ∃ j n m₀, j < k + 1 ∧ ReachesIn host calls j m m₀ ∧ m₀.frame.handlers = outer ∧
          KeepsOpen host calls n m₀ m' h := by
      obtain ⟨j, n, m₀, less, there, below, keeps⟩ := ih before kept
      refine ⟨j, n + 1, m₀, by omega, there, below, keeps.snoc last ?_⟩
      rw [below, regions]
      exact List.suffix_append ..
    rcases (turn_inl last).regions with same | ⟨closed, same⟩ | ⟨offset, target, found, lands, opened⟩
    · exact later (same ▸ regions)
    · exact @later (closed :: front) (by rw [same, regions, List.cons_append])
    · rw [opened] at regions
      cases front with
      | nil =>
        cases regions
        refine ⟨k, 0, m₁, by omega, before, rfl, ⟨offset, found, lands⟩, rfl, .turn last (.refl m'), ?_⟩
        intro j g first reached
        obtain rfl : j = 0 := Nat.le_zero.mp first
        cases reached.unique (.turn last (.refl m'))
        exact opened ▸ List.suffix_refl _
      | cons latest front => exact later (List.cons.inj regions).2

/-- A region is opened on an empty stack. -/
theorem OnTrack.items_eq_nil (on : m.OnTrack s) {offset : Offset}
    (found : m.frame.procedure.code[m.frame.pc]? = some (.enterTry offset)) : m.frame.stack.items = [] := by
  obtain ⟨code, layout, placed⟩ := on.places
  obtain ⟨rfl, stack, _⟩ := placed
  obtain ⟨next, flows, _⟩ := layout.flows m.frame.pc _ found
  generalize layout.shapes m.frame.pc = σ at flows stack
  cases flows
  exact List.forall₂_nil_left_iff.mp stack

/-- A machine goes on in the handler of its latest region after an error. That region is closed. The stack is
as it was when the region was opened, with the message on top; the variables are as they were at the instruction
that failed. -/
structure Resumes (opening failing resumed : Machine) (h : Handler) (e : LocatedError) : Prop where
  procedure : resumed.frame.procedure = failing.frame.procedure
  target : resumed.frame.pc = h.target
  handler : ∃ binding, resumed.frame.procedure.code[resumed.frame.pc]? = some (.caught binding)
  closed : failing.frame.handlers = h :: resumed.frame.handlers
  regions : resumed.frame.handlers = opening.frame.handlers
  stack : resumed.frame.stack.items = .string e.message :: opening.frame.stack.items
  locals : resumed.frame.locals = failing.frame.locals

/-- After an error in a region that it opened, a frame resumes in the handler. -/
theorem OnTrack.resumes {opening failing failed : Machine} {i : Instruction} {h : Handler} {outer : List Handler}
    {e : LocatedError} (before : opening.OnTrack s) (on : failing.OnTrack s)
    (keeps : KeepsOpen host calls n opening failing h) (below : opening.frame.handlers = outer)
    (same : failing.frame.procedure = opening.frame.procedure) (regions : failing.frame.handlers = h :: outer)
    (run : step host calls i failing = .error (.failed (.runtime e)) failed) :
    Resumes opening failing (((failed.unwind h outer).pushed (.string e.message)).jumped h.target) h e := by
  have kept := step_failed run
  obtain ⟨offset, opens, lands⟩ := keeps.opens
  have caught : ∃ binding, failed.frame.procedure.code[h.target]? = some (.caught binding) := by
    obtain ⟨target, binding, lands', caught⟩ := before.laid.handler opening.frame.pc offset opens
    rw [lands] at lands'
    cases lands'
    rw [kept.same.procedure, same]
    exact ⟨binding, caught⟩
  refine ⟨kept.same.procedure, rfl, caught, regions, below.symm, ?_, kept.locals⟩
  rw [before.items_eq_nil opens]
  change .string e.message :: (failed.frame.stack.truncate h.depth).items = _
  rw [on.depth_eq_zero (regions ▸ List.mem_cons_self), Stack.items_truncate_zero]

end Machine

namespace Engine

variable {e : Engine} {op : Operation} {program : ProgramId} {levels : Nat} {waiting : List Machine} {m w : Machine}
  {q : Request} {f : Frame}

section

variable (polite : e.host.IsPolite False)
include polite

theorem below_reports (levels : Nat) : Trail.reports.Guides (e.below levels) :=
  Calls.nested_reports polite e.steps levels

/-- A machine in the run of a frame that has just been made is on its track. -/
theorem Comes.onTrack (fit : t.IsFit) (entered : f.IsEntered t) (comes : e.Comes levels f t m) : m.OnTrack t := by
  obtain ⟨c, k, opened, reached, _⟩ := comes
  have start : Machine.OnTrack t ⟨f, ⟨t.store, c⟩⟩ := .enter fit entered opened
  exact start.reached (below_reports polite levels) polite (below_books polite levels) fit reached

/-- Whenever something is requested, the error watcher was told nothing before. -/
theorem Makes.quiet (fit : s.IsFit)
    (made : e.Makes (fun calls => op.perform calls program s) levels waiting q t) :
    Quiet s t ∧ t.control.limits = s.control.limits ∧ q.IsEntered t := by
  have guides (levels : Nat) := e.below_reports polite levels
  induction made with
  | host starts =>
    obtain ⟨after, entered⟩ := (op.perform_delegates False program).starts_on (guides _) nofun starts
    exact ⟨(after fit).toQuiet, (after fit).limits, entered⟩
  | instruction _ comes _ starts ih =>
    obtain ⟨quiet, limits, entered⟩ := ih
    have before : State.IsFit _ := ⟨quiet.code fit.laid, limits ▸ fit.room⟩
    have on := comes.onTrack polite before entered
    obtain ⟨m', x, ready, delegates, _, starts⟩ := Machine.step_starts polite starts
    obtain ⟨after, asked⟩ := (delegates.holding m'.frame.hold).starts_on (guides _) nofun starts
    have still := after (ready.fit (on.fit before))
    exact ⟨quiet.trans (on.quiet.trans (ready.quiet.trans still.toQuiet)),
      still.limits.trans (ready.steady.limits.trans (on.limits.trans limits)), asked⟩
  | invoke _ starts ih =>
    obtain ⟨quiet, limits, _⟩ := ih
    obtain ⟨after, asked⟩ := (Invoke.value_delegates polite ..).starts_on (guides _) nofun starts
    have still := after ⟨quiet.code fit.laid, limits ▸ fit.room⟩
    exact ⟨quiet.trans still.toQuiet, still.limits.trans limits, asked⟩
  | native _ starts ih =>
    obtain ⟨quiet, limits, _⟩ := ih
    obtain ⟨after, asked⟩ := (Invoke.native_consults polite ..).starts_on (guides _) nofun starts
    have still := after ⟨quiet.code fit.laid, limits ▸ fit.room⟩
    exact ⟨quiet.trans still.toQuiet, still.limits.trans limits, asked⟩

/-- A machine that is visited is on its track from a state in which the error watcher was told nothing yet. -/
theorem Visits.onTrack (fit : s.IsFit)
    (visits : e.Visits (fun calls => op.perform calls program s) levels waiting m) :
    ∃ t, Quiet s t ∧ t.IsFit ∧ m.OnTrack t := by
  obtain ⟨f, t, made, comes⟩ := visits
  obtain ⟨quiet, limits, entered⟩ := made.quiet polite fit
  have here : t.IsFit := ⟨quiet.code fit.laid, limits ▸ fit.room⟩
  exact ⟨t, quiet, here, comes.onTrack polite here entered⟩

/-- An error that is raised while a region is open comes to the innermost frame that has one open. -/
theorem Visits.unwinds (idle : s.control.Accounts s.control.limits [])
    (visits : e.Visits (fun calls => op.perform calls program s) levels waiting m) {error : LocatedError}
    (raised : m.raised? e.host (e.below levels) = some error) (guarded : ∃ g ∈ m :: waiting, g.frame.handlers ≠ []) :
    ∃ inner n outer, m :: waiting = inner ++ n :: outer ∧ (∀ g ∈ inner, g.frame.handlers = []) ∧
      n.frame.handlers ≠ [] ∧ e.Visits (fun calls => op.perform calls program s) (levels + inner.length) outer n ∧
      n.raised? e.host (e.below (levels + inner.length)) = some error := by
  induction waiting generalizing levels m with
  | nil =>
    obtain ⟨_, among, here⟩ := guarded
    obtain rfl := List.mem_singleton.mp among
    exact ⟨[], _, [], rfl, by simp, here, visits, raised⟩
  | cons w ws ih =>
    by_cases none : m.frame.handlers = []
    · obtain ⟨i, m', found, failed⟩ := Machine.raised?_eq_some_iff.mp raised
      have outside : ∃ g ∈ w :: ws, g.frame.handlers ≠ [] := by simpa [none] using guarded
      -- The regions further out are counted, so the error is not shown here.
      have counted : m'.state.control.inTry = true := by
        obtain ⟨g, among, here⟩ := outside
        have within := (visits.failed_accounts polite idle failed).handlers_le
          (List.mem_cons_of_mem _ (List.mem_map_of_mem (f := Machine.frame) among))
        exact decide_eq_true (Nat.lt_of_lt_of_le (List.length_pos_iff.mpr here) within)
      have last := Machine.turn_hidden found failed none (.inr counted)
      obtain ⟨visits', i', w', found', failed', _⟩ := visits.hands_on polite.asksNatives last
      obtain ⟨inner, n, outer, chain, closed, active, there, failing⟩ :=
        ih visits' (Machine.raised?_eq_some_iff.mpr ⟨i', w', found', failed'⟩) outside
      have deeper : levels + 1 + inner.length = levels + (m :: inner).length := by
        rw [List.length_cons]
        omega
      rw [deeper] at there failing
      exact ⟨m :: inner, n, outer, by rw [chain, List.cons_append], List.forall_mem_cons.mpr ⟨none, closed⟩, active,
        there, failing⟩
    · exact ⟨[], m, w :: ws, rfl, by simp, none, visits, raised⟩

end

end Engine

/-- An error that is raised while a region is open goes to the latest region that is: of the live frames, the
innermost that has one open goes on in the handler of the one that it opened last, and all inner frames are gone.
The handler receives the place and the text of the error. -/
theorem Engine.error_resumes_at_latest_region {e : Engine} (polite : e.host.IsPolite False) (op : Operation)
    (program : ProgramId) {s : State} (compiled : s.store.IsCompiled) (room : 1 ≤ s.control.limits.stackDepth)
    (idle : s.control.callStack = .empty) (closed : s.control.openTries = 0) {levels : Nat}
    {waiting : List Machine} {m : Machine} {error : LocatedError}
    (visits : e.Visits (fun calls => op.perform calls program s) levels waiting m)
    (raised : m.raised? e.host (e.below levels) = some error)
    (guarded : ∃ g ∈ m :: waiting, g.frame.handlers ≠ []) :
    error.message = s!"{error.file}:{error.place.line}:{error.place.column}: {error.error.message}" ∧
    ∃ inner opening failing resumed outer h k, m :: waiting = inner ++ failing :: outer ∧
      (∀ g ∈ inner, g.frame.handlers = []) ∧
      e.Visits (fun calls => op.perform calls program s) (levels + inner.length) outer opening ∧
      e.Visits (fun calls => op.perform calls program s) (levels + inner.length) outer failing ∧
      Machine.KeepsOpen e.host (e.below (levels + inner.length)) k opening failing h ∧
      Machine.turn e.host (e.below (levels + inner.length)) failing = .inl resumed ∧
      Machine.Resumes opening failing resumed h error ∧
      resumed.state.control.Accounts s.control.limits (resumed.frame :: outer.map Machine.frame) := by
  refine ⟨rfl, ?_⟩
  have fit : s.IsFit := ⟨compiled.isLaidOut, room⟩
  have start := State.accounts_idle idle closed
  obtain ⟨inner, n, outer, chain, unguarded, active, visits, failing⟩ := visits.unwinds polite start raised guarded
  obtain ⟨i, n₁, found, failed⟩ := Machine.raised?_eq_some_iff.mp failing
  obtain ⟨h, hs, regions⟩ := List.exists_cons_of_ne_nil active
  obtain ⟨accounts, bound⟩ := visits.accounts polite start
  obtain ⟨f, t, made, comes⟩ := visits
  obtain ⟨quiet, limits, entered⟩ := made.quiet polite fit
  have here : t.IsFit := ⟨quiet.code fit.laid, limits ▸ fit.room⟩
  have on := comes.onTrack polite here entered
  obtain ⟨c, k, opened, reached, less⟩ := comes
  have latest : n.frame.handlers = [] ++ h :: hs := regions
  obtain ⟨j, l, n₀, before, there, below, keeps⟩ := reached.keepsOpen entered.handlers latest
  have comes₀ : e.Comes (levels + inner.length) f t n₀ := ⟨c, j, opened, there, by omega⟩
  have turned := on.turn_eq found failed regions
  have books := e.below_books polite (levels + inner.length)
  have same := (keeps.reached.steady books polite).procedure
  have resumes := (comes₀.onTrack polite here entered).resumes on keeps below same regions failed
  generalize ((n₁.unwind h hs).pushed (.string error.message)).jumped h.target = resumed at turned resumes
  have steady := Machine.turn_steady books polite n
  rw [turned] at steady
  exact ⟨inner, n₀, n, resumed, outer, h, l, chain, unguarded, ⟨f, t, made, comes₀⟩,
    ⟨f, t, made, c, k, opened, reached, less⟩, keeps, turned, resumes, accounts.steady bound steady⟩

/-- A host that calls a procedure asks for the run of its frame. -/
theorem Engine.Makes.call_procedure {e : Engine} {levels : Nat} (program : ProgramId) (depth : e.depth = levels + 1)
    {s : State} {id : ProcedureId} {args : Arguments} {program' : ProgramId} {locals : Locals} {t : State}
    (held : t = ⟨s.store, s.control.hold (.ofValues [.procedure id])⟩)
    (found : Invoke.found .host id none args t = .ok (id, program', locals)) :
    e.Makes (fun calls => (Operation.invoke (.procedure id) args).perform calls program s) levels []
      (.run (.enter t (t.store.procedure id) program' locals)) t := by
  subst held
  have asked : e.Makes (fun calls => (Operation.invoke (.procedure id) args).perform calls program s) (levels + 1) []
      (.invoke (.procedure id) args) s := by
    rw [← depth]
    exact .host ((Waits.invoke (.procedure id) args s e.calls).starts nofun)
  refine .invoke asked (Waits.starts ?_ nofun)
  refine Waits.holding (x := fun calls => Invoke.procedure calls .host id none args) ?_
  rw [funext fun calls => funext fun s => Invoke.procedure_eq calls .host id none args s]
  exact .found found

theorem Host.none_isPolite (re : Prop) : Host.none.IsPolite re :=
  ⟨fun _ _ _ => .fail _, fun _ _ _ _ => .fail _, fun _ _ _ _ => .fail _, fun _ _ _ => .fail _, fun _ _ _ => .fail _⟩

/-- A text with a function that raises an error in the handler of a region, in another region. -/
def nestedRegions : String :=
  "def f() \x7b try \x7b try \x7b return y; \x7d catch : e \x7b return z; \x7d \x7d catch : e \x7b return e; \x7d \x7d"

/-- The state in which that text is loaded, and its function is about to be called. -/
def nestedRegionsCalled : State :=
  ⟨(Store.empty.addProgram (.ofSource nestedRegions "demo" ⟨0, false⟩)).2,
    Control.start.hold (.ofValues [.procedure ⟨0, 0⟩])⟩

theorem Engine.nestedRegions_resumes :
    ∃ s, (Engine.load nestedRegions "demo" false : Exec ScriptError ProgramId) .start = .ok 0 s ∧
      Host.none.IsPolite False ∧ s.store.IsCompiled ∧ 1 ≤ s.control.limits.stackDepth ∧
      s.control.callStack = .empty ∧ s.control.openTries = 0 ∧
    ∃ m error, (Engine.mk .none 2 100).Visits
        (fun calls => (Operation.invoke (.procedure ⟨0, 0⟩) []).perform calls 0 s) 0 [] m ∧
      m.raised? .none ((Engine.mk .none 2 100).below 0) = some error ∧ (∃ g ∈ [m], g.frame.handlers ≠ []) ∧
    ∃ opening resumed h k, Machine.KeepsOpen .none ((Engine.mk .none 2 100).below 0) k opening m h ∧
      Machine.turn .none ((Engine.mk .none 2 100).below 0) m = .inl resumed ∧
      Machine.Resumes opening m resumed h error := by
  have spelled : spellsOnly nestedRegions (fun c => !decide c.Assigns) = true := by decide +kernel
  obtain ⟨s, loaded, control, called⟩ : ∃ s,
      (Engine.load nestedRegions "demo" false : Exec ScriptError ProgramId) .start = .ok 0 s ∧ s.control = .start ∧
        nestedRegionsCalled = ⟨s.store, s.control.hold (.ofValues [.procedure ⟨0, 0⟩])⟩ := ⟨_, rfl, rfl, rfl⟩
  have compiled : s.store.IsCompiled := by
    refine Engine.load_isCompiled (s := .start) Store.empty_isCompiled (fun tree parsed c among => ?_) loaded
    obtain ⟨tree', parsed', plain⟩ := spellsOnly_iff.mp spelled
    cases parsed.symm.trans parsed'
    simpa using plain c among
  have room : 1 ≤ s.control.limits.stackDepth := by
    rw [control]
    decide
  have unbound : (nestedRegionsCalled.store.procedure ⟨0, 0⟩).params = [] :=
    List.isEmpty_iff.mp (by decide +kernel)
  have found : Invoke.found .host ⟨0, 0⟩ none [] nestedRegionsCalled =
      .ok (⟨0, 0⟩, 0, .procedure .empty) := by
    unfold Invoke.found
    rw [unbound, if_neg (by decide +kernel)]
    rfl
  have made := Makes.call_procedure (e := ⟨.none, 2, 100⟩) 0 rfl called found
  let entered := Frame.enter nestedRegionsCalled (nestedRegionsCalled.store.procedure ⟨0, 0⟩) 0 (.procedure .empty)
  let called := { nestedRegionsCalled.control with
    callStack := nestedRegionsCalled.control.callStack.push entered.record }
  have opened : nestedRegionsCalled.control.openCall entered.record = .ok called :=
    Control.openCall_eq_ok_iff.mpr ⟨by decide +kernel, rfl⟩
  have checked : ((Machine.after .none ((Engine.mk .none 2 100).below 0) 4 ⟨entered, nestedRegionsCalled.store,
      called⟩).any fun m =>
        (m.raised? .none ((Engine.mk .none 2 100).below 0)).isSome && !m.frame.handlers.isEmpty) = true := by
    decide +kernel
  obtain ⟨m, reached, both⟩ := (Option.any_eq_true _ _).mp checked
  obtain ⟨raises, region⟩ := Bool.and_eq_true_iff.mp both
  obtain ⟨error, raised⟩ := Option.isSome_iff_exists.mp raises
  have visits : (Engine.mk .none 2 100).Visits
      (fun calls => (Operation.invoke (.procedure ⟨0, 0⟩) []).perform calls 0 s) 0 [] m :=
    ⟨entered, nestedRegionsCalled, made, called, 4, opened, Machine.reachesIn_of_after reached, by decide⟩
  have guarded : ∃ g ∈ [m], g.frame.handlers ≠ [] := ⟨m, List.mem_singleton_self m, by simpa using region⟩
  have idle : s.control.callStack = .empty := by rw [control]; rfl
  have closed : s.control.openTries = 0 := by rw [control]; rfl
  obtain ⟨-, inner, opening, failing, resumed, outer, h, k, chain, -, -, -, keeps, turned, resumes, -⟩ :=
    Engine.error_resumes_at_latest_region (Host.none_isPolite False) (.invoke (.procedure ⟨0, 0⟩) []) 0 compiled room
      idle closed visits raised guarded
  cases inner with
  | nil =>
    cases chain
    exact ⟨s, loaded, Host.none_isPolite False, compiled, room, idle, closed, m, error, visits, raised, guarded,
      opening, resumed, h, k, keeps, turned, resumes⟩
  | cons g inner =>
    cases inner <;> cases chain

end ScriptEngine
