import ScriptEngine.Proofs.Calling
import ScriptEngine.Proofs.Depths
import ScriptEngine.Proofs.Effects

/-! # Frames of compiled code

A frame of compiled code that runs within a zone stays in the zone and in the layout of its code: what it
holds is owned, and its stack and its open regions have the shape of the index where it stands. Whatever an
instruction needs is then there, so none can break an invariant by itself, and the runs that it starts do not
either.
-/

namespace ScriptEngine

variable {z : Zone} {host : Host} {calls calls' : Calls} {α : Type} {Q : α → Prop}

/-- A machine that holds and sees nothing outside of a zone. -/
structure Zone.OwnsMachine (z : Zone) (m : Machine) : Prop where
  frame : z.OwnsFrame m.frame
  store : z.Settled m.state.store

/-- Two computations of a machine that stay in a zone and come to the same there. -/
abbrev Zone.MovesAlike (z : Zone) (x y : MachineM α) (Q : α → Prop) : Prop :=
  Keeps z.OwnsMachine (fun _ => True) x y Q

/-- A computation of a machine that stays in a zone. -/
abbrev Zone.Moves (z : Zone) (x : MachineM α) (Q : α → Prop) : Prop := z.MovesAlike x x Q

/-- A frame of the same call with the same variables is owned if what is on its stack is. -/
theorem Zone.OwnsFrame.sameCall {f g : Frame} (owned : z.OwnsFrame f)
    (procedure : g.procedure = f.procedure) (owner : g.owner = f.owner)
    (program : g.program = f.program) (locals : g.locals = f.locals)
    (all : ∀ v ∈ g.stack.items, z.Owns v) : z.OwnsFrame g where
  fits := procedure ▸ owned.fits
  constants := procedure ▸ owned.constants
  owner := owner ▸ owned.owner
  program := program ▸ owned.program
  locals := locals ▸ owned.locals
  hidden := fun hidden same => owned.hidden hidden (locals ▸ same)
  stack := all

theorem Zone.OwnsFrame.stacked {f : Frame} (owned : z.OwnsFrame f) {stack : Stack Value}
    (all : ∀ v ∈ stack.items, z.Owns v) : z.OwnsFrame { f with stack } :=
  owned.sameCall rfl rfl rfl rfl all

theorem Zone.OwnsFrame.bound {f : Frame} (owned : z.OwnsFrame f) {locals : Locals}
    (all : z.OwnsTable locals.table) (hidden : ({ f with locals } : Frame).OwnsHidden) :
    z.OwnsFrame { f with locals } :=
  ⟨owned.fits, owned.constants, owned.owner, owned.program, all, hidden, owned.stack⟩

/-- A hidden variable may be added to those of top-level code. -/
theorem Frame.OwnsHidden.set {f : Frame} (owns : f.OwnsHidden) {hidden : Bindings} (same : f.locals = .topLevel hidden)
    {name : String} (named : isHidden name = true) (v : Value) :
    ({ f with locals := .topLevel (hidden.set name v) } : Frame).OwnsHidden := by
  rintro _ ⟨⟩ other has
  rw [Table.contains_set] at has
  by_cases self : other = name
  · rwa [self]
  · exact owns hidden same other (by simpa [self] using has)

/-- Assigning a value of the zone leaves frame and store in the zone. -/
theorem Frame.assign_owned {f : Frame} {s : Store} (owned : z.OwnsFrame f) (settled : z.Settled s)
    {name : String} {v : Value} (here : z.Owns v) :
    z.OwnsFrame (f.assign s name v).1 ∧ z.Settled (f.assign s name v).2 := by
  unfold Frame.assign
  have locals := owned.locals
  split
  · next hidden same =>
    rw [same] at locals
    split
    · next named => exact ⟨owned.bound (Zone.OwnsTable.set locals here) (owned.hidden.set same named v), settled⟩
    · split
      · exact ⟨owned, settled.setStatic here⟩
      · exact ⟨owned, settled.define here⟩
  · next table same =>
    rw [same] at locals
    split
    · exact ⟨owned.bound (Zone.OwnsTable.set locals here) nofun, settled⟩
    · split
      · exact ⟨owned, settled.setStatic here⟩
      · split
        · exact ⟨owned, settled.define here⟩
        · exact ⟨owned.bound (Zone.OwnsTable.set locals here) nofun, settled⟩

namespace Machine

theorem readFrame_moves {g : Frame → α} (here : ∀ f, z.OwnsFrame f → Q (g f)) :
    z.Moves (readFrame g) Q := .alone fun m owned => ⟨owned, here m.frame owned.frame⟩

theorem modifyFrame_moves {g : Frame → Frame} (kept : ∀ f, z.OwnsFrame f → z.OwnsFrame (g f)) :
    z.Moves (modifyFrame g) fun _ => True :=
  .alone fun m owned => ⟨⟨kept m.frame owned.frame, owned.store⟩, trivial⟩

theorem modifyControl_moves {g : Control → Control} : z.Moves (modifyControl g) fun _ => True :=
  .alone fun _ owned => ⟨⟨owned.frame, owned.store⟩, trivial⟩

theorem moveTo_moves {place : Position} : z.Moves (moveTo place) fun _ => True :=
  modifyFrame_moves fun _ owned => owned.sameCall rfl rfl rfl rfl owned.stack

theorem refreshCall_moves : z.Moves refreshCall fun _ => True := by
  refine .alone fun m owned => ?_
  rw [refreshCall_eq]
  refine ⟨⟨owned.frame, ?_⟩, trivial⟩
  unfold refreshed
  dsimp only
  split <;> exact owned.store

theorem failHere_moves {e : RuntimeError} : z.Moves (failHere e : MachineM α) Q :=
  (readFrame_moves (Q := fun _ => True) fun _ _ => trivial).bind fun _ _ => .fail trivial

theorem failBroken_moves {what : String} : z.Moves (failBroken what : MachineM α) Q :=
  (readFrame_moves (Q := fun _ => True) fun _ _ => trivial).bind fun _ _ => .fail trivial

theorem push_moves {v : Value} (here : z.Owns v) : z.Moves (push v) fun _ => True := by
  refine (readFrame_moves (Q := fun _ => True) fun _ _ => trivial).bind fun f _ => ?_
  split
  · exact failHere_moves
  · refine modifyFrame_moves fun f owned => owned.stacked fun w member => ?_
    rcases List.mem_cons.mp member with rfl | member
    · exact here
    · exact owned.stack w member

theorem pop_moves : z.Moves pop z.Owns := by
  refine (readFrame_moves (Q := z.OwnsFrame) fun _ owned => owned).bind fun f owned => ?_
  split
  · exact failBroken_moves
  · next v rest found =>
    obtain ⟨w, top, same⟩ := Option.map_eq_some_iff.mp found
    cases same
    refine (modifyFrame_moves fun g other => other.stacked fun x member => ?_).bind fun _ _ =>
      .pure (owned.stack _ (List.mem_of_mem_head? top))
    exact owned.stack x (List.mem_of_mem_drop member)

/-- The operands of a call are its arguments. -/
theorem zipWith_owned {keywords : List (Option String)} {values : List Value}
    (all : ∀ v ∈ values, z.Owns v) : z.OwnsArguments (List.zipWith Argument.mk keywords values) := by
  induction keywords generalizing values with
  | nil => simp [Zone.OwnsArguments]
  | cons k rest ih =>
    cases values with
    | nil => simp [Zone.OwnsArguments]
    | cons v others =>
      obtain ⟨here, all⟩ := List.forall_mem_cons.mp all
      exact List.forall_mem_cons.mpr ⟨here, ih all⟩

theorem popArguments_moves {site : CallSite} : z.Moves (popArguments site) z.OwnsArguments := by
  refine (readFrame_moves (Q := z.OwnsFrame) fun _ owned => owned).bind fun f owned => ?_
  split
  · exact failBroken_moves
  · refine (modifyFrame_moves fun g other => other.stacked fun x member => ?_).bind fun _ _ =>
      .pure (zipWith_owned fun v member => ?_)
    · exact other.stack x (List.mem_of_mem_drop member)
    · exact owned.stack v (List.mem_of_mem_take (List.mem_reverse.mp member))

theorem onState_moves {x y : Exec ScriptError α} (kept : z.Performs x y Q) :
    z.MovesAlike (onState x) (onState y) Q := by
  intro m owned
  obtain ⟨same, after⟩ := Exec.holding_keeps (h := m.frame.hold) kept m.state owned.store
  rw [onState_eq, onState_eq, ← same]
  refine ⟨rfl, ?_⟩
  cases run : x.holding m.frame.hold m.state with
  | ok a state =>
    rw [run] at after
    exact ⟨⟨owned.frame, after.1⟩, after.2⟩
  | error halt state =>
    rw [run] at after
    cases halt with
    | failed e => exact ⟨⟨owned.frame, after.1⟩, trivial⟩
    | exhausted => exact ⟨owned.frame, after⟩

theorem located_moves (sound : z.Sound) {x y : Exec RuntimeError α} (kept : z.Asks x y Q) :
    z.MovesAlike (located x) (located y) Q :=
  (readFrame_moves (Q := fun _ => True) fun _ _ => trivial).bind fun _ _ =>
    onState_moves (Invoke.located_performs sound kept)

theorem assign_moves {name : String} {v : Value} (here : z.Owns v) :
    z.Moves (assign name v) fun _ => True := by
  refine .alone fun m owned => ?_
  obtain ⟨frame, store⟩ :
      z.OwnsFrame (m.frame.assign m.state.store name v).1 ∧
        z.Settled (m.frame.assign m.state.store name v).2 :=
    Frame.assign_owned owned.frame owned.store here
  rw [assign_eq]
  exact ⟨⟨frame, store⟩, trivial⟩

theorem assignArguments_moves {args : Arguments} (owned : z.OwnsArguments args) :
    z.Moves (assignArguments args) fun _ => True := by
  unfold assignArguments
  split
  · next tag target tag' v rest =>
    have here : z.Owns v := owned ⟨tag', v⟩ (by simp)
    split
    · exact assign_moves here
    · exact failBroken_moves
  · exact failBroken_moves

theorem callNamed_moves (sound : z.Sound) (tame : z.OwnsHost host) (nested : z.OwnsCalls calls calls')
    {site : CallSite} : z.MovesAlike (callNamed host calls site) (callNamed host calls' site) fun _ => True := by
  refine moveTo_moves.bind fun _ _ => popArguments_moves.bind fun args owned => ?_
  split
  · exact assignArguments_moves owned
  · refine refreshCall_moves.bind fun _ _ => ?_
    refine (readFrame_moves (Q := z.OwnsFrame) fun _ owned => owned).bind fun f frame => ?_
    exact (onState_moves (Name.call_performs sound tame nested frame owned)).bind fun v here =>
      push_moves here

theorem memberName_moves {args : Arguments} : z.Moves (memberName args) fun _ => True := by
  unfold memberName
  split
  · exact .pure trivial
  · exact Keeps.get.bind fun _ _ => failHere_moves
  · exact failBroken_moves

/-- The value that is written to a member is an argument or null. -/
theorem written_owned {args : Arguments} (owned : z.OwnsArguments args) (index : Nat) :
    z.Owns ((args.value? index).getD .null) := by
  cases found : args.value? index with
  | none => exact Zone.owns_null
  | some v => exact Arguments.value?_owned owned found

theorem sendNamed_moves (sound : z.Sound) (tame : z.OwnsHost host) (nested : z.OwnsCalls calls calls')
    {site : CallSite} : z.MovesAlike (sendNamed host calls site) (sendNamed host calls' site) fun _ => True := by
  refine moveTo_moves.bind fun _ _ => popArguments_moves.bind fun args owned => ?_
  refine pop_moves.bind fun receiver here => ?_
  split
  · refine memberName_moves.bind fun name _ => ?_
    exact (located_moves sound (Member.get_asks tame nested here)).bind fun v member => push_moves member
  · refine memberName_moves.bind fun name _ => ?_
    have written := written_owned owned 1
    exact (located_moves sound (Member.set_asks tame nested here written)).bind fun _ _ =>
      push_moves written
  · refine refreshCall_moves.bind fun _ _ => ?_
    refine (readFrame_moves (Q := fun _ => True) fun _ _ => trivial).bind fun site _ => ?_
    exact (onState_moves (Invoke.send_performs sound tame nested here owned)).bind fun v sent =>
      push_moves sent

theorem decides_moves {kind : BranchKind} : z.Moves (decides kind) fun _ => True := by
  unfold decides
  split
  · exact .pure trivial
  · refine pop_moves.bind fun v _ => ?_
    split
    · exact .pure trivial
    · exact Keeps.get.bind fun _ _ => failHere_moves

/-- A frame that is left yields a value of the zone. -/
def OwnsFlow (z : Zone) (flow : Flow) : Prop := ∀ v, flow = .leave v → z.Owns v

theorem top?_owned {f : Frame} (owned : z.OwnsFrame f) : z.Owns (f.stack.top?.getD .null) := by
  cases top : f.stack.top? with
  | none => exact Zone.owns_null
  | some v => exact owned.stack v (List.mem_of_mem_head? top)

theorem branch_moves {kind : BranchKind} {offset : Offset} :
    z.Moves (branch kind offset) (OwnsFlow z) := by
  refine decides_moves.bind fun taken _ => ?_
  split
  · refine (readFrame_moves (Q := z.OwnsFrame) fun _ owned => owned).bind fun f owned => ?_
    split
    · exact .pure (by rintro v ⟨⟩)
    · refine .pure ?_
      rintro v ⟨⟩
      exact top?_owned owned
    · exact failBroken_moves
  · exact .pure (by rintro v ⟨⟩)

theorem enterTry_moves {offset : Offset} : z.Moves (enterTry offset) fun _ => True := by
  refine (readFrame_moves (Q := fun _ => True) fun _ _ => trivial).bind fun f _ => ?_
  split
  · refine (modifyFrame_moves fun g owned => ?_).bind fun _ _ => modifyControl_moves
    exact owned.sameCall rfl rfl rfl rfl owned.stack
  · exact failBroken_moves

theorem leaveTry_moves : z.Moves leaveTry fun _ => True := by
  refine (readFrame_moves (Q := fun _ => True) fun _ _ => trivial).bind fun f _ => ?_
  split
  · exact failBroken_moves
  · refine (modifyFrame_moves fun g owned => ?_).bind fun _ _ => modifyControl_moves
    exact owned.sameCall rfl rfl rfl rfl owned.stack

theorem passMarker_moves {index : Nat} {lines : Lines} :
    z.Moves (passMarker index lines) fun _ => True := by
  refine .alone fun m owned => ?_
  obtain ⟨place, state, store, ran⟩ := m.passMarker_cases index lines
  have frame : z.OwnsFrame { m.frame with place } :=
    owned.frame.sameCall rfl rfl rfl rfl owned.frame.stack
  have after : z.OwnsMachine ⟨{ m.frame with place }, state⟩ := ⟨frame, store ▸ owned.store⟩
  rcases ran with passed | failed
  · rw [passed]
    exact ⟨after, trivial⟩
  · rw [failed]
    exact ⟨after, trivial⟩

theorem takeMessage_moves {binding : Option String} :
    z.Moves (takeMessage binding) fun _ => True := by
  refine pop_moves.bind fun message here => ?_
  split
  · exact assign_moves here
  · exact .pure trivial

/-- An instruction whose constant is of the zone keeps the machine in the zone. -/
theorem step_moves (sound : z.Sound) (tame : z.OwnsHost host) (nested : z.OwnsCalls calls calls')
    {i : Instruction} (constant : ∀ v, i = .value v → z.Owns v) :
    z.MovesAlike (step host calls i) (step host calls' i) (OwnsFlow z) := by
  have onward : z.Moves (pure Flow.next) (OwnsFlow z) := .pure (by rintro v ⟨⟩)
  cases i with
  | value v => exact (push_moves (constant v rfl)).bind fun _ _ => onward
  | load name place =>
    refine moveTo_moves.bind fun _ _ => ?_
    refine (readFrame_moves (Q := z.OwnsFrame) fun _ owned => owned).bind fun f frame => ?_
    refine (located_moves sound (Name.load_asks tame nested frame)).bind fun v here => ?_
    exact (push_moves here).bind fun _ _ => onward
  | call site => exact (callNamed_moves sound tame nested).bind fun _ _ => onward
  | send site => exact (sendNamed_moves sound tame nested).bind fun _ _ => onward
  | branch kind offset => exact branch_moves
  | stop index lines => exact passMarker_moves.bind fun _ _ => onward
  | discard => exact pop_moves.bind fun _ _ => onward
  | enterTry offset => exact enterTry_moves.bind fun _ _ => onward
  | leaveTry => exact leaveTry_moves.bind fun _ _ => onward
  | caught binding => exact takeMessage_moves.bind fun _ _ => onward

theorem enterHandler_moves {e : LocatedError} {h : Handler} {outer : List Handler} :
    z.Moves (enterHandler e h outer) fun _ => True := by
  refine modifyControl_moves.bind fun _ _ => ?_
  refine Keeps.bind (modifyFrame_moves fun f owned => ?_) fun _ _ => ?_
  · exact owned.sameCall rfl rfl rfl rfl fun v member => owned.stack v (List.mem_of_mem_drop member)
  · refine (push_moves (Zone.owns_string _)).bind fun _ _ => modifyFrame_moves fun f owned => ?_
    exact owned.sameCall rfl rfl rfl rfl owned.stack

theorem escape_moves {e : LocatedError} : z.Moves (escape e) fun _ => True := by
  refine (Keeps.get (I := z.OwnsMachine)).bind fun m _ => ?_
  split
  · exact .fail trivial
  · refine refreshCall_moves.bind fun _ _ => Keeps.get.bind fun _ _ => ?_
    exact modifyControl_moves.bind fun _ _ => .fail trivial

/-- So does answering an error. -/
theorem recover_moves {e : ScriptError} : z.Moves (recover e) fun _ => True := by
  unfold recover
  split
  · refine (readFrame_moves (Q := fun _ => True) fun _ _ => trivial).bind fun f _ => ?_
    split
    · exact enterHandler_moves
    · exact escape_moves
  · exact .fail trivial

end Machine

end ScriptEngine
