import ScriptEngine.Proofs.Accounts
import ScriptEngine.Proofs.Effects
import ScriptEngine.Proofs.Transparency

/-! # Markers make no difference

A program that was compiled with markers and the one that was compiled without run alike, marker by marker and
instruction by instruction, except in one way. A marker moves the place of its frame to the line of its statement, and
the errors of instructions that have no place of their own are reported there. So this is about runs in which no such
instruction fails behind a marker; and nobody looks on, who could see the lines of markers in the call stack.
-/

namespace ScriptEngine

variable {α : Type}

/-- Where an index of a list goes when the markers of the list are deleted. -/
def unmarkedIndex (is : List Instruction) (k : Nat) : Nat := paces (is.take k)

section

variable {is : List Instruction} {k : Nat}

theorem unmarkedIndex_succ {i : Instruction} (here : is[k]? = some i) :
    unmarkedIndex is (k + 1) = unmarkedIndex is k + if i.isStop then 0 else 1 := by
  simp [unmarkedIndex, List.take_add_one, here]

/-- An instruction that stays stands where its index has gone. -/
theorem unmark_getElem? {i : Instruction} (here : is[k]? = some i) (stays : i.isStop = false) :
    (unmark is)[unmarkedIndex is k]? = some (i.renumber (unmarkedIndex is) k) := by
  obtain ⟨inside, found⟩ := List.getElem?_eq_some_iff.mp here
  have parts : is = is.take k ++ i :: is.drop (k + 1) := by
    rw [← found, List.getElem_cons_drop, List.take_append_drop]
  have length : (is.take k).length = k := List.length_take_of_le inside.le
  have split : unmark is = unmarkAt (unmarkedIndex is) 0 (is.take k) ++
      i.renumber (unmarkedIndex is) k :: unmarkAt (unmarkedIndex is) (k + 1) (is.drop (k + 1)) := by
    change unmarkAt (unmarkedIndex is) 0 is = _
    conv_lhs => arg 3; rw [parts]
    rw [unmarkAt_append, length, Nat.zero_add, unmarkAt, if_neg (by simp [stays])]
  rw [split, List.getElem?_append_right (by simp [unmarkedIndex])]
  simp [unmarkedIndex]

theorem unmarkedIndex_le (is : List Instruction) (k : Nat) : unmarkedIndex is k ≤ (unmark is).length := by
  rw [unmark, length_unmarkAt]
  exact (List.take_sublist k is).countP_le

/-- Behind the end of a list there is nothing without its markers either. -/
theorem unmark_getElem?_none (here : is[k]? = none) : (unmark is)[unmarkedIndex is k]? = none := by
  rw [List.getElem?_eq_none_iff, unmarkedIndex, List.take_of_length_le (List.getElem?_eq_none_iff.mp here), unmark,
    length_unmarkAt]

/-- Where a branch leads when markers are deleted. -/
def Landing.unmarked (is : List Instruction) : Landing → Landing
  | index target => .index (unmarkedIndex is target)
  | exit => .exit

theorem landing?_unmarked {offset : Offset} {landing : Landing} (lands : landing? k offset is.length = some landing) :
    landing? (unmarkedIndex is k) (offset.renumber (unmarkedIndex is) k) (unmark is).length =
      some (landing.unmarked is) := by
  cases offset with
  | exit =>
    cases lands
    rfl
  | relative n =>
    dsimp only [landing?] at lands
    split at lands
    · next inside =>
      cases lands
      have within := unmarkedIndex_le is (k + n).toNat
      unfold Offset.renumber landing?
      dsimp only
      rw [if_pos ⟨by omega, by omega⟩]
      exact congrArg (fun target => some (Landing.index target)) (by omega)
    · cases lands

end

/-- A state and the same without markers, in runs that nobody looks on and that are not ended. -/
structure State.Unmarked (s t : State) : Prop where
  same : t = s.withoutMarkers
  unobserved : s.control.isObserved = false
  running : s.control.terminated = false

/-- A frame in the code without markers. -/
def Frame.withoutMarkers (f : Frame) : Frame :=
  let index := unmarkedIndex f.procedure.code.toList
  { f with
    procedure := f.procedure.withoutMarkers
    pc := index f.pc
    handlers := f.handlers.map fun h => { h with target := index h.target } }

/-- A frame and the same in the code without markers. -/
def Frame.Unmarked (f f' : Frame) : Prop := f' = f.withoutMarkers

theorem State.Unmarked.likeness : State.Likeness State.Unmarked Frame.Unmarked where
  reads unmarked blind := by
    rw [unmarked.same]
    exact (blind _).symm
  limits unmarked := by rw [unmarked.same]; rfl
  output unmarked := by rw [unmarked.same]; rfl
  changed {s _ _} natural unmarked := by
    rw [unmarked.same]
    exact ⟨congrArg (State.mk · s.control) (natural s.store), unmarked.unobserved, unmarked.running⟩
  hold h unmarked := by
    rw [unmarked.same]
    exact ⟨rfl, unmarked.unobserved, unmarked.running⟩
  letGo unmarked := by
    rw [unmarked.same]
    exact ⟨rfl, unmarked.unobserved, unmarked.running⟩
  prints o unmarked := by
    rw [unmarked.same]
    exact ⟨rfl, unmarked.unobserved, unmarked.running⟩
  enters {s _} id program locals unmarked := by
    rw [unmarked.same]
    unfold Frame.Unmarked Frame.enter
    dsimp only [State.withoutMarkers]
    rw [Store.procedure_withoutMarkers, Store.program_withoutMarkers]
    have owner := s.ownerOf?_withoutMarkers (s.store.procedure id) locals.table
    dsimp only [State.withoutMarkers] at owner
    rw [owner]
    rfl

/-- A frame and one in the code without markers. Where the place is `lost` they may be at different ones. -/
inductive Frame.Bare (lost : Bool) (f : Frame) : Frame → Prop
  | mk (place : Position) (same : lost = false → place = f.place) : Bare lost f { f.withoutMarkers with place }

namespace Frame.Bare

variable {lost : Bool} {f f' : Frame} (bare : f.Bare lost f')
include bare

theorem stack : f'.stack = f.stack := by
  cases bare
  rfl

theorem maxStack : f'.maxStack = f.maxStack := by
  cases bare
  rfl

theorem hold : f'.hold = f.hold := by
  cases bare
  rfl

theorem handlers : f'.handlers = f.withoutMarkers.handlers := by
  cases bare
  rfl

theorem landing? {offset : Offset} {landing : Landing}
    (lands : ScriptEngine.landing? f.pc offset f.procedure.code.size = some landing) :
    ScriptEngine.landing? f'.pc (offset.renumber (unmarkedIndex f.procedure.code.toList) f.pc)
      f'.procedure.code.size = some (landing.unmarked f.procedure.code.toList) := by
  cases bare
  exact landing?_unmarked lands

/-- Assigning a name does the same without markers. -/
theorem assign (s : Store) (name : String) (v : Value) :
    (f.assign s name v).1.Bare lost (f'.assign s.withoutMarkers name v).1 ∧
      (f'.assign s.withoutMarkers name v).2 = (f.assign s name v).2.withoutMarkers := by
  obtain ⟨place, same⟩ := bare
  have static : Frame.staticOwner? { f.withoutMarkers with place } s.withoutMarkers name = f.staticOwner? s name := by
    simp only [Frame.staticOwner?, Store.classDef_withoutMarkers]
    rfl
  have members : (s.withoutMarkers.program f.program).members = (s.program f.program).members := by
    rw [Store.program_withoutMarkers]
    rfl
  obtain ⟨p, owner, program, file, locals, stack, handlers, pc, here, maxStack⟩ := f
  unfold Frame.assign
  rw [static]
  cases locals with
  | topLevel hidden =>
    dsimp only [Frame.withoutMarkers]
    split
    · exact ⟨⟨place, same⟩, rfl⟩
    · split
      · exact ⟨⟨place, same⟩, Store.setStatic_natural _ name v s⟩
      · exact ⟨⟨place, same⟩, Store.define_natural _ name v s⟩
  | procedure table =>
    dsimp only [Frame.withoutMarkers] at members ⊢
    simp only [members]
    split
    · exact ⟨⟨place, same⟩, rfl⟩
    · split
      · exact ⟨⟨place, same⟩, Store.setStatic_natural _ name v s⟩
      · split
        · exact ⟨⟨place, same⟩, Store.define_natural _ name v s⟩
        · exact ⟨⟨place, same⟩, rfl⟩

end Frame.Bare

theorem Frame.Bare.site {f f' : Frame} (bare : f.Bare false f') : f.site = f'.site := by
  obtain ⟨place, same⟩ := bare
  exact congrArg (Site.mk f.file) (same rfl).symm

theorem Frame.Bare.view {f f' : Frame} (bare : f.Bare false f') : f.SameView f' := by
  have site := bare.site
  obtain ⟨place, same⟩ := bare
  exact ⟨rfl, rfl, rfl, site⟩

/-- Whether an error says that an invariant is broken. -/
def ScriptError.isInternal : ScriptError → Bool
  | internal _ => true
  | _ => false

/-- Whether an instruction has a place of its own, at which its errors are reported. -/
def Instruction.hasPlace : Instruction → Bool
  | load .. | call _ | send _ => true
  | _ => false

namespace Machine

/-- A machine at an index of a procedure and one in the code without markers. -/
structure Unmarked (lost : Bool) (p : Procedure) (k : Nat) (m m' : Machine) : Prop where
  frame : m.frame.Bare lost m'.frame
  state : m.state.Unmarked m'.state
  procedure : m.frame.procedure = p
  pc : m.frame.pc = k

/-- Whether a computation has failed at a place that is lost, or has found an invariant broken. -/
def astray (lost : Bool) : EStateM.Result (Halt ScriptError) Machine α → Bool
  | .error (.failed e) _ => lost || e.isInternal
  | _ => false

/-- A computation, but as if a bound were used up where it goes astray. -/
def strict (lost : Bool) (x : MachineM α) : MachineM α := fun m =>
  if astray lost (x m) then .error .exhausted (finalState (x m)) else x m

theorem strict_eq {lost : Bool} {x : MachineM α} {m : Machine} (straight : astray lost (x m) = false) :
    strict lost x m = x m := by
  rw [strict, straight]
  rfl

theorem strict_bind {β : Type} (lost : Bool) (x : MachineM α) (f : α → MachineM β) :
    strict lost (x >>= f) = strict lost x >>= fun a => strict lost (f a) := by
  funext m
  cases ran : x m with
  | ok a m' =>
    have straight : strict lost x m = .ok a m' := by
      rw [strict, ran]
      rfl
    rw [bind_ok straight]
    unfold strict
    rw [bind_ok ran]
  | error halt m' =>
    have both : ∃ halt', strict lost x m = .error halt' m' ∧ strict lost (x >>= f) m = .error halt' m' := by
      unfold strict
      rw [bind_error ran, ran]
      cases halt with
      | exhausted => exact ⟨_, rfl, rfl⟩
      | failed e =>
        change ∃ _, (if lost || e.isInternal then _ else _) = _ ∧ (if lost || e.isInternal then _ else _) = _
        split <;> exact ⟨_, rfl, rfl⟩
    obtain ⟨halt', left, right⟩ := both
    rw [bind_error left, right]

/-- A computation comes to the same without markers, unless it goes astray. -/
def Follows (lost : Bool) (p : Procedure) (k : Nat) (P : α → α → Prop) (x y : MachineM α) : Prop :=
  Accords (Unmarked lost p k) P (strict lost x) y

namespace Follows

variable {β : Type} {lost : Bool} {p : Procedure} {k : Nat} {P : α → α → Prop} {Q : β → β → Prop} {x y : MachineM α}
  {f g : α → MachineM β}

theorem of_accords (accords : Accords (Unmarked lost p k) P x y) : Follows lost p k P x y := by
  intro m m' unmarked
  unfold strict
  split
  · exact .exhausted
  · exact accords m m' unmarked

theorem bind (first : Follows lost p k P x y) (rest : ∀ a b, P a b → Follows lost p k Q (f a) (g b)) :
    Follows lost p k Q (x >>= f) (y >>= g) := by
  unfold Follows
  rw [strict_bind]
  exact Accords.bind first rest

theorem bind_eq (first : Follows lost p k Eq x y) (rest : ∀ a, Follows lost p k Q (f a) (g a)) :
    Follows lost p k Q (x >>= f) (y >>= g) :=
  first.bind fun a _ same => same ▸ rest a

theorem get {f g : Machine → MachineM α}
    (rest : ∀ m m', Unmarked lost p k m m' → Follows lost p k P (f m) (g m')) :
    Follows lost p k P (MonadState.get >>= f) (MonadState.get >>= g) :=
  bind (.of_accords fun _ _ unmarked => .ok unmarked unmarked) rest

theorem pure {a b : α} (here : P a b) : Follows lost p k P (Pure.pure a) (Pure.pure b) := .of_accords (.pure here)

end Follows

variable {lost : Bool} {p : Procedure} {k : Nat} {P : α → α → Prop}

theorem readFrame_follows : Follows lost p k (fun f f' => f.Bare lost f' ∧ f.procedure = p ∧ f.pc = k)
    (readFrame id) (readFrame id) :=
  .of_accords (.get fun _ _ unmarked => .pure ⟨unmarked.frame, unmarked.procedure, unmarked.pc⟩)

theorem modifyFrame_follows {h h' : Frame → Frame} (kept : ∀ {f f'}, f.Bare lost f' → f.procedure = p →
      (h f).Bare lost (h' f') ∧ (h f).procedure = f.procedure ∧ (h f).pc = f.pc) :
    Follows lost p k Eq (modifyFrame h) (modifyFrame h') :=
  .of_accords (.changed fun _ _ unmarked =>
    have ⟨frame, procedure, pc⟩ := kept unmarked.frame unmarked.procedure
    ⟨frame, unmarked.state, procedure.trans unmarked.procedure, pc.trans unmarked.pc⟩)

theorem modifyControl_follows {h : Control → Control} (unobserved : ∀ c, (h c).isObserved = c.isObserved)
    (running : ∀ c, (h c).terminated = c.terminated) :
    Follows lost p k Eq (modifyControl h) (modifyControl h) := by
  refine .of_accords (.changed ?_)
  rintro ⟨f, s⟩ ⟨f', _⟩ ⟨frame, ⟨rfl, quiet, runs⟩, procedure, pc⟩
  exact ⟨frame, ⟨rfl, (unobserved _).trans quiet, (running _).trans runs⟩, procedure, pc⟩

/-- An error is reported at the same place, unless the place is lost. -/
theorem failHere_follows {e : RuntimeError} : Follows lost p k P (failHere e) (failHere e) := by
  rintro ⟨f, s⟩ ⟨f', t⟩ ⟨⟨place, same⟩, state, procedure, pc⟩
  cases lost with
  | true => exact .exhausted
  | false =>
    obtain rfl := same rfl
    exact .failed ⟨⟨_, same⟩, state, procedure, pc⟩

theorem failBroken_follows {what : String} {y : MachineM α} : Follows lost p k P (failBroken what) y := by
  intro m m' unmarked
  have broken : strict lost (failBroken what : MachineM α) m = .error .exhausted m := if_pos (Bool.or_true lost)
  rw [broken]
  exact .exhausted

theorem push_follows (v : Value) : Follows lost p k Eq (push v) (push v) := by
  refine readFrame_follows.bind fun f f' ⟨bare, _⟩ => ?_
  rw [bare.stack, bare.maxStack]
  split
  · exact failHere_follows
  · exact modifyFrame_follows fun ⟨place, same⟩ _ => ⟨⟨place, same⟩, rfl, rfl⟩

theorem pop_follows : Follows lost p k Eq pop pop := by
  refine readFrame_follows.bind fun f f' ⟨bare, _⟩ => ?_
  rw [bare.stack]
  split
  · exact failBroken_follows
  · refine (modifyFrame_follows fun ⟨place, same⟩ _ => ?_).bind_eq fun _ => .pure rfl
    exact ⟨⟨place, same⟩, rfl, rfl⟩

theorem popArguments_follows (call : CallSite) : Follows lost p k Eq (popArguments call) (popArguments call) := by
  refine readFrame_follows.bind fun f f' ⟨bare, _⟩ => ?_
  rw [bare.stack]
  split
  · exact failBroken_follows
  · refine (modifyFrame_follows fun ⟨place, same⟩ _ => ?_).bind_eq fun _ => .pure rfl
    exact ⟨⟨place, same⟩, rfl, rfl⟩

/-- Nobody looks on, so that nothing is refreshed. -/
theorem refreshCall_follows : Follows lost p k Eq refreshCall refreshCall := by
  refine .of_accords (.changed ?_)
  rintro ⟨f, s⟩ ⟨f', _⟩ ⟨frame, ⟨rfl, quiet, runs⟩, procedure, pc⟩
  dsimp only [State.withoutMarkers]
  rw [quiet]
  exact ⟨frame, ⟨rfl, quiet, runs⟩, procedure, pc⟩

/-- What is done to the state while the frame holds what it has. -/
theorem onState_follows {x y : Exec ScriptError α} (accords : Accords State.Unmarked P x y) :
    Follows lost p k P (onState x) (onState y) := by
  refine .of_accords ?_
  rintro ⟨f, s⟩ ⟨f', t⟩ ⟨frame, state, procedure, pc⟩
  have here := Exec.holding_accords State.Unmarked.likeness (h := f.hold) accords s t state
  unfold onState
  dsimp only at frame procedure pc ⊢
  rw [frame.hold]
  generalize x.holding f.hold s = r, y.holding f.hold t = r' at here
  cases here with
  | ok after same => exact .ok ⟨frame, after, procedure, pc⟩ same
  | failed after => exact .failed ⟨frame, after, procedure, pc⟩
  | exhausted => exact .exhausted
  | exhausted' => exact .exhausted'

theorem readSite_follows : Follows false p k Eq (readFrame Frame.site) (readFrame Frame.site) :=
  .of_accords (.get fun _ _ unmarked => .pure unmarked.frame.site)

theorem located_follows {x y : Exec RuntimeError α} (accords : Accords State.Unmarked P x y) :
    Follows false p k P (located x) (located y) :=
  readSite_follows.bind_eq fun _ => onState_follows (Exec.mapError_accords accords)

theorem assign_follows (name : String) (v : Value) : Follows lost p k Eq (assign name v) (assign name v) := by
  refine .of_accords (.changed ?_)
  rintro ⟨f, s, c⟩ ⟨f', _⟩ ⟨frame, ⟨rfl, quiet, runs⟩, procedure, pc⟩
  obtain ⟨after, store⟩ := frame.assign s name v
  obtain ⟨locals, assigned⟩ := f.assign_eq s name v
  refine ⟨after, ⟨congrArg (State.mk · c) store, quiet, runs⟩, ?_, ?_⟩ <;> dsimp only <;> rw [assigned]
  · exact procedure
  · exact pc

theorem assignArguments_follows (args : Arguments) :
    Follows lost p k Eq (assignArguments args) (assignArguments args) := by
  unfold assignArguments
  split
  · split
    · exact assign_follows _ _
    · exact failBroken_follows
  · exact failBroken_follows

/-- An error that tells the type of a value. -/
theorem failMismatch_follows {operation expected : String} {v : Value} :
    Follows lost p k P (do let m ← get; failHere (.typeMismatch operation expected (m.state.store.typeName v)))
      (do let m ← get; failHere (.typeMismatch operation expected (m.state.store.typeName v))) := by
  refine Follows.get fun m m' unmarked => ?_
  rw [unmarked.state.same]
  dsimp only [State.withoutMarkers]
  rw [Store.typeName_withoutMarkers]
  exact failHere_follows

theorem memberName_follows (args : Arguments) : Follows lost p k Eq (memberName args) (memberName args) := by
  unfold memberName
  split
  · exact .pure rfl
  · exact failMismatch_follows
  · exact failBroken_follows

theorem decides_follows (kind : BranchKind) : Follows lost p k Eq (decides kind) (decides kind) := by
  unfold decides
  split
  · exact .pure rfl
  · refine pop_follows.bind_eq fun condition => ?_
    split
    · exact .pure rfl
    · exact failMismatch_follows

/-- Where a frame goes on, with the markers of its procedure and without. -/
inductive Goes (p : Procedure) : Flow → Flow → Prop
  | next : Goes p .next .next
  | jump (target : Nat) : Goes p (.jump target) (.jump (unmarkedIndex p.code.toList target))
  | leave (v : Value) : Goes p (.leave v) (.leave v)

theorem branch_follows (kind : BranchKind) (offset : Offset) : Follows lost p k (Goes p) (branch kind offset)
    (branch kind (offset.renumber (unmarkedIndex p.code.toList) k)) := by
  refine (decides_follows kind).bind_eq fun taken => ?_
  split
  · refine readFrame_follows.bind fun f f' ⟨bare, procedure, pc⟩ => ?_
    subst procedure pc
    cases lands : landing? f.pc offset f.procedure.code.size with
    | none => exact failBroken_follows
    | some landing =>
      rw [bare.landing? lands, bare.stack]
      cases landing with
      | index target => exact .pure (.jump target)
      | exit => exact .pure (.leave _)
  · exact .pure .next

theorem enterTry_follows (offset : Offset) : Follows lost p k Eq (enterTry offset)
    (enterTry (offset.renumber (unmarkedIndex p.code.toList) k)) := by
  refine readFrame_follows.bind fun f f' ⟨bare, procedure, pc⟩ => ?_
  subst procedure pc
  cases lands : landing? f.pc offset f.procedure.code.size with
  | none => exact failBroken_follows
  | some landing =>
    rw [bare.landing? lands]
    cases landing with
    | exit => exact failBroken_follows
    | index target =>
      refine (modifyFrame_follows fun {g g'} ⟨place, same⟩ procedure => ?_).bind_eq fun _ =>
        modifyControl_follows (fun _ => rfl) fun _ => rfl
      rw [← procedure]
      exact ⟨⟨place, same⟩, rfl, rfl⟩

theorem leaveTry_follows : Follows lost p k Eq leaveTry leaveTry := by
  refine readFrame_follows.bind fun f f' ⟨bare, procedure, pc⟩ => ?_
  subst procedure
  rw [bare.handlers]
  cases regions : f.handlers with
  | nil =>
    dsimp only [Frame.withoutMarkers]
    rw [regions]
    exact failBroken_follows
  | cons h rest =>
    dsimp only [Frame.withoutMarkers]
    rw [regions]
    refine (modifyFrame_follows fun {g g'} ⟨place, same⟩ procedure => ?_).bind_eq fun _ =>
      modifyControl_follows (fun _ => rfl) fun _ => rfl
    rw [← procedure]
    exact ⟨⟨place, same⟩, rfl, rfl⟩

theorem takeMessage_follows (binding : Option String) :
    Follows lost p k Eq (takeMessage binding) (takeMessage binding) := by
  refine pop_follows.bind_eq fun message => ?_
  split
  · exact assign_follows _ _
  · exact .pure rfl

/-- A computation that begins at a place of its own comes to the same without markers, wherever the frames were. -/
def Arrives (p : Procedure) (k : Nat) (P : α → α → Prop) (x y : MachineM α) : Prop :=
  ∀ (lost : Bool) (m m' : Machine), Unmarked lost p k m m' → Accord (Unmarked false p k) P (strict false x m) (y m')

theorem Arrives.bind_eq {β : Type} {Q : β → β → Prop} {x y : MachineM α} {f g : α → MachineM β}
    (first : Arrives p k Eq x y) (rest : ∀ a, Follows false p k Q (f a) (g a)) :
    Arrives p k Q (x >>= f) (y >>= g) := by
  intro lost m m' unmarked
  have here := first lost m m' unmarked
  rw [strict_bind]
  simp only [Bind.bind, EStateM.bind]
  generalize strict false x m = r, y m' = r' at here
  cases here with
  | ok after same => exact same ▸ rest _ _ _ after
  | failed after => exact .failed after
  | exhausted => exact .exhausted
  | exhausted' => exact .exhausted'

theorem moveTo_arrives (place : Position) : Arrives p k Eq (moveTo place) (moveTo place) := by
  rintro lost ⟨f, s⟩ ⟨_, t⟩ ⟨⟨_, _⟩, state, procedure, pc⟩
  exact .ok ⟨⟨place, fun _ => rfl⟩, state, procedure, pc⟩ rfl

section

variable {host : Host} {calls calls' : Calls} (hosted : host.Likens State.Unmarked calls calls')
  (nested : calls.Likens State.Unmarked Frame.Unmarked calls')

include hosted nested

theorem callNamed_arrives (call : CallSite) :
    Arrives p k Eq (callNamed host calls call) (callNamed host calls' call) := by
  refine (moveTo_arrives call.place).bind_eq fun _ => (popArguments_follows call).bind_eq fun args => ?_
  split
  · exact assignArguments_follows args
  · refine refreshCall_follows.bind_eq fun _ => readFrame_follows.bind fun f f' ⟨bare, _⟩ => ?_
    refine (onState_follows ?_).bind_eq push_follows
    exact Name.call_accords State.Unmarked.likeness hosted nested bare.view _ args

theorem sendNamed_arrives (call : CallSite) :
    Arrives p k Eq (sendNamed host calls call) (sendNamed host calls' call) := by
  refine (moveTo_arrives call.place).bind_eq fun _ => (popArguments_follows call).bind_eq fun args => ?_
  refine pop_follows.bind_eq fun receiver => ?_
  split
  · refine (memberName_follows args).bind_eq fun name => (located_follows ?_).bind_eq push_follows
    exact Member.get_accords State.Unmarked.likeness hosted receiver name
  · refine (memberName_follows args).bind_eq fun name => (located_follows ?_).bind_eq fun _ => push_follows _
    exact Member.set_accords State.Unmarked.likeness hosted receiver name _
  · refine refreshCall_follows.bind_eq fun _ => readSite_follows.bind_eq fun site => ?_
    refine (onState_follows ?_).bind_eq push_follows
    exact Invoke.send_accords State.Unmarked.likeness hosted nested site receiver _ args

omit nested in
theorem load_arrives (name : String) (place : Position) :
    Arrives p k (Goes p) (step host calls (.load name place)) (step host calls' (.load name place)) := by
  refine (moveTo_arrives place).bind_eq fun _ => readFrame_follows.bind fun f f' ⟨bare, _⟩ => ?_
  refine (located_follows ?_).bind_eq fun v => (push_follows v).bind_eq fun _ => .pure .next
  exact Name.load_accords State.Unmarked.likeness hosted bare.view name

/-- An instruction that is no marker does the same without markers. If it has a place of its own, the frames are at
it afterwards; otherwise they are where they were, and it should not fail if that is lost. -/
theorem step_unmarked {i : Instruction} (stays : i.isStop = false) {m m' : Machine}
    (unmarked : Unmarked lost p k m m') :
    Accord (Unmarked (!i.hasPlace && lost) p k) (Goes p) (strict (!i.hasPlace && lost) (step host calls i) m)
      (step host calls' (i.renumber (unmarkedIndex p.code.toList) k) m') := by
  cases i with
  | value v => exact (push_follows v).bind_eq (fun _ => .pure .next) m m' unmarked
  | load name place => exact load_arrives hosted name place lost m m' unmarked
  | call site => exact (callNamed_arrives hosted nested site).bind_eq (fun _ => .pure .next) lost m m' unmarked
  | send site => exact (sendNamed_arrives hosted nested site).bind_eq (fun _ => .pure .next) lost m m' unmarked
  | branch kind offset => exact branch_follows kind offset m m' unmarked
  | stop index lines => cases stays
  | discard => exact pop_follows.bind_eq (fun _ => .pure .next) m m' unmarked
  | enterTry offset => exact (enterTry_follows offset).bind_eq (fun _ => .pure .next) m m' unmarked
  | leaveTry => exact leaveTry_follows.bind_eq (fun _ => .pure .next) m m' unmarked
  | caught binding => exact (takeMessage_follows binding).bind_eq (fun _ => .pure .next) m m' unmarked

end

/-- A marker moves the place of a frame and does nothing else. -/
theorem step_stop {index : Nat} {lines : Lines} {m m' : Machine} (unmarked : Unmarked lost p k m m') (host : Host)
    (calls : Calls) :
    ∃ m₁, step host calls (.stop index lines) m = .ok .next m₁ ∧ Unmarked true p k m₁ m' := by
  have nobody : m.state.control.debugger.isSome = false := (Bool.or_eq_false_iff.mp unmarked.state.unobserved).1
  have asks : m.asksAt index = false := by rw [asksAt, nobody, Bool.false_and]
  have passed : passMarker index lines m = .ok () (m.placed (.ofLine lines.first)) := by
    rw [passMarker_eq, unmarked.state.running, asks]
    rfl
  refine ⟨_, bind_ok passed, ?_⟩
  obtain ⟨f, s⟩ := m
  obtain ⟨f', t⟩ := m'
  obtain ⟨⟨place, _⟩, state, procedure, pc⟩ := unmarked
  exact ⟨⟨place, nofun⟩, state, procedure, pc⟩

/-- An error that nobody sees escapes as it is. -/
theorem escape_unobserved {m : Machine} (quiet : m.state.control.isObserved = false) (e : LocatedError) :
    escape e m = .error (.failed (.runtime e)) m := by
  change (if (e.reported || m.state.control.inTry) = true then _ else _ : MachineM Unit) m = _
  split
  · rfl
  · next shown =>
    have watches : m.state.control.watchesErrors = false := (Bool.or_eq_false_iff.mp quiet).2
    have fresh : e.reported = false := by simp at shown; exact shown.1
    have same : m.refreshed = m.state := by
      unfold refreshed
      rw [if_neg (by simp [quiet])]
    rw [bind_ok (refreshCall_eq m)]
    change EStateM.Result.error (Halt.failed (ScriptError.runtime
      { e with reported := (m.refreshed.control.report (.runtime e) m.refreshed.store).1 }))
      (⟨m.frame, m.refreshed.store, (m.refreshed.control.report (.runtime e) m.refreshed.store).2⟩ : Machine) = _
    rw [same, Control.report, if_neg (by simp [watches]), ← fresh]

/-- An error is answered alike: by the handler in whose region it arose, or by leaving the frame. -/
theorem recover_unmarked {m m' : Machine} (unmarked : Unmarked false p k m m') (e : ScriptError) :
    Accord (fun a b => ∃ k, Unmarked false p k a b) Eq (recover e m) (recover e m') := by
  cases e with
  | runtime located =>
    cases regions : m.frame.handlers with
    | nil =>
      have none : m'.frame.handlers = [] := by
        rw [unmarked.frame.handlers, Frame.withoutMarkers, regions]
        rfl
      have quiet : m'.state.control.isObserved = false := by
        rw [unmarked.state.same]
        exact unmarked.state.unobserved
      unfold recover
      dsimp only
      rw [bind_ok (readFrame_eq m id), bind_ok (readFrame_eq m' id)]
      dsimp only [id_eq]
      rw [regions, none]
      dsimp only
      rw [escape_unobserved unmarked.state.unobserved, escape_unobserved quiet]
      exact .failed ⟨k, unmarked⟩
    | cons h outer =>
      obtain ⟨f, s⟩ := m
      obtain ⟨_, _⟩ := m'
      obtain ⟨⟨place, same⟩, ⟨rfl, quiet, runs⟩, rfl, rfl⟩ := unmarked
      let index := unmarkedIndex f.procedure.code.toList
      have moved : f.withoutMarkers.handlers =
          ⟨index h.target, h.depth⟩ :: outer.map fun h => { h with target := index h.target } := by
        rw [Frame.withoutMarkers, regions]
        rfl
      rw [recover_handler _ regions, recover_handler _ moved]
      change Accord _ _ (if (f.stack.truncate h.depth).height ≥ f.maxStack then _ else _)
        (if (f.stack.truncate h.depth).height ≥ f.maxStack then _ else _)
      split
      · obtain rfl := same rfl
        exact .failed ⟨f.pc, ⟨_, fun _ => rfl⟩, ⟨rfl, quiet, runs⟩, rfl, rfl⟩
      · exact .ok ⟨h.target, ⟨place, same⟩, ⟨rfl, quiet, runs⟩, rfl, rfl⟩ rfl
  | _ => exact .failed ⟨k, unmarked⟩

/-- Whether within some steps an instruction without a place of its own fails behind a marker, or one finds an
invariant broken. `behind` tells whether the last place that the frame moved to is that of a marker. -/
def strays (host : Host) (calls : Calls) : (steps : Nat) → (behind : Bool) → Machine → Bool
  | 0, _, _ => false
  | steps + 1, behind, m =>
    match m.frame.procedure.code[m.frame.pc]? with
    | none => false
    | some i =>
      let lost := !i.hasPlace && behind
      astray lost (step host calls i m) ||
        match turn host calls m with
        | .inl m => strays host calls steps (i.isStop || lost) m
        | .inr _ => false

/-- Two machines that have ended, with as many regions open. -/
structure Ended (m m' : Machine) : Prop where
  state : m.state.Unmarked m'.state
  regions : m.frame.handlers.length = m'.frame.handlers.length

namespace Unmarked

variable {m m' : Machine} (unmarked : Unmarked lost p k m m')
include unmarked

theorem ended : Ended m m' := by
  refine ⟨unmarked.state, ?_⟩
  rw [unmarked.frame.handlers, Frame.withoutMarkers, List.length_map]

theorem jumped (target : Nat) :
    Unmarked lost p target (m.jumped target) (m'.jumped (unmarkedIndex p.code.toList target)) := by
  obtain ⟨f, s⟩ := m
  obtain ⟨_, t⟩ := m'
  obtain ⟨⟨place, same⟩, state, rfl, _⟩ := unmarked
  exact ⟨⟨place, same⟩, state, rfl, rfl⟩

theorem index_eq : m'.frame.pc = unmarkedIndex p.code.toList k := by
  obtain ⟨f, s⟩ := m
  obtain ⟨_, t⟩ := m'
  obtain ⟨⟨place, same⟩, state, rfl, rfl⟩ := unmarked
  rfl

/-- Behind an instruction that stays. -/
theorem next {i : Instruction} (found : p.code[k]? = some i) (stays : i.isStop = false) :
    Unmarked lost p (k + 1) (m.jumped (k + 1)) (m'.jumped (m'.frame.pc + 1)) := by
  have index := unmarkedIndex_succ (Array.getElem?_toList ▸ found)
  rw [if_neg (by simp [stays]), ← unmarked.index_eq] at index
  exact index ▸ unmarked.jumped (k + 1)

/-- Behind a marker the machine without it has not moved. -/
theorem pass {i : Instruction} (found : p.code[k]? = some i) (stop : i.isStop = true) :
    Unmarked lost p (k + 1) (m.jumped (k + 1)) m' := by
  have index := unmarkedIndex_succ (Array.getElem?_toList ▸ found)
  rw [if_pos stop, Nat.add_zero, ← unmarked.index_eq] at index
  have moved := unmarked.jumped (k + 1)
  rw [index] at moved
  exact moved

/-- The instruction of the machine without markers. -/
theorem code_eq : m'.frame.procedure.code[m'.frame.pc]? = (unmark p.code.toList)[unmarkedIndex p.code.toList k]? := by
  obtain ⟨f, s⟩ := m
  obtain ⟨_, t⟩ := m'
  obtain ⟨⟨place, same⟩, state, rfl, rfl⟩ := unmarked
  exact List.getElem?_toArray

end Unmarked

section

variable {host : Host} {calls calls' : Calls} (hosted : host.Likens State.Unmarked calls calls')
  (nested : calls.Likens State.Unmarked Frame.Unmarked calls')

include hosted nested

/-- Where an instruction is no marker, both machines take their turn, and what comes of it goes on alike. -/
theorem execute_lockstep {steps steps' : Nat} {m m' : Machine} {i : Instruction} (unmarked : Unmarked lost p k m m')
    (found : p.code[k]? = some i) (stays : i.isStop = false)
    (straight : astray (!i.hasPlace && lost) (step host calls i m) = false)
    (rest : ∀ {k n n'}, turn host calls m = .inl n → Unmarked (!i.hasPlace && lost) p k n n' →
      Accord Ended Eq (execute host calls steps n) (execute host calls' steps' n')) :
    Accord Ended Eq (execute host calls (steps + 1) m) (execute host calls' (steps' + 1) m') := by
  have here := unmarked.code_eq.trans (unmark_getElem? (Array.getElem?_toList.trans found) stays)
  have stepped := step_unmarked hosted nested stays unmarked
  rw [strict_eq straight] at stepped
  rw [← unmarked.procedure, ← unmarked.pc] at found
  rw [execute_succ, execute_succ]
  unfold turn at rest ⊢
  rw [found] at rest
  rw [found, here]
  dsimp only at rest ⊢
  generalize step host calls i m = r, step host calls' _ m' = r' at straight stepped rest
  cases stepped with
  | @ok flow flow' n n' after goes =>
    cases goes with
    | next =>
      have moved := after.next (unmarked.procedure ▸ unmarked.pc ▸ found) stays
      rw [← after.pc] at moved
      exact rest rfl moved
    | jump target => exact rest rfl (after.jumped target)
    | leave v => exact .ok after.ended rfl
  | @failed e n n' after =>
    -- the place at which the error is reported is not lost
    obtain ⟨kept, -⟩ := Bool.or_eq_false_iff.mp straight
    rw [kept] at after rest
    have answered := recover_unmarked after e
    dsimp only at rest ⊢
    generalize recover e n = r, recover e n' = r' at answered rest
    cases answered with
    | ok after same => exact rest rfl after.choose_spec
    | failed after => exact .failed after.choose_spec.ended
    | exhausted => exact .exhausted
    | exhausted' => exact .exhausted'
  | exhausted => exact .exhausted
  | exhausted' => exact .exhausted'

/-- A run that does not go astray comes to the same without markers. A marker is passed while the other machine
stands still, and every other instruction is executed by both. -/
theorem execute_unmarked (steps : Nat) : ∀ {behind : Bool} {k : Nat} {m m' : Machine} (steps' : Nat),
    Unmarked behind p k m m' → strays host calls steps behind m = false →
      Accord Ended Eq (execute host calls steps m) (execute host calls' steps' m') := by
  induction steps with
  | zero => exact fun _ _ _ => .exhausted
  | succ steps ih =>
    intro behind k m m' steps' unmarked straight
    cases steps' with
    | zero => exact .exhausted'
    | succ steps' =>
      unfold strays at straight
      rw [unmarked.procedure, unmarked.pc] at straight
      cases found : p.code[k]? with
      | none =>
        have behind := unmarked.code_eq.trans (unmark_getElem?_none (Array.getElem?_toList.trans found))
        rw [← unmarked.procedure, ← unmarked.pc] at found
        rw [execute, execute, found, behind]
        exact .ok unmarked.ended rfl
      | some i =>
        rw [found] at straight
        obtain ⟨fine, later⟩ := Bool.or_eq_false_iff.mp straight
        cases stop : i.isStop with
        | true =>
          cases i with
          | stop index lines =>
            obtain ⟨m₁, ran, after⟩ := step_stop unmarked host calls
            have turned : turn host calls m = .inl (m₁.jumped (k + 1)) := by
              rw [← unmarked.procedure, ← unmarked.pc] at found
              unfold turn
              rw [found]
              dsimp only
              rw [ran, ← after.pc]
              rfl
            rw [turned] at later
            rw [execute_succ, turned]
            exact ih (steps' + 1) (after.pass found stop) later
          | _ => cases stop
        | false =>
          rw [stop, Bool.false_or] at later
          refine execute_lockstep hosted nested unmarked found stop fine fun {k n n'} turned after => ?_
          rw [turned] at later
          exact ih steps' after later

end

end Machine

/-- Whether the run of a frame goes astray. -/
def Frame.strays (host : Host) (calls : Calls) (steps : Nat) (f : Frame) (s : State) : Bool :=
  match s.control.openCall f.record with
  | .ok control => Machine.strays host calls steps false ⟨f, { s with control }⟩
  | .error _ => false

/-- The nested runs of an engine that all end as if a bound were used up if they go astray. -/
def Calls.nestedStraight (host : Host) (steps : Nat) : (depth : Nat) → Calls
  | 0 => .nested host steps 0
  | depth + 1 =>
    let below := nestedStraight host steps depth
    { run := fun f s => if f.strays host below steps s then .error .exhausted s else f.run host below steps s
      invoke := fun callee args => Invoke.value host below .host callee none args
      native := fun f args => Invoke.native host below f args }

/-- A host whose functions come to the same without markers if the runs that they start do. -/
def Host.IsIndifferent (host : Host) : Prop :=
  ∀ calls calls', calls.Likens State.Unmarked Frame.Unmarked calls' → host.Likens State.Unmarked calls calls'

variable {host : Host} {calls calls' : Calls}

/-- The run of a frame comes to the same without markers if it does not go astray. -/
theorem Frame.run_unmarked (hosted : host.Likens State.Unmarked calls calls')
    (nested : calls.Likens State.Unmarked Frame.Unmarked calls') (steps : Nat) (f : Frame) {s t : State}
    (unmarked : s.Unmarked t) (straight : f.strays host calls steps s = false) :
    Accord State.Unmarked Eq (f.run host calls steps s) (f.withoutMarkers.run host calls' steps t) := by
  obtain ⟨rfl, quiet, runs⟩ := unmarked
  have opens : s.withoutMarkers.control.openCall f.withoutMarkers.record = s.control.openCall f.record := rfl
  rw [Frame.run_eq, Frame.run_eq, opens]
  unfold Frame.strays at straight
  cases opened : s.control.openCall f.record with
  | error e => exact .failed ⟨rfl, quiet, runs⟩
  | ok c =>
    rw [opened] at straight
    obtain ⟨-, rfl⟩ := Control.openCall_eq_ok_iff.mp opened
    have entered : Machine.Unmarked false f.procedure f.pc
        ⟨f, { s with control := { s.control with callStack := s.control.callStack.push f.record } }⟩
        ⟨f.withoutMarkers, s.store.withoutMarkers,
          { s.control with callStack := s.control.callStack.push f.record }⟩ :=
      ⟨⟨f.place, fun _ => rfl⟩, ⟨rfl, quiet, runs⟩, rfl, rfl⟩
    have here := Machine.execute_unmarked hosted nested steps steps entered straight
    have left {m m' : Machine} (ended : m.Ended m') :
        (Frame.run.leave m.frame m.state).Unmarked (Frame.run.leave m'.frame m'.state) := by
      obtain ⟨⟨same, quiet, runs⟩, regions⟩ := ended
      refine ⟨?_, quiet, runs⟩
      rw [same, Frame.run.leave, ← regions]
      rfl
    dsimp only [State.withoutMarkers] at here ⊢
    generalize Machine.execute host calls steps _ = r, Machine.execute host calls' steps _ = r' at here
    cases here with
    | ok after same => exact .ok (left after) same
    | failed after => exact .failed (left after)
    | exhausted => exact .exhausted
    | exhausted' => exact .exhausted'

/-- Runs that do not go astray come to the same without markers. -/
theorem Calls.nestedStraight_likens (indifferent : host.IsIndifferent) (steps depth : Nat) :
    (nestedStraight host steps depth).Likens State.Unmarked Frame.Unmarked (nested host steps depth) := by
  induction depth with
  | zero => exact ⟨fun _ _ _ => .exhausted, fun _ _ => .exhausted, fun _ _ => .exhausted⟩
  | succ depth ih =>
    have hosted := indifferent _ _ ih
    refine ⟨?_, fun callee args => Invoke.value_accords State.Unmarked.likeness hosted ih _ _ _ _,
      fun r args => Invoke.native_accords State.Unmarked.likeness hosted ih _ _⟩
    rintro f _ rfl s t unmarked
    change Accord _ _ (if f.strays host _ steps s then _ else _) _
    split
    · exact .exhausted
    · next straight => exact Frame.run_unmarked hosted ih steps f unmarked (by simpa using straight)

namespace Engine

variable (e : Engine) (id : ProgramId)

/-- During operations no run goes astray: all comes to the same with runs that end as if a bound were used up there. -/
def StaysStraight : List Operation → State → Prop
  | [], _ => True
  | op :: ops, s =>
    op.perform (.nestedStraight e.host e.steps e.depth) id s = op.perform e.calls id s ∧
      StaysStraight ops (finalState (op.perform e.calls id s))

variable {e id}

/-- Operations come to the same without markers, as long as no bound is used up. -/
theorem converse_unmarked (indifferent : e.host.IsIndifferent) {ops : List Operation} {s t : State}
    (unmarked : s.Unmarked t) (straight : e.StaysStraight id ops s)
    (ends : Except.error .exhausted ∉ (e.converse id ops s).1)
    (ends' : Except.error .exhausted ∉ (e.converse id ops t).1) :
    (e.converse id ops s).1 = (e.converse id ops t).1 ∧ (e.converse id ops s).2.Unmarked (e.converse id ops t).2 := by
  induction ops generalizing s t with
  | nil => exact ⟨rfl, unmarked⟩
  | cons op ops ih =>
    obtain ⟨demands, straight⟩ := straight
    have nested := Calls.nestedStraight_likens indifferent e.steps e.depth
    have here := Operation.perform_accords State.Unmarked.likeness nested op id s t unmarked
    rw [demands] at here
    change Accord _ _ _ (op.perform e.calls id t) at here
    unfold converse at ends ends' ⊢
    generalize op.perform e.calls id s = r, op.perform e.calls id t = r' at *
    cases here with
    | ok after same =>
      obtain ⟨replies, states⟩ := ih after straight (fun here => ends (.tail _ here)) fun here => ends' (.tail _ here)
      exact ⟨List.cons_eq_cons.mpr ⟨congrArg Except.ok same, replies⟩, states⟩
    | failed after =>
      obtain ⟨replies, states⟩ := ih after straight (fun here => ends (.tail _ here)) fun here => ends' (.tail _ here)
      exact ⟨List.cons_eq_cons.mpr ⟨rfl, replies⟩, states⟩
    | exhausted => exact absurd List.mem_cons_self ends
    | exhausted' => exact absurd List.mem_cons_self ends'

/-- A source text that is loaded with markers and without. -/
theorem load_unmarked (source file : String) :
    Accords State.Unmarked Eq (load source file true : Exec ScriptError ProgramId) (load source file false) := by
  have loaded (breakpoints : Bool) (s : State) : (load source file breakpoints : Exec ScriptError ProgramId) s =
      .ok s.store.programs.size
        ⟨(s.store.addProgram (.ofSource source file ⟨s.store.programs.size, breakpoints⟩)).2, s.control⟩ := rfl
  rintro s _ ⟨rfl, quiet, runs⟩
  have ids : s.withoutMarkers.store.programs.size = s.store.programs.size := Array.size_map
  have programs : s.withoutMarkers.store.programs.push (.ofSource source file ⟨s.store.programs.size, false⟩) =
      (s.store.programs.push (.ofSource source file ⟨s.store.programs.size, true⟩)).map Program.withoutMarkers := by
    rw [Array.map_push, Program.withoutMarkers_ofSource]
    rfl
  rw [loaded, loaded, ids]
  exact .ok ⟨congrArg (fun programs => State.mk { s.store with programs } s.control) programs, quiet, runs⟩ rfl

/-- Compiling with markers makes no difference to what a program does. Let a source text be loaded with markers and
without, in states that differ at most in markers, in which nobody looks on and the run is not ended. Then starting
the program and calling what it defined get the same replies, with the same locations of errors, and leave one output
and the same members of programs: the states differ at most in markers again. This is so as long as no bound is used
up, unless an instruction without a place of its own fails behind a marker or one finds an invariant broken. -/
theorem markers_indifferent (indifferent : e.host.IsIndifferent) (source file : String) {ops : List Operation}
    {s t marked plain : State} (unmarked : s.Unmarked t)
    (withMarkers : (load source file true : Exec ScriptError ProgramId) s = .ok id marked)
    (without : (load source file false : Exec ScriptError ProgramId) t = .ok id plain)
    (straight : e.StaysStraight id ops marked) (ends : Except.error .exhausted ∉ (e.converse id ops marked).1)
    (ends' : Except.error .exhausted ∉ (e.converse id ops plain).1) :
    (e.converse id ops marked).1 = (e.converse id ops plain).1 ∧
      (e.converse id ops plain).2 = (e.converse id ops marked).2.withoutMarkers := by
  have loaded := load_unmarked source file s t unmarked
  rw [withMarkers, without] at loaded
  cases loaded with
  | ok after _ =>
    obtain ⟨replies, states⟩ := converse_unmarked indifferent after straight ends ends'
    exact ⟨replies, states.same⟩

end Engine

/-- A host without objects or functions is indifferent to markers. -/
theorem Host.none_isIndifferent : Host.none.IsIndifferent := fun _ _ _ =>
  ⟨fun _ _ _ => .fail, fun _ _ _ _ => .fail, fun _ _ _ _ => .fail, fun _ _ _ => .fail, fun _ _ _ => .fail⟩

/-- A state with a program that branches on what an instruction pushes, perhaps behind a marker. -/
def branchesOn (i : Instruction) (marked : Bool) : State :=
  let branch : Instruction := .branch .ifFalse (.relative 1)
  let parts : ProgramParts :=
    { procedures := #[⟨"<module>", [], if marked then #[.stop 0 ⟨3, 3⟩, i, branch] else #[i, branch], 1, none⟩]
      classes := #[]
      members := Table.ofList [("x", .null)]
      topLevel := some ⟨0, 0⟩
      classSetups := []
      markers := if marked then #[.ofLines ⟨3, 3⟩] else #[] }
  ⟨(Store.empty.addProgram (.ofParts "demo" .zero parts)).2, .start⟩

theorem branchesOn_load_unmarked :
    (branchesOn (.load "x" ⟨3, 5⟩) true).Unmarked (branchesOn (.load "x" ⟨3, 5⟩) false) := by
  refine ⟨?_, rfl, rfl⟩
  simp [branchesOn, State.withoutMarkers, Store.withoutMarkers, Store.addProgram, Store.empty, Program.ofParts,
    Program.withoutMarkers, ProgramParts.withoutMarkers, Procedure.withoutMarkers]
  rfl

/-- A branch that fails does so at the place of the load before it, with a marker and without. -/
example : (Engine.converse ⟨.none, 3, 9⟩ 0 [.start] (branchesOn (.load "x" ⟨3, 5⟩) true)).1 =
    (Engine.converse ⟨.none, 3, 9⟩ 0 [.start] (branchesOn (.load "x" ⟨3, 5⟩) false)).1 :=
  have straight : Engine.StaysStraight ⟨.none, 3, 9⟩ 0 [.start] (branchesOn (.load "x" ⟨3, 5⟩) true) := ⟨rfl, trivial⟩
  (Engine.converse_unmarked Host.none_isIndifferent branchesOn_load_unmarked straight (by change _ ∉ [_]; nofun)
    (by change _ ∉ [_]; nofun)).1

/-- The place of an error. -/
def errorPlace? : Except (Halt ScriptError) Value → Option Position
  | .error (.failed (.runtime e)) => some e.place
  | _ => none

/-- Without a load the place is that of the marker, and without the marker that at which the frame began. -/
example : (Engine.converse ⟨.none, 3, 9⟩ 0 [.start] (branchesOn (.value .null) true)).1.map errorPlace? =
      [some ⟨3, 1⟩] ∧
    (Engine.converse ⟨.none, 3, 9⟩ 0 [.start] (branchesOn (.value .null) false)).1.map errorPlace? =
      [some ⟨1, 1⟩] :=
  ⟨rfl, rfl⟩

end ScriptEngine
