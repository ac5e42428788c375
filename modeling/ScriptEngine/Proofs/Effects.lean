import ScriptEngine.Proofs.Turns
import ScriptEngine.Verification.Depth

/-! # What an instruction does to its frame

Whatever a frame loads, calls or sends, an instruction takes a known number of values from the stack, puts a
known number on it, and opens or closes at most one guarded region. `Effect` says so of an instruction that
does not fail; `Breaks` lists the reasons for which one can break an invariant of the engine.
-/

namespace ScriptEngine

/-- Frames of one call at one instruction. -/
structure SameCall (f f' : Frame) : Prop where
  procedure : f'.procedure = f.procedure
  owner : f'.owner = f.owner
  program : f'.program = f.program
  file : f'.file = f.file
  pc : f'.pc = f.pc
  maxStack : f'.maxStack = f.maxStack

theorem SameCall.refl (f : Frame) : SameCall f f := ⟨rfl, rfl, rfl, rfl, rfl, rfl⟩

theorem SameCall.trans {f g h : Frame} (first : SameCall f g) (second : SameCall g h) :
    SameCall f h :=
  ⟨second.procedure.trans first.procedure, second.owner.trans first.owner,
    second.program.trans first.program, second.file.trans first.file, second.pc.trans first.pc,
    second.maxStack.trans first.maxStack⟩

/-- Assigning changes at most the variables of a frame. -/
theorem Frame.assign_eq (f : Frame) (s : Store) (name : String) (v : Value) :
    ∃ locals, (f.assign s name v).1 = { f with locals } := by
  unfold Frame.assign
  split
  · split
    · exact ⟨_, rfl⟩
    · split
      · exact ⟨f.locals, rfl⟩
      · exact ⟨f.locals, rfl⟩
  · split
    · exact ⟨_, rfl⟩
    · split
      · exact ⟨f.locals, rfl⟩
      · split
        · exact ⟨f.locals, rfl⟩
        · exact ⟨_, rfl⟩

/-- Nothing is left of a stack above its bottom. -/
theorem Stack.items_truncate_zero {α : Type} (s : Stack α) : (s.truncate 0).items = [] := by
  change s.items.drop (s.height - 0) = []
  rw [Nat.sub_zero, s.height_eq, List.drop_length]

theorem Stack.height_pos {α : Type} {s : Stack α} {a : α} (top : s.top? = some a) : 1 ≤ s.height := by
  obtain ⟨items, height, same⟩ := s
  cases items with
  | nil => cases top
  | cons b rest => simp [same]

/-- The stack after an instruction: so many values less, and then so many more. -/
def Stacked (i : Instruction) (f f' : Frame) : Prop :=
  ∃ out : List Value, out.length = i.pushes ∧ f'.stack.items = out ++ f.stack.items.drop i.pops ∧
    ∀ v, i = .value v → out = [v]

theorem Stacked.height_eq {i : Instruction} {f f' : Frame} (h : Stacked i f f') :
    f'.stack.height = f.stack.height - i.pops + i.pushes := by
  obtain ⟨out, count, items, _⟩ := h
  rw [f'.stack.height_eq, f.stack.height_eq, items, List.length_append, List.length_drop, count,
    Nat.add_comm]

/-- The open regions after an instruction. -/
def Guarded (i : Instruction) (f f' : Frame) : Prop :=
  match i with
  | .enterTry offset => ∃ target, landing? f.pc offset f.procedure.code.size = some (.index target) ∧
      f'.handlers = ⟨target, f.stack.height⟩ :: f.handlers
  | .leaveTry => ∃ h, f.handlers = h :: f'.handlers
  | _ => f'.handlers = f.handlers

/-- What an instruction does to its frame when it does not fail, by how it goes on. -/
inductive Effect (i : Instruction) (f f' : Frame) : Flow → Prop
  | next (onward : ∀ offset, i ≠ .branch .always offset) (same : SameCall f f')
    (enough : i.pops ≤ f.stack.height) (stack : Stacked i f f') (regions : Guarded i f f') :
    Effect i f f' .next
  | jump {kind : BranchKind} {offset : Offset} {target : Nat} (branch : i = .branch kind offset)
    (lands : landing? f.pc offset f.procedure.code.size = some (.index target))
    (same : SameCall f f') (enough : i.pops ≤ f.stack.height) (stack : Stacked i f f')
    (regions : f'.handlers = f.handlers) : Effect i f f' (.jump target)
  | leave {kind : BranchKind} (v : Value) (branch : i = .branch kind .exit) (same : SameCall f f')
    (regions : f'.handlers = f.handlers) : Effect i f f' (.leave v)

/-- The place of a frame while it executes an instruction: that of the instruction if it has one. -/
def Instruction.placeFrom (before : Position) : Instruction → Position
  | .load _ place => place
  | .call site => site.place
  | .send site => site.place
  | .stop _ lines => .ofLine lines.first
  | _ => before

namespace Machine

variable {host : Host} {calls : Calls} {m m' : Machine} {i : Instruction}

/-- A value in place of what an instruction takes. -/
theorem stacked_of_push {f f' : Frame} {v : Value} (rest : Stack Value) (one : i.pushes = 1)
    (drop : rest.items = f.stack.items.drop i.pops) (pushed : f'.stack = rest.push v)
    (constant : ∀ w, i = .value w → v = w) : Stacked i f f' := by
  refine ⟨[v], by simp [one], ?_, ?_⟩
  · rw [pushed, ← drop]
    rfl
  · intro w same
    rw [constant w same]

theorem push_ok {v : Value} {u : Unit} (run : push v m = .ok u m') : m' = m.pushed v := by
  rw [push_eq] at run
  split at run
  · cases run
  · cases run
    rfl

theorem push_error {v : Value} {halt : Halt ScriptError} (run : push v m = .error halt m') :
    m' = m ∧ halt = .failed (m.frame.locate (.stackOverflow m.frame.maxStack)) := by
  rw [push_eq] at run
  split at run
  · cases run
    exact ⟨rfl, rfl⟩
  · cases run

theorem onState_ok {α : Type} {x : Exec ScriptError α} {a : α} (run : onState x m = .ok a m') :
    m'.frame = m.frame := by
  obtain ⟨state, _, rfl⟩ := onState_eq_ok_iff.mp run
  rfl

theorem onState_error {α : Type} {x : Exec ScriptError α} {halt : Halt ScriptError}
    (run : onState x m = .error halt m') : m'.frame = m.frame := by
  obtain ⟨state, _, rfl⟩ := onState_eq_error_iff.mp run
  rfl

theorem memberName_ok {args : Arguments} {name : String} (run : memberName args m = .ok name m') :
    m' = m := by
  rw [memberName_eq] at run
  split at run <;> cases run
  rfl

theorem sendTo_ok {receiver v : Value} {name : String} {args : Arguments}
    (run : sendTo host calls receiver name args m = .ok v m') : m'.frame = m.frame := by
  unfold sendTo at run
  split at run
  · obtain ⟨name, m₁, named, got⟩ := bind_eq_ok_iff.mp run
    rw [← memberName_ok named]
    exact onState_ok got
  · obtain ⟨name, m₁, named, rest⟩ := bind_eq_ok_iff.mp run
    obtain ⟨_, m₂, set, last⟩ := bind_eq_ok_iff.mp rest
    cases last
    rw [← memberName_ok named]
    exact onState_ok set
  · rw [bind_ok (refreshCall_eq m)] at run
    obtain ⟨site, m₁, read, rest⟩ := bind_eq_ok_iff.mp run
    cases read
    have same := onState_ok rest
    exact same

theorem callNamed_effect {site : CallSite} {u : Unit} (run : callNamed host calls site m = .ok u m') :
    Effect (.call site) m.frame m'.frame .next := by
  rw [callNamed_eq] at run
  split at run
  · cases run
  next enough =>
  have enough : (Instruction.call site).pops ≤ m.frame.stack.height := Nat.not_lt.mp enough
  split at run
  · next named =>
    rcases assignArguments_cases ((m.placed site.place).dropped site.argc) (m.operands site) with
      ⟨_, name, _, v, _, _, assigned⟩ | ⟨_, failed, _⟩
    · rw [assigned, assign_eq] at run
      cases run
      obtain ⟨locals, same⟩ := Frame.assign_eq ((m.placed site.place).dropped site.argc).frame
        m.state.store name v
      change Effect _ _ (Frame.assign _ m.state.store name v).1 _
      rw [same]
      refine .next (by simp) ⟨rfl, rfl, rfl, rfl, rfl, rfl⟩ enough ⟨[], ?_, rfl, by simp⟩ rfl
      simp [Instruction.pushes, named]
    · rw [failed] at run
      cases run
  · next named =>
    obtain ⟨v, m₁, called, run⟩ := bind_eq_ok_iff.mp run
    have same := onState_ok called
    obtain rfl := push_ok run
    have here : SameCall m.frame m₁.frame := by
      rw [same]
      exact ⟨rfl, rfl, rfl, rfl, rfl, rfl⟩
    refine .next (by simp) (here.trans ⟨rfl, rfl, rfl, rfl, rfl, rfl⟩) enough
      (stacked_of_push m₁.frame.stack ?_ ?_ rfl (by simp)) ?_
    · simp [Instruction.pushes, named]
    · rw [same]
      rfl
    · change m₁.frame.handlers = _
      rw [same]
      rfl

theorem sendNamed_effect {site : CallSite} {u : Unit} (run : sendNamed host calls site m = .ok u m') :
    Effect (.send site) m.frame m'.frame .next := by
  rcases sendNamed_cases m host calls site with ⟨receiver, found, sent⟩ | ⟨_, _, failed⟩
  · rw [sent] at run
    obtain ⟨v, m₁, got, rest⟩ := bind_eq_ok_iff.mp run
    have same := sendTo_ok got
    obtain rfl := push_ok rest
    have enough : site.argc + 1 ≤ m.frame.stack.height := by
      rw [m.frame.stack.height_eq]
      exact (List.getElem?_eq_some_iff.mp found).1
    have here : SameCall m.frame m₁.frame := by
      rw [same]
      exact ⟨rfl, rfl, rfl, rfl, rfl, rfl⟩
    refine .next (by simp) (here.trans ⟨rfl, rfl, rfl, rfl, rfl, rfl⟩) enough
      (stacked_of_push m₁.frame.stack rfl ?_ rfl (by simp)) ?_
    · rw [same]
      change (m.frame.stack.items.drop site.argc).drop 1 = m.frame.stack.items.drop (site.argc + 1)
      rw [List.drop_drop]
    · change m₁.frame.handlers = _
      rw [same]
      rfl
  · rw [failed] at run
    cases run

theorem land_effect {kind : BranchKind} {offset : Offset} {flow : Flow} {f : Frame}
    (run : m.land offset = .ok flow m') (same : SameCall f m.frame)
    (regions : m.frame.handlers = f.handlers)
    (taken : ∀ n, offset = .relative n → (Instruction.branch kind offset).pops ≤ f.stack.height ∧
      m.frame.stack.items = f.stack.items.drop (Instruction.branch kind offset).pops) :
    Effect (.branch kind offset) f m'.frame flow := by
  unfold land at run
  split at run
  · next target lands =>
    cases run
    rw [same.pc, same.procedure] at lands
    cases offset with
    | exit => cases lands
    | relative n =>
      obtain ⟨enough, stack⟩ := taken n rfl
      exact .jump rfl lands same enough ⟨[], rfl, stack, by simp⟩ regions
  · next lands =>
    cases run
    cases offset with
    | exit => exact .leave _ rfl same regions
    | relative n =>
      unfold landing? at lands
      dsimp only at lands
      split at lands <;> cases lands
  · cases run

theorem branch_effect {kind : BranchKind} {offset : Offset} {flow : Flow}
    (run : branch kind offset m = .ok flow m') :
    Effect (.branch kind offset) m.frame m'.frame flow := by
  rw [branch_eq] at run
  by_cases always : kind = .always
  · subst always
    rw [decides_always] at run
    refine land_effect run (.refl _) rfl ?_
    rintro n rfl
    exact ⟨Nat.zero_le _, rfl⟩
  · have pops : (Instruction.branch kind offset).pops = 1 := Instruction.pops_test always
    rcases decides_cases m always with ⟨b, top, decided⟩ | ⟨_, _, _, _, _, failed⟩ | ⟨_, failed⟩
    · have enough := Stack.height_pos top
      rw [decided] at run
      cases taken : b == (kind == .ifTrue) with
      | true =>
        rw [taken] at run
        refine land_effect run ⟨rfl, rfl, rfl, rfl, rfl, rfl⟩ rfl fun _ _ => ?_
        rw [pops]
        exact ⟨enough, rfl⟩
      | false =>
        rw [taken] at run
        cases run
        refine .next (by simp [always]) ⟨rfl, rfl, rfl, rfl, rfl, rfl⟩ (pops ▸ enough)
          ⟨[], rfl, ?_, by simp⟩ rfl
        rw [pops]
        rfl
    · rw [failed] at run
      cases run
    · rw [failed] at run
      cases run

/-- What an instruction does to its frame when it does not fail. -/
theorem step_effect {flow : Flow} (run : step host calls i m = .ok flow m') :
    Effect i m.frame m'.frame flow := by
  cases i with
  | value v =>
    obtain ⟨u, m₁, done, last⟩ := bind_eq_ok_iff.mp run
    cases last
    obtain rfl := push_ok done
    exact .next (by simp) ⟨rfl, rfl, rfl, rfl, rfl, rfl⟩ (Nat.zero_le _)
      (stacked_of_push _ rfl rfl rfl (by simp)) rfl
  | load name place =>
    rw [step_load_eq] at run
    obtain ⟨v, m₃, loaded, rest⟩ := bind_eq_ok_iff.mp run
    obtain ⟨u, m₄, done, last⟩ := bind_eq_ok_iff.mp rest
    cases last
    have same := onState_ok loaded
    obtain rfl := push_ok done
    have here : SameCall m.frame m₃.frame := by
      rw [same]
      exact ⟨rfl, rfl, rfl, rfl, rfl, rfl⟩
    refine .next (by simp) (here.trans ⟨rfl, rfl, rfl, rfl, rfl, rfl⟩) (Nat.zero_le _)
      (stacked_of_push m₃.frame.stack rfl ?_ rfl (by simp)) ?_
    · rw [same]
      rfl
    · change m₃.frame.handlers = _
      rw [same]
      rfl
  | call site =>
    obtain ⟨u, m₁, done, last⟩ := bind_eq_ok_iff.mp run
    cases last
    exact callNamed_effect done
  | send site =>
    obtain ⟨u, m₁, done, last⟩ := bind_eq_ok_iff.mp run
    cases last
    exact sendNamed_effect done
  | branch kind offset => exact branch_effect run
  | stop index lines =>
    obtain ⟨u, m₁, done, last⟩ := bind_eq_ok_iff.mp run
    cases last
    obtain ⟨place, state, _, passed | failed⟩ := m.passMarker_cases index lines
    · rw [passed] at done
      cases done
      exact .next (by simp) ⟨rfl, rfl, rfl, rfl, rfl, rfl⟩ (Nat.zero_le _) ⟨[], rfl, rfl, by simp⟩ rfl
    · rw [failed] at done
      cases done
  | discard =>
    obtain ⟨u, m₁, done, last⟩ := bind_eq_ok_iff.mp run
    cases last
    rcases m.pop_cases with ⟨v, top, took⟩ | ⟨_, failed⟩
    · rw [took] at done
      cases done
      exact .next (by simp) ⟨rfl, rfl, rfl, rfl, rfl, rfl⟩ (Stack.height_pos top)
        ⟨[], rfl, rfl, by simp⟩ rfl
    · rw [failed] at done
      cases done
  | enterTry offset =>
    obtain ⟨u, m₁, done, last⟩ := bind_eq_ok_iff.mp run
    cases last
    rcases m.enterTry_cases offset with ⟨target, lands, opened⟩ | ⟨_, failed⟩
    · rw [opened] at done
      cases done
      exact .next (by simp) ⟨rfl, rfl, rfl, rfl, rfl, rfl⟩ (Nat.zero_le _) ⟨[], rfl, rfl, by simp⟩
        ⟨target, lands, rfl⟩
    · rw [failed] at done
      cases done
  | leaveTry =>
    obtain ⟨u, m₁, done, last⟩ := bind_eq_ok_iff.mp run
    cases last
    rw [leaveTry_eq] at done
    split at done
    · cases done
    · next h rest handlers =>
      cases done
      exact .next (by simp) ⟨rfl, rfl, rfl, rfl, rfl, rfl⟩ (Nat.zero_le _) ⟨[], rfl, rfl, by simp⟩
        ⟨h, handlers⟩
  | caught binding =>
    obtain ⟨u, m₁, done, last⟩ := bind_eq_ok_iff.mp run
    cases last
    rcases m.takeMessage_cases binding with ⟨message, top, took⟩ | ⟨_, failed⟩
    · rw [took] at done
      cases binding with
      | none =>
        cases done
        exact .next (by simp) ⟨rfl, rfl, rfl, rfl, rfl, rfl⟩ (Stack.height_pos top)
          ⟨[], rfl, rfl, by simp⟩ rfl
      | some name =>
        cases done
        obtain ⟨locals, same⟩ := Frame.assign_eq (m.dropped 1).frame m.state.store name message
        change Effect _ _ (Frame.assign _ m.state.store name message).1 _
        rw [same]
        exact .next (by simp) ⟨rfl, rfl, rfl, rfl, rfl, rfl⟩ (Stack.height_pos top)
          ⟨[], rfl, rfl, by simp⟩ rfl
    · rw [failed] at done
      cases done

/-- The reasons for which an instruction can end a run with a broken invariant. The last two are not of this
frame: it passes on what a call or a send ended with. -/
inductive Breaks (host : Host) (calls : Calls) (i : Instruction) (m : Machine) (what : String) : Prop
  | underflow (short : m.frame.stack.height < i.pops)
  | noRegion (closes : i = .leaveTry) (none : m.frame.handlers = [])
  | noName {site : CallSite} {target : Value} (call : i = .call site) (named : site.name = "set")
    (first : (m.operands site).value? 0 = some target) (other : ∀ name, target ≠ .string name)
  | fewOperands {site : CallSite} (call : i = .call site) (named : site.name = "set")
    (few : site.argc < 2)
  | noMember {site : CallSite} (send : i = .send site)
    (named : site.name = "getMember" ∨ site.name = "setMember") (none : site.argc = 0)
  | noTarget {kind : BranchKind} {offset : Offset} (branch : i = .branch kind offset)
    (none : landing? m.frame.pc offset m.frame.procedure.code.size = none)
  | noHandler {offset : Offset} (opens : i = .enterTry offset)
    (none : ∀ target, landing? m.frame.pc offset m.frame.procedure.code.size ≠ some (.index target))
  | calling {site : CallSite} {m' : Machine} (call : i = .call site) (named : site.name ≠ "set")
    (nested : onState (Name.call host calls ((m.placed site.place).dropped site.argc).frame site.name
      (m.operands site)) ((m.placed site.place).dropped site.argc).current =
        .error (.failed (.internal what)) m')
  | sending {site : CallSite} {receiver : Value} {m' : Machine} (send : i = .send site)
    (found : m.frame.stack.items[site.argc]? = some receiver)
    (nested : onState (Invoke.send host calls (m.opened site).frame.site receiver site.name
      (m.operands site)) (m.opened site).current = .error (.failed (.internal what)) m')

/-- What is left of a frame whose instruction failed. -/
structure Failed (host : Host) (calls : Calls) (i : Instruction) (m : Machine)
    (halt : Halt ScriptError) (f : Frame) : Prop where
  same : SameCall m.frame f
  regions : f.handlers = m.frame.handlers
  locals : f.locals = m.frame.locals
  broken : ∀ what, halt = .failed (.internal what) → Breaks host calls i m what
  place : ∀ e, halt = .failed (.runtime e) → f.place = i.placeFrom m.frame.place

theorem onState_internal {α : Type} {x : Exec ScriptError α} {what : String}
    (run : onState x m = .error (.failed (.internal what)) m') :
    ∃ s s', x s = .error (.failed (.internal what)) s' := by
  obtain ⟨state, held, _⟩ := onState_eq_error_iff.mp run
  obtain ⟨s', inner, _⟩ := holding_eq_error_iff.mp held
  exact ⟨_, s', inner⟩

/-- Run-time errors break no invariant. -/
theorem located_not_internal {α : Type} {x : Exec RuntimeError α} {site : Site} {what : String} :
    onState (x.mapError site.locate) m ≠ .error (.failed (.internal what)) m' := by
  intro run
  obtain ⟨s, s', inner⟩ := onState_internal run
  obtain ⟨halt, _, same⟩ := mapError_eq_error_iff.mp inner
  cases halt <;> cases same

theorem push_failed {v : Value} {halt : Halt ScriptError} {m₁ : Machine}
    (run : push v m₁ = .error halt m') (here : SameCall m.frame m₁.frame)
    (regions : m₁.frame.handlers = m.frame.handlers) (locals : m₁.frame.locals = m.frame.locals)
    (place : m₁.frame.place = i.placeFrom m.frame.place) : Failed host calls i m halt m'.frame := by
  obtain ⟨rfl, rfl⟩ := push_error run
  exact ⟨here, regions, locals, by rintro what ⟨⟩, fun _ _ => place⟩

/-- A call takes as many arguments as it says, if there are so many. -/
theorem operands_length {site : CallSite} (enough : site.argc ≤ m.frame.stack.height) :
    (m.operands site).length = site.argc := by
  rw [m.frame.stack.height_eq] at enough
  simp only [operands, Stack.latest, List.length_zipWith, List.length_reverse, List.length_take]
  change min site.argc (min site.argc m.frame.stack.items.length) = site.argc
  omega

theorem callNamed_failed {site : CallSite} {halt : Halt ScriptError}
    (run : callNamed host calls site m = .error halt m') :
    Failed host calls (.call site) m halt m'.frame := by
  rw [callNamed_eq] at run
  split at run
  · next short =>
    cases run
    exact ⟨⟨rfl, rfl, rfl, rfl, rfl, rfl⟩, rfl, rfl, fun _ _ => .underflow short, fun _ _ => rfl⟩
  next enough =>
  split at run
  · next named =>
    rcases assignArguments_cases ((m.placed site.place).dropped site.argc) (m.operands site) with
      ⟨_, name, _, v, _, _, assigned⟩ | ⟨what, failed, reason⟩
    · rw [assigned, assign_eq] at run
      cases run
    · rw [failed] at run
      cases run
      refine ⟨⟨rfl, rfl, rfl, rfl, rfl, rfl⟩, rfl, rfl, fun _ _ => ?_, fun _ _ => rfl⟩
      rcases reason with ⟨target, first, other⟩ | few
      · exact .noName rfl named first other
      · rw [operands_length (Nat.not_lt.mp enough)] at few
        exact .fewOperands rfl named few
  · next named =>
    rcases bind_eq_error_iff.mp run with called | ⟨v, m₁, called, last⟩
    · have same := onState_error called
      rw [same]
      refine ⟨⟨rfl, rfl, rfl, rfl, rfl, rfl⟩, rfl, rfl, ?_, fun _ _ => rfl⟩
      rintro what rfl
      exact .calling rfl named called
    · have same := onState_ok called
      refine push_failed last ?_ ?_ ?_ ?_
      · rw [same]
        exact ⟨rfl, rfl, rfl, rfl, rfl, rfl⟩
      · rw [same]
        rfl
      · rw [same]
        rfl
      · rw [same]
        rfl

/-- A member access fails without running anything if it has no name, or one that is no string. -/
theorem memberName_error {args : Arguments} {halt : Halt ScriptError}
    (run : memberName args m = .error halt m') :
    m' = m ∧ (args = [] ∨ ∀ what, halt ≠ .failed (.internal what)) := by
  rw [memberName_eq] at run
  split at run
  · cases run
  · cases run
    exact ⟨rfl, .inr (by rintro what ⟨⟩)⟩
  · next none =>
    cases run
    refine ⟨rfl, .inl ?_⟩
    cases args with
    | nil => rfl
    | cons a rest => cases none

theorem sendTo_failed {site : CallSite} {receiver : Value} {name : String} {halt : Halt ScriptError}
    (receives : m.frame.stack.items[site.argc]? = some receiver) (sent : site.name = name)
    (run : sendTo host calls receiver name (m.operands site) (m.opened site) = .error halt m') :
    Failed host calls (.send site) m halt m'.frame := by
  have here : SameCall m.frame (m.opened site).frame := ⟨rfl, rfl, rfl, rfl, rfl, rfl⟩
  have waiting {α : Type} {x : Exec RuntimeError α} {at_ : Site} {halt : Halt ScriptError}
      (failed : onState (x.mapError at_.locate) (m.opened site) = .error halt m') :
      Failed host calls (.send site) m halt m'.frame := by
    rw [onState_error failed]
    refine ⟨here, rfl, rfl, ?_, fun _ _ => rfl⟩
    rintro what rfl
    exact absurd failed located_not_internal
  have unnamed {halt : Halt ScriptError} (access : site.name = "getMember" ∨ site.name = "setMember")
      (failed : memberName (m.operands site) (m.opened site) = .error halt m') :
      Failed host calls (.send site) m halt m'.frame := by
    obtain ⟨rfl, reason⟩ := memberName_error failed
    refine ⟨here, rfl, rfl, fun what same => ?_, fun _ _ => rfl⟩
    rcases reason with none | other
    · have enough : site.argc ≤ m.frame.stack.height := by
        rw [m.frame.stack.height_eq]
        exact Nat.le_of_lt (List.getElem?_eq_some_iff.mp receives).1
      refine .noMember rfl access ?_
      rw [← operands_length enough, none]
      rfl
    · exact absurd same (other what)
  unfold sendTo at run
  split at run
  · rcases bind_eq_error_iff.mp run with failed | ⟨name, m₁, found, failed⟩
    · exact unnamed (.inl sent) failed
    · rw [memberName_ok found, located_eq] at failed
      exact waiting failed
  · rcases bind_eq_error_iff.mp run with failed | ⟨name, m₁, found, rest⟩
    · exact unnamed (.inr sent) failed
    · rw [memberName_ok found] at rest
      rcases bind_eq_error_iff.mp rest with failed | ⟨_, m₂, _, last⟩
      · rw [located_eq] at failed
        exact waiting failed
      · cases last
  · rw [bind_ok (refreshCall_eq _)] at run
    have failed := run
    rw [bind_ok (readFrame_eq _ Frame.site)] at failed
    have same := onState_error failed
    rw [same]
    refine ⟨here, rfl, rfl, ?_, fun _ _ => rfl⟩
    rintro what rfl
    subst sent
    exact .sending rfl receives failed

theorem sendNamed_failed {site : CallSite} {halt : Halt ScriptError}
    (run : sendNamed host calls site m = .error halt m') :
    Failed host calls (.send site) m halt m'.frame := by
  rcases sendNamed_cases m host calls site with ⟨receiver, found, sent⟩ | ⟨short, count, failed⟩
  · rw [sent] at run
    rcases bind_eq_error_iff.mp run with failed | ⟨v, m₁, got, last⟩
    · exact sendTo_failed found rfl failed
    · have same := sendTo_ok got
      refine push_failed last ?_ ?_ ?_ ?_
      · rw [same]
        exact ⟨rfl, rfl, rfl, rfl, rfl, rfl⟩
      · rw [same]
        rfl
      · rw [same]
        rfl
      · rw [same]
        rfl
  · rw [failed] at run
    cases run
    exact ⟨⟨rfl, rfl, rfl, rfl, rfl, rfl⟩, rfl, rfl, fun _ _ => .underflow short, fun _ _ => rfl⟩

theorem land_failed {kind : BranchKind} {offset : Offset} {halt : Halt ScriptError} {m₁ : Machine}
    (run : m₁.land offset = .error halt m') (same : SameCall m.frame m₁.frame)
    (regions : m₁.frame.handlers = m.frame.handlers) (locals : m₁.frame.locals = m.frame.locals)
    (place : m₁.frame.place = m.frame.place) : Failed host calls (.branch kind offset) m halt m'.frame := by
  unfold land at run
  split at run
  · cases run
  · cases run
  · next none =>
    cases run
    rw [same.pc, same.procedure] at none
    exact ⟨same, regions, locals, fun _ _ => .noTarget rfl none, fun _ _ => place⟩

theorem branch_failed {kind : BranchKind} {offset : Offset} {halt : Halt ScriptError}
    (run : branch kind offset m = .error halt m') :
    Failed host calls (.branch kind offset) m halt m'.frame := by
  rw [branch_eq] at run
  by_cases always : kind = .always
  · subst always
    rw [decides_always] at run
    exact land_failed run (.refl _) rfl rfl rfl
  · rcases decides_cases m always with ⟨b, top, decided⟩ | ⟨_, _, _, _, _, failed⟩ | ⟨empty, failed⟩
    · rw [decided] at run
      cases taken : b == (kind == .ifTrue) with
      | true =>
        rw [taken] at run
        exact land_failed run ⟨rfl, rfl, rfl, rfl, rfl, rfl⟩ rfl rfl rfl
      | false =>
        rw [taken] at run
        cases run
    · rw [failed] at run
      cases run
      exact ⟨⟨rfl, rfl, rfl, rfl, rfl, rfl⟩, rfl, rfl, by rintro what ⟨⟩, fun _ _ => rfl⟩
    · rw [failed] at run
      cases run
      refine ⟨.refl _, rfl, rfl, fun _ _ => .underflow ?_, fun _ _ => rfl⟩
      rw [empty, Instruction.pops_test always]
      exact Nat.zero_lt_one

/-- An instruction that fails leaves the call, the open regions and the variables as they are, and breaks an
invariant only for one of the reasons. A run-time error finds the frame at the place of the instruction. -/
theorem step_failed {halt : Halt ScriptError} (run : step host calls i m = .error halt m') :
    Failed host calls i m halt m'.frame := by
  cases i with
  | value v =>
    rcases bind_eq_error_iff.mp run with failed | ⟨_, _, _, last⟩
    · exact push_failed failed (.refl _) rfl rfl rfl
    · cases last
  | load name place =>
    rw [step_load_eq] at run
    rcases bind_eq_error_iff.mp run with failed | ⟨v, m₁, loaded, rest⟩
    · rw [onState_error failed]
      refine ⟨⟨rfl, rfl, rfl, rfl, rfl, rfl⟩, rfl, rfl, ?_, fun _ _ => rfl⟩
      rintro what rfl
      exact absurd failed located_not_internal
    · have same := onState_ok loaded
      rcases bind_eq_error_iff.mp rest with failed | ⟨_, _, _, last⟩
      · refine push_failed failed ?_ ?_ ?_ ?_
        · rw [same]
          exact ⟨rfl, rfl, rfl, rfl, rfl, rfl⟩
        · rw [same]
          rfl
        · rw [same]
          rfl
        · rw [same]
          rfl
      · cases last
  | call site =>
    rcases bind_eq_error_iff.mp run with failed | ⟨_, _, _, last⟩
    · exact callNamed_failed failed
    · cases last
  | send site =>
    rcases bind_eq_error_iff.mp run with failed | ⟨_, _, _, last⟩
    · exact sendNamed_failed failed
    · cases last
  | branch kind offset => exact branch_failed run
  | stop index lines =>
    rcases bind_eq_error_iff.mp run with failed | ⟨_, _, _, last⟩
    · obtain ⟨place, state, _, passed | stopped⟩ := m.passMarker_cases index lines
      · rw [passed] at failed
        cases failed
      · rw [stopped] at failed
        cases failed
        exact ⟨⟨rfl, rfl, rfl, rfl, rfl, rfl⟩, rfl, rfl, by rintro what ⟨⟩, by rintro _ ⟨⟩⟩
    · cases last
  | discard =>
    rcases bind_eq_error_iff.mp run with failed | ⟨_, _, _, last⟩
    · rcases m.pop_cases with ⟨v, _, took⟩ | ⟨empty, short⟩
      · rw [took] at failed
        cases failed
      · rw [short] at failed
        cases failed
        exact ⟨.refl _, rfl, rfl, fun _ _ => .underflow (by simp [Instruction.pops, empty]), fun _ _ => rfl⟩
    · cases last
  | enterTry offset =>
    rcases bind_eq_error_iff.mp run with failed | ⟨_, _, _, last⟩
    · rcases m.enterTry_cases offset with ⟨target, _, opened⟩ | ⟨none, stuck⟩
      · rw [opened] at failed
        cases failed
      · rw [stuck] at failed
        cases failed
        exact ⟨.refl _, rfl, rfl, fun _ _ => .noHandler rfl none, fun _ _ => rfl⟩
    · cases last
  | leaveTry =>
    rcases bind_eq_error_iff.mp run with failed | ⟨_, _, _, last⟩
    · rw [leaveTry_eq] at failed
      split at failed
      · next none =>
        cases failed
        exact ⟨.refl _, rfl, rfl, fun _ _ => .noRegion rfl none, fun _ _ => rfl⟩
      · cases failed
    · cases last
  | caught binding =>
    rcases bind_eq_error_iff.mp run with failed | ⟨_, _, _, last⟩
    · rcases m.takeMessage_cases binding with ⟨message, _, took⟩ | ⟨empty, short⟩
      · rw [took] at failed
        cases binding <;> cases failed
      · rw [short] at failed
        cases failed
        exact ⟨.refl _, rfl, rfl, fun _ _ => .underflow (by simp [Instruction.pops, empty]), fun _ _ => rfl⟩
    · cases last

/-- How a machine comes to take another turn: its instruction went on, or failed and was caught. -/
inductive Turned (host : Host) (calls : Calls) (m : Machine) : Machine → Prop
  | onward {i : Instruction} {m₁ : Machine} (found : m.frame.procedure.code[m.frame.pc]? = some i)
    (run : step host calls i m = .ok .next m₁) : Turned host calls m (m₁.jumped (m₁.frame.pc + 1))
  | jumped {i : Instruction} {m₁ : Machine} {target : Nat}
    (found : m.frame.procedure.code[m.frame.pc]? = some i)
    (run : step host calls i m = .ok (.jump target) m₁) : Turned host calls m (m₁.jumped target)
  | caught {i : Instruction} {m₁ : Machine} {e : LocatedError} {h : Handler} {outer : List Handler}
    (found : m.frame.procedure.code[m.frame.pc]? = some i)
    (run : step host calls i m = .error (.failed (.runtime e)) m₁)
    (regions : m₁.frame.handlers = h :: outer) :
    Turned host calls m (((m₁.unwind h outer).pushed (.string e.message)).jumped h.target)

theorem turn_inl (here : turn host calls m = .inl m') : Turned host calls m m' := by
  unfold turn at here
  cases found : m.frame.procedure.code[m.frame.pc]? with
  | none =>
    rw [found] at here
    cases here
  | some i =>
    rw [found] at here
    dsimp only at here
    rcases run : step host calls i m with ⟨flow, m₁⟩ | ⟨halt, m₁⟩
    · rw [run] at here
      cases flow with
      | next =>
        cases here
        exact .onward found run
      | jump target =>
        cases here
        exact .jumped found run
      | leave v => cases here
    · rw [run] at here
      cases halt with
      | exhausted => cases here
      | failed error =>
        dsimp only at here
        cases recoverable : error.isRecoverable with
        | false =>
          rw [recover_other m₁ recoverable] at here
          cases here
        | true =>
          cases error with
          | runtime e =>
            cases regions : m₁.frame.handlers with
            | nil =>
              obtain ⟨_, _, _, escaped⟩ := m₁.recover_nil (e := e) regions
              rw [escaped] at here
              cases here
            | cons h outer =>
              rw [recover_handler m₁ regions] at here
              split at here
              · next none =>
                split at none
                · cases none
                · cases none
                  cases here
                  exact .caught found run regions
              · cases here
          | _ => cases recoverable

theorem sameCall_at {f g : Frame} {pc : Nat} (same : SameCall { f with pc } g) (pc' : Nat) :
    SameCall { f with pc := pc' } { g with pc := pc' } :=
  ⟨same.procedure, same.owner, same.program, same.file, rfl, same.maxStack⟩

/-- The procedure, the class, the program, the file and the room of a frame stay as they are. -/
theorem Turned.sameCall (turned : Turned host calls m m') : SameCall { m.frame with pc := m'.frame.pc } m'.frame := by
  have kept {f g : Frame} (same : SameCall m.frame f) (like : SameCall f { g with pc := f.pc }) :
      SameCall { m.frame with pc := g.pc } g := sameCall_at (same.trans like) g.pc
  cases turned with
  | onward _ run =>
    cases step_effect run with
    | next _ same => exact kept same ⟨rfl, rfl, rfl, rfl, rfl, rfl⟩
  | jumped _ run =>
    cases step_effect run with
    | jump _ _ same => exact kept same ⟨rfl, rfl, rfl, rfl, rfl, rfl⟩
  | caught _ run => exact kept (step_failed run).same ⟨rfl, rfl, rfl, rfl, rfl, rfl⟩

theorem Reaches.sameCall (reached : Reaches host calls m m') : SameCall { m.frame with pc := m'.frame.pc } m'.frame :=
  reached.invariant (I := fun m' => SameCall { m.frame with pc := m'.frame.pc } m'.frame) (.refl m.frame)
    fun _ b same turned => (sameCall_at same b.frame.pc).trans (turn_inl turned).sameCall

/-- A run ends with a broken invariant only where its instruction breaks it. -/
theorem turn_internal {what : String}
    (here : turn host calls m = .inr (.error (.failed (.internal what)) m')) :
    ∃ i, m.frame.procedure.code[m.frame.pc]? = some i ∧ Breaks host calls i m what := by
  unfold turn at here
  cases found : m.frame.procedure.code[m.frame.pc]? with
  | none =>
    rw [found] at here
    cases here
  | some i =>
    rw [found] at here
    dsimp only at here
    rcases run : step host calls i m with ⟨flow, m₁⟩ | ⟨halt, m₁⟩
    · rw [run] at here
      cases flow <;> cases here
    · rw [run] at here
      cases halt with
      | exhausted => cases here
      | failed error =>
        dsimp only at here
        refine ⟨i, rfl, (step_failed run).broken what ?_⟩
        cases error with
        | runtime e =>
          cases regions : m₁.frame.handlers with
          | nil =>
            obtain ⟨_, _, _, escaped⟩ := m₁.recover_nil (e := e) regions
            rw [escaped] at here
            cases here
          | cons h outer =>
            rw [recover_handler m₁ regions] at here
            split at here
            · cases here
            · next none =>
              split at none <;> cases none
              cases here
        | _ =>
          rw [recover_other m₁ rfl] at here
          cases here
          try rfl

end Machine

end ScriptEngine
