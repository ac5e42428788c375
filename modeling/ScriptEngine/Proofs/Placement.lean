import Mathlib.Data.List.Forall2
import ScriptEngine.Proofs.Frames

/-! # Frames in a layout

A frame stands in a layout of its code if its stack and its open regions have the shape of the index where it
is. Every turn leads from one such frame to another, also a turn that ends in a handler, and no instruction
breaks an invariant from there: what it takes is on the stack, what it closes is open, and it leads where there
is code.
-/

namespace ScriptEngine

/-- What is known of a value by its kind. -/
def Kind.Fits : Kind → Value → Prop
  | .name, v => ∃ name, v = .string name
  | .any, _ => True

/-- Values on a stack that have the kinds of a shape. -/
abbrev FitAll (kinds : List Kind) (values : List Value) : Prop := List.Forall₂ Kind.Fits kinds values

theorem FitAll.anything {values : List Value} {count : Nat} (same : values.length = count) :
    FitAll (List.replicate count .any) values := by
  induction values generalizing count with
  | nil =>
    subst same
    exact .nil
  | cons v rest ih =>
    subst same
    exact .cons trivial (ih rfl)

/-- Open regions with the handlers of a shape. They were opened on an empty stack. -/
def opened (handlers : List Nat) : List Handler := handlers.map fun target => ⟨target, 0⟩

/-- A frame that stands where a layout says it does. -/
structure Layout.Places {code : Array Instruction} (layout : Layout code) (f : Frame) : Prop where
  code : f.procedure.code = code
  stack : FitAll (layout.shapes f.pc).stack f.stack.items
  handlers : f.handlers = opened (layout.shapes f.pc).handlers

variable {code : Array Instruction} {layout : Layout code} {host : Host} {calls : Calls}
  {i : Instruction} {f f' : Frame}

/-- A frame that has just been entered stands at the start of every layout of its code. -/
theorem Layout.places_fresh (layout : Layout f.procedure.code) (fresh : f.IsFresh f.procedure) :
    layout.Places f where
  code := rfl
  stack := by
    rw [fresh.pc, layout.entry, fresh.stack]
    exact .nil
  handlers := by
    rw [fresh.pc, layout.entry, fresh.handlers]
    rfl

section

variable {size pc : Nat} {σ : Shape} {next : List (Nat × Shape)}

/-- What an instruction puts on the stack can be anything; below it is what it left there. -/
theorem Stacked.fits (stack : Stacked i f f') {kinds : List Kind} (fit : FitAll kinds f.stack.items) :
    FitAll (List.replicate i.pushes .any ++ kinds.drop i.pops) f'.stack.items := by
  obtain ⟨out, count, items, _⟩ := stack
  rw [items]
  exact List.rel_append (FitAll.anything count) (List.forall₂_drop i.pops fit)

/-- An instruction that goes on to the next one comes to the shape there. -/
theorem Flows.next_fits (flows : Flows size i pc σ next)
    (onward : ∀ offset, i ≠ .branch .always offset) (fit : FitAll σ.stack f.stack.items)
    (regions : f.handlers = opened σ.handlers) (here : f.pc = pc)
    (long : f.procedure.code.size = size) (stack : Stacked i f f') (guarded : Guarded i f f') :
    ∃ τ, (pc + 1, τ) ∈ next ∧ FitAll τ.stack f'.stack.items ∧ f'.handlers = opened τ.handlers := by
  have left := stack.fits fit
  cases flows with
  | value v => exact ⟨_, List.mem_singleton_self _, left, guarded.trans regions⟩
  | name s =>
    obtain ⟨out, _, items, constant⟩ := stack
    obtain rfl := constant _ rfl
    refine ⟨_, List.mem_singleton_self _, ?_, guarded.trans regions⟩
    rw [items]
    exact .cons ⟨s, rfl⟩ fit
  | load => exact ⟨_, List.mem_singleton_self _, left, guarded.trans regions⟩
  | assign named two =>
    refine ⟨_, List.mem_singleton_self _, ?_, guarded.trans regions⟩
    simpa [Instruction.pops, Instruction.pushes, named, two] using left
  | call named count =>
    refine ⟨_, List.mem_singleton_self _, ?_, guarded.trans regions⟩
    simpa [Instruction.pops, Instruction.pushes, named, ← count] using left
  | send count =>
    refine ⟨_, List.mem_singleton_self _, ?_, guarded.trans regions⟩
    simpa [Instruction.pops, Instruction.pushes, ← count] using left
  | jump => exact absurd rfl (onward _)
  | test conditional =>
    rw [Instruction.pops_test conditional] at left
    refine ⟨_, List.mem_cons_self, ?_, guarded.trans regions⟩
    exact left
  | ret => exact absurd rfl (onward _)
  | stop => exact ⟨_, List.mem_singleton_self _, left, guarded.trans regions⟩
  | discard => exact ⟨_, List.mem_singleton_self _, left, guarded.trans regions⟩
  | @enterTry _ _ target lands =>
    obtain ⟨target', lands', same⟩ := guarded
    rw [here, long, lands] at lands'
    cases lands'
    have empty : f.stack.height = 0 := f.stack.height_eq.trans fit.length_eq.symm
    refine ⟨_, List.mem_cons_self, left, ?_⟩
    rw [same, regions, empty]
    rfl
  | leaveTry pc t =>
    obtain ⟨h, same⟩ := guarded
    rw [regions] at same
    exact ⟨_, List.mem_singleton_self _, left, (List.cons.inj same).2.symm⟩
  | caught => exact ⟨_, List.mem_singleton_self _, left, guarded.trans regions⟩

/-- So does one that branches. -/
theorem Flows.jump_fits {kind : BranchKind} {offset : Offset} {target : Nat}
    (flows : Flows size (.branch kind offset) pc σ next)
    (lands : landing? pc offset size = some (.index target)) (fit : FitAll σ.stack f.stack.items)
    (stack : Stacked (.branch kind offset) f f') :
    ∃ τ, (target, τ) ∈ next ∧ FitAll τ.stack f'.stack.items ∧ τ.handlers = σ.handlers := by
  have left := stack.fits fit
  obtain ⟨⟨n, rfl⟩, _⟩ := landing?_index lands
  cases flows with
  | jump lands' =>
    rw [lands] at lands'
    cases lands'
    exact ⟨_, List.mem_singleton_self _, left, rfl⟩
  | test conditional lands' =>
    rw [lands] at lands'
    cases lands'
    rw [Instruction.pops_test conditional] at left
    exact ⟨_, List.mem_cons_of_mem _ (List.mem_singleton_self _), left, rfl⟩

end

variable {m m' : Machine} {what : String}

namespace Layout.Places

theorem onward (placed : layout.Places f) (found : code[f.pc]? = some i)
    (effect : Effect i f f' .next) : layout.Places { f' with pc := f'.pc + 1 } := by
  obtain ⟨rfl, stack, handlers⟩ := placed
  obtain ⟨next, flows, all⟩ := layout.flows f.pc i found
  cases effect with
  | next onward same enough stacked guarded =>
    obtain ⟨τ, among, fit, regions⟩ :=
      flows.next_fits onward stack handlers rfl rfl stacked guarded
    have here : layout.shapes (f.pc + 1) = τ := (all _ (List.mem_append_left _ among)).2
    refine ⟨congrArg _ same.procedure, ?_, ?_⟩
    · change FitAll (layout.shapes (f'.pc + 1)).stack _
      rw [same.pc, here]
      exact fit
    · change f'.handlers = opened (layout.shapes (f'.pc + 1)).handlers
      rw [same.pc, here]
      exact regions

theorem jumped {target : Nat} (placed : layout.Places f) (found : code[f.pc]? = some i)
    (effect : Effect i f f' (.jump target)) : layout.Places { f' with pc := target } := by
  obtain ⟨rfl, stack, handlers⟩ := placed
  obtain ⟨next, flows, all⟩ := layout.flows f.pc i found
  cases effect with
  | jump branch lands same enough stacked regions =>
    subst branch
    obtain ⟨τ, among, fit, outer⟩ := flows.jump_fits lands stack stacked
    have here : layout.shapes target = τ := (all _ (List.mem_append_left _ among)).2
    refine ⟨congrArg _ same.procedure, ?_, ?_⟩
    · change FitAll (layout.shapes target).stack _
      rw [here]
      exact fit
    · change f'.handlers = opened (layout.shapes target).handlers
      rw [here, outer, regions, handlers]

/-- A handler is entered with nothing but a message on the stack. -/
theorem caught {h : Handler} {outer : List Handler} {message : Value} (placed : layout.Places f)
    (found : code[f.pc]? = some i) (same : SameCall f f') (kept : f'.handlers = f.handlers)
    (regions : f'.handlers = h :: outer) :
    layout.Places { f' with
      handlers := outer
      stack := (f'.stack.truncate h.depth).push message
      pc := h.target } := by
  obtain ⟨rfl, stack, handlers⟩ := placed
  obtain ⟨next, flows, all⟩ := layout.flows f.pc i found
  rw [kept, handlers] at regions
  cases open_ : (layout.shapes f.pc).handlers with
  | nil =>
    rw [open_] at regions
    cases regions
  | cons target rest =>
    rw [open_] at regions all
    cases regions
    have here : layout.shapes target = ⟨[.any], rest⟩ :=
      (all _ (List.mem_append_right _ (List.mem_singleton_self _))).2
    refine ⟨congrArg _ same.procedure, ?_, ?_⟩
    · change FitAll (layout.shapes target).stack (message :: (f'.stack.truncate 0).items)
      rw [here, f'.stack.items_truncate_zero]
      exact .cons trivial .nil
    · change opened rest = opened (layout.shapes target).handlers
      rw [here]

/-- Every turn leads to where the layout says. -/
theorem turned (placed : layout.Places m.frame) (turned : Machine.Turned host calls m m') :
    layout.Places m'.frame := by
  cases turned with
  | onward found run => exact placed.onward (placed.code ▸ found) (Machine.step_effect run)
  | jumped found run => exact placed.jumped (placed.code ▸ found) (Machine.step_effect run)
  | caught found run regions =>
    have failed := Machine.step_failed run
    exact placed.caught (placed.code ▸ found) failed.same failed.regions regions

end Layout.Places

section

variable {z : Zone}

/-- A zone in which only sound procedures run and no call ends in a broken invariant. -/
class Zone.IsStrict (z : Zone) : Prop where
  sound : ∀ p, z.fits p → p.Sound z.program
  orderly : ∀ e, z.errors e → e.IsOrderly

/-- A call that breaks no invariant does not break one for a machine that waits for it. -/
theorem Machine.onState_orderly [z.IsStrict] {α : Type} {Q : α → Prop} {x : Exec ScriptError α}
    (kept : z.Performs x x Q) (settled : z.Settled m.state.store) :
    onState x m ≠ .error (.failed (.internal what)) m' := by
  intro run
  obtain ⟨state, held, _⟩ := onState_eq_error_iff.mp run
  have after := (Exec.holding_keeps (h := m.frame.hold) kept m.state settled).2
  rw [held] at after
  exact Zone.IsStrict.orderly _ after.2 what rfl

theorem Machine.refreshed_settled (settled : z.Settled m.state.store) :
    z.Settled m.refreshed.store := by
  unfold refreshed
  split
  · exact settled
  · exact settled

theorem Machine.operands_owned (owned : z.OwnsFrame m.frame) (site : CallSite) :
    z.OwnsArguments (m.operands site) :=
  zipWith_owned fun v member =>
    owned.stack v (List.mem_of_mem_take (List.mem_reverse.mp member))

/-- The first of two arguments lies under the other one. -/
theorem Machine.operands_first {site : CallSite} {below above target : Value} {rest : List Value}
    (two : site.argc = 2) (items : m.frame.stack.items = above :: below :: rest)
    (first : (m.operands site).value? 0 = some target) : target = below := by
  obtain ⟨k, k', keywords⟩ := List.length_eq_two.mp two
  have operands : m.operands site = [⟨k, below⟩, ⟨k', above⟩] := by
    unfold operands Stack.latest
    rw [two, items, keywords]
    rfl
  rw [operands] at first
  cases first
  rfl

/-- Where a frame of a zone stands in a layout, its instruction breaks no invariant. -/
theorem Layout.Places.unbroken [z.IsStrict] (placed : layout.Places m.frame) (sound : z.Sound)
    (tame : z.OwnsHost host) (nested : z.OwnsCalls calls calls) (owned : z.OwnsMachine m)
    (found : m.frame.procedure.code[m.frame.pc]? = some i) :
    ¬ Machine.Breaks host calls i m what := by
  intro breaks
  have frame := owned.frame
  obtain ⟨rfl, stack, handlers⟩ := placed
  obtain ⟨next, flows, _⟩ := layout.flows m.frame.pc i found
  generalize layout.shapes m.frame.pc = σ at flows stack handlers
  cases breaks with
  | underflow short =>
    have enough := flows.pops_le
    rw [stack.length_eq, ← m.frame.stack.height_eq] at enough
    omega
  | noRegion closes none =>
    subst closes
    cases flows
    rw [none] at handlers
    cases handlers
  | noName call named first other =>
    subst call
    cases flows with
    | assign _ two =>
      generalize items : m.frame.stack.items = values at stack
      rcases stack with _ | ⟨_, _ | ⟨⟨name, fit⟩, _⟩⟩
      obtain rfl := Machine.operands_first two items first
      exact other name fit
    | call unnamed => exact unnamed named
  | fewOperands call named few =>
    subst call
    cases flows with
    | assign _ two => omega
    | call unnamed => exact unnamed named
  | noMember send named none =>
    subst send
    exact (Zone.IsStrict.sound _ frame.fits).named _ (Array.mem_of_getElem? found) named none
  | noTarget branch none =>
    subst branch
    cases flows with
    | jump lands =>
      rw [lands] at none
      cases none
    | test _ lands =>
      rw [lands] at none
      cases none
    | ret => cases none
  | noHandler opens none =>
    subst opens
    cases flows with
    | enterTry lands => exact none _ lands
  | @calling site _ call named nested_ =>
    have waiting : z.OwnsFrame ((m.placed site.place).dropped site.argc).frame :=
      frame.sameCall rfl rfl rfl rfl fun v member => frame.stack v (List.mem_of_mem_drop member)
    refine Machine.onState_orderly
      (Name.call_performs sound tame nested waiting (Machine.operands_owned frame _)) ?_ nested_
    exact Machine.refreshed_settled owned.store
  | sending send receives nested_ =>
    refine Machine.onState_orderly (Invoke.send_performs sound tame nested
      (frame.stack _ (List.mem_of_getElem? receives)) (Machine.operands_owned frame _)) ?_ nested_
    exact Machine.refreshed_settled owned.store

namespace Machine

/-- A turn stays in the zone, whether the run goes on or ends. -/
theorem turn_owned (sound : z.Sound) (tame : z.OwnsHost host) (nested : z.OwnsCalls calls calls)
    (owned : z.OwnsMachine m) :
    (∀ m', turn host calls m = .inl m' → z.OwnsMachine m') ∧
      ∀ ending, turn host calls m = .inr ending →
        Remains z.OwnsMachine (fun _ => True) z.Owns ending := by
  have moved {g : Machine} (pc : Nat) (owned : z.OwnsMachine g) :
      z.OwnsMachine ⟨{ g.frame with pc }, g.state⟩ :=
    ⟨owned.frame.sameCall rfl rfl rfl rfl owned.frame.stack, owned.store⟩
  unfold turn
  cases found : m.frame.procedure.code[m.frame.pc]? with
  | none =>
    refine ⟨by rintro m' ⟨⟩, ?_⟩
    rintro ending ⟨⟩
    exact ⟨owned, Zone.owns_null⟩
  | some i =>
    have constant (v : Value) (same : i = .value v) : z.Owns v := by
      subst same
      exact constant_owned owned.frame.constants (Array.mem_of_getElem? found)
    have after := (step_moves sound tame nested constant m owned).2
    dsimp only
    rcases run : step host calls i m with ⟨flow, g⟩ | ⟨halt, g⟩
    · rw [run] at after
      cases flow with
      | next =>
        refine ⟨?_, by rintro ending ⟨⟩⟩
        rintro m' ⟨⟩
        exact moved _ after.1
      | jump target =>
        refine ⟨?_, by rintro ending ⟨⟩⟩
        rintro m' ⟨⟩
        exact moved _ after.1
      | leave v =>
        refine ⟨by rintro m' ⟨⟩, ?_⟩
        rintro ending ⟨⟩
        exact ⟨after.1, after.2 v rfl⟩
    · rw [run] at after
      cases halt with
      | exhausted =>
        refine ⟨by rintro m' ⟨⟩, ?_⟩
        rintro ending ⟨⟩
        exact after
      | failed e =>
        have answered := (recover_moves (e := e) g after.1).2
        dsimp only
        rcases recovered : recover e g with ⟨_, g'⟩ | ⟨halt, g'⟩
        · rw [recovered] at answered
          refine ⟨?_, by rintro ending ⟨⟩⟩
          rintro m' ⟨⟩
          exact answered.1
        · rw [recovered] at answered
          refine ⟨by rintro m' ⟨⟩, ?_⟩
          rintro ending ⟨⟩
          cases halt <;> exact answered

theorem execute_owned (sound : z.Sound) (tame : z.OwnsHost host) (nested : z.OwnsCalls calls calls)
    (n : Nat) (owned : z.OwnsMachine m) :
    Remains z.OwnsMachine (fun _ => True) z.Owns (execute host calls n m) := by
  induction n generalizing m with
  | zero => exact owned
  | succ n ih =>
    obtain ⟨onward, last⟩ := turn_owned sound tame nested owned
    rw [execute_succ]
    cases here : turn host calls m with
    | inl m' => exact ih (onward m' here)
    | inr ending => exact last ending here

/-- From where a layout says a frame stands, a run breaks no invariant. -/
theorem execute_orderly [z.IsStrict] (sound : z.Sound) (tame : z.OwnsHost host) (nested : z.OwnsCalls calls calls)
    (n : Nat) (owned : z.OwnsMachine m) (placed : layout.Places m.frame) {e : ScriptError}
    (ended : execute host calls n m = .error (.failed e) m') : e.IsOrderly := by
  induction n generalizing m with
  | zero => cases ended
  | succ n ih =>
    rw [execute_succ] at ended
    cases here : turn host calls m with
    | inl next =>
      rw [here] at ended
      exact ih ((turn_owned sound tame nested owned).1 next here) (placed.turned (turn_inl here)) ended
    | inr ending =>
      rw [here] at ended
      rintro what rfl
      change ending = _ at ended
      rw [ended] at here
      obtain ⟨i, found, breaks⟩ := turn_internal here
      exact placed.unbroken sound tame nested owned found breaks

end Machine

/-- A zone whose frames end in no errors but its own, as long as host and nested runs stay in it. -/
class Zone.IsClosed (z : Zone) : Prop where
  ends : ∀ {host : Host} {calls : Calls} {n : Nat} {m m' : Machine} {e : ScriptError}, z.Sound → z.OwnsHost host →
    z.OwnsCalls calls calls → z.OwnsMachine m → m.frame.IsFresh m.frame.procedure →
    Machine.execute host calls n m = .error (.failed e) m' → z.errors e

instance (z : Zone) [z.IsStrict] : z.IsClosed where
  ends sound tame nested owned fresh ended := by
    obtain ⟨layout⟩ := (Zone.IsStrict.sound _ owned.frame.fits).layout
    exact sound.orderly _ (Machine.execute_orderly sound tame nested _ owned (layout.places_fresh fresh) ended)

variable [z.IsClosed]

/-- A frame that has just been entered runs within its zone. -/
theorem Frame.run_performs (sound : z.Sound) (tame : z.OwnsHost host) (nested : z.OwnsCalls calls calls)
    (steps : Nat) (owned : z.OwnsFrame f) (fresh : f.IsFresh f.procedure) :
    z.Performs (f.run host calls steps) (f.run host calls steps) z.Owns := by
  refine Keeps.bind (Exec.tryControl_keeps fun c e failed => ?_) fun _ _ s settled => ?_
  · cases opened : c.openCall f.record with
    | ok c' =>
      rw [opened] at failed
      cases failed
    | error cause =>
      rw [opened] at failed
      cases failed
      exact Invoke.located_errors sound f.site cause
  · have machine : z.OwnsMachine ⟨f, s⟩ := ⟨owned, settled⟩
    have after := Machine.execute_owned sound tame nested steps machine
    refine ⟨rfl, ?_⟩
    cases run : Machine.execute host calls steps ⟨f, s⟩ with
    | ok v m =>
      rw [run] at after
      exact ⟨after.1.store, after.2⟩
    | error halt m =>
      rw [run] at after
      cases halt with
      | failed e => exact ⟨after.1.store, Zone.IsClosed.ends sound tame nested machine fresh run⟩
      | exhausted => exact after.store

/-- Runs nested as deep as the bound allows stay in the zone: the induction is on how deep they nest. -/
theorem Calls.nested_owned (sound : z.Sound) (tame : z.OwnsHost host) (steps depth : Nat) :
    z.OwnsCalls (.nested host steps depth) (.nested host steps depth) := by
  induction depth with
  | zero => exact ⟨fun _ _ _ => .exhausted, fun _ _ _ _ => .exhausted, fun _ _ _ _ => .exhausted⟩
  | succ depth ih =>
    refine ⟨fun f owned fresh => ?_, fun callee args here owned => ?_, fun r args has owned => ?_⟩
    · exact Frame.run_performs sound tame ih steps owned fresh
    · exact Invoke.value_performs sound tame ih here (by rintro v ⟨⟩) owned
    · exact Invoke.native_asks tame ih has owned

end

end ScriptEngine
