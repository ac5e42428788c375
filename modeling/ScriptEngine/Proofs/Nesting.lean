import Mathlib.Tactic.ByContra
import ScriptEngine.Engine
import ScriptEngine.Proofs.Turns

/-! # Nested runs

An instruction may run other frames before it is over, and what the host adds may do so as well. Which runs
a computation starts is read off its dependence on them: it starts a run in a state if what it comes to
depends on what that run comes to there. From this follows which machines an operation of the host visits,
and which others wait meanwhile for the runs that they started.
-/

namespace ScriptEngine

/-- A nested run that a computation can start. -/
inductive Request where
  | run (f : Frame)
  | invoke (callee : Value) (args : Arguments)
  | native (r : Ref .native) (args : Arguments)

/-- Nested runs that come to the same wherever `G` holds. -/
structure Calls.AgreeWhere (G : Request → State → Prop) (calls other : Calls) : Prop where
  run : ∀ f s, G (.run f) s → calls.run f s = other.run f s
  invoke : ∀ callee args s, G (.invoke callee args) s →
    calls.invoke callee args s = other.invoke callee args s
  native : ∀ r args s, G (.native r args) s → calls.native r args s = other.native r args s

/-- A computation starts a nested run in a state: it comes to something else with nested runs that differ
there and nowhere else. -/
def Starts {ρ : Type} (x : Calls → ρ) (calls : Calls) (q : Request) (s : State) : Prop :=
  ∃ other, calls.AgreeWhere (fun q' s' => (q', s') ≠ (q, s)) other ∧ x calls ≠ x other

/-- A computation that comes to the same with all nested runs that agree where `G` holds starts nested runs
only there. -/
theorem Starts.within {ρ : Type} {x : Calls → ρ} {calls : Calls} {q : Request} {s : State}
    {G : Request → State → Prop} (starts : Starts x calls q s)
    (respects : ∀ other, calls.AgreeWhere G other → x calls = x other) : G q s := by
  obtain ⟨other, agree, differ⟩ := starts
  by_contra outside
  have elsewhere (q' : Request) (s' : State) (inside : G q' s') : (q', s') ≠ (q, s) := by
    rintro ⟨⟩
    exact outside inside
  refine differ (respects other ⟨fun f s' inside => ?_, fun v args s' inside => ?_,
    fun r args s' inside => ?_⟩)
  · exact agree.run f s' (elsewhere _ _ inside)
  · exact agree.invoke v args s' (elsewhere _ _ inside)
  · exact agree.native r args s' (elsewhere _ _ inside)

namespace Engine

variable (e : Engine)

/-- The runs that a computation can start which may nest so many levels deep. -/
def below (levels : Nat) : Calls := .nested e.host e.steps levels

/-- The run of a frame that is entered in a state comes to a machine, which is about to do its next turn. -/
def Comes (levels : Nat) (f : Frame) (s : State) (m : Machine) : Prop :=
  ∃ c k, s.control.openCall f.record = .ok c ∧
    Machine.ReachesIn e.host (e.below levels) k ⟨f, { s with control := c }⟩ m ∧ k < e.steps

/-- A computation that may nest as deep as the engine allows makes a request in a state, directly or from
within other runs. The machines that wait for the request have the latest first; `levels` is how much deeper
the run can nest that is asked for. -/
inductive Makes {ρ : Type} (x : Calls → ρ) : (levels : Nat) → List Machine → Request → State → Prop
  | host {q : Request} {s : State} : Starts x e.calls q s → Makes x e.depth [] q s
  /-- A machine in the run of a frame makes a request with its next instruction. -/
  | instruction {levels : Nat} {waiting : List Machine} {f : Frame} {s s' : State} {m : Machine}
      {i : Instruction} {q : Request} :
    Makes x (levels + 1) waiting (.run f) s → e.Comes levels f s m →
      m.frame.procedure.code[m.frame.pc]? = some i →
      Starts (fun calls => Machine.step e.host calls i m) (e.below levels) q s' →
      Makes x levels (m :: waiting) q s'
  | invoke {levels : Nat} {waiting : List Machine} {callee : Value} {args : Arguments} {s s' : State}
      {q : Request} :
    Makes x (levels + 1) waiting (.invoke callee args) s →
      Starts (fun calls => Invoke.value e.host calls .host callee none args s) (e.below levels) q s' →
      Makes x levels waiting q s'
  | native {levels : Nat} {waiting : List Machine} {r : Ref .native} {args : Arguments} {s s' : State}
      {q : Request} :
    Makes x (levels + 1) waiting (.native r args) s →
      Starts (fun calls => Invoke.native e.host calls r args s) (e.below levels) q s' →
      Makes x levels waiting q s'

/-- While a computation goes on, a machine is about to do its next turn, and others wait for it, the latest
first. -/
def Visits {ρ : Type} (x : Calls → ρ) (levels : Nat) (waiting : List Machine) (m : Machine) : Prop :=
  ∃ f s, e.Makes x (levels + 1) waiting (.run f) s ∧ e.Comes levels f s m

end Engine

end ScriptEngine
