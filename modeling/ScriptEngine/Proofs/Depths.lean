import ScriptEngine.Proofs.Layout
import ScriptEngine.Verification

/-! # Depths along a layout

Where a code has a layout, the depths that the verification records are those of the shapes: every path
agrees with them, so none runs into an underflow or disagrees with another one.
-/

namespace ScriptEngine

open Verification

theorem targetIndex?_eq {index target size : Nat} {offset : Offset} :
    targetIndex? index offset size = some target ↔
      landing? index offset size = some (.index target) := by
  unfold targetIndex?
  split
  · next t lands => simp [lands]
  · next h =>
    constructor
    · intro h'
      cases h'
    · intro h'
      exact absurd h' (h target)

/-- An offset that leads to an index is relative. -/
theorem landing?_index {source target size : Nat} {offset : Offset}
    (lands : landing? source offset size = some (.index target)) :
    (∃ n, offset = .relative n) ∧ target ≤ size := by
  unfold landing? at lands
  split at lands
  · cases lands
  · dsimp only at lands
    split at lands
    · cases lands
      exact ⟨⟨_, rfl⟩, by omega⟩
    · cases lands

variable {size pc : Nat} {i : Instruction} {σ : Shape} {next : List (Nat × Shape)}

/-- An instruction finds on the stack what it takes. -/
theorem Flows.pops_le (flows : Flows size i pc σ next) : i.pops ≤ σ.stack.length := by
  cases flows with
  | jump lands =>
    obtain ⟨⟨n, rfl⟩, _⟩ := landing?_index lands
    exact Nat.zero_le _
  | test conditional =>
    rw [Instruction.pops_test conditional]
    exact Nat.succ_le_succ (Nat.zero_le _)
  | _ => simp_all [Instruction.pops]

/-- A path goes on to a shape that the instruction leads to. -/
theorem Flows.successors {v : Visit} (flows : Flows size i v.index σ next)
    (here : v.depth = σ.stack.length) :
    ∀ w ∈ successors size i v, ∃ τ, (w.index, τ) ∈ next ∧ w.depth = τ.stack.length := by
  obtain ⟨pc, depth⟩ := v
  dsimp only at flows here
  subst here
  cases flows with
  | jump lands =>
    obtain ⟨⟨n, rfl⟩, _⟩ := landing?_index lands
    simp [Verification.successors, targetIndex?_eq.mpr lands, Instruction.pops, Instruction.pushes]
  | @test kind conditional offset _ _ lands =>
    have pops : (Instruction.branch kind offset).pops = 1 := Instruction.pops_test conditional
    simp [Verification.successors, targetIndex?_eq.mpr lands, conditional, pops, Instruction.pushes]
  | enterTry lands =>
    simp [Verification.successors, targetIndex?_eq.mpr lands, Instruction.pops, Instruction.pushes]
  | ret => simp [Verification.successors, targetIndex?, landing?]
  | _ => simp_all [Verification.successors, Instruction.pops, Instruction.pushes]

/-- Recorded depths are those of the shapes. -/
def Agree (shapes : Nat → Shape) (depths : Depths) : Prop :=
  ∀ k d, depths[k]? = some (some d) → d = (shapes k).stack.length

theorem Agree.record {shapes : Nat → Shape} {depths : Depths} (agree : Agree shapes depths)
    {k d : Nat} (here : d = (shapes k).stack.length) :
    Agree shapes (depths.setIfInBounds k (some d)) := by
  intro j e found
  rw [Array.getElem?_setIfInBounds] at found
  split at found
  · next same =>
    subst same
    split at found
    · cases found
      exact here
    · cases found
  · exact agree j e found

variable {code : Array Instruction}

/-- Following paths along a layout finds no flaw and records the depths of the shapes. -/
theorem Layout.follow (layout : Layout code) {depths : Depths} {pending : List Visit}
    (agree : Agree layout.shapes depths)
    (visits : ∀ v ∈ pending, v.depth = (layout.shapes v.index).stack.length) :
    (Verification.follow code depths pending).1 = [] ∧
      Agree layout.shapes (Verification.follow code depths pending).2 := by
  fun_induction Verification.follow code depths pending with
  | case1 depths => exact ⟨rfl, agree⟩
  | case2 depths v rest seen ih =>
    exact ih agree fun w member => visits w (List.mem_cons_of_mem _ member)
  | case3 depths v rest seen found differs =>
    exact absurd ((agree _ _ found).trans (visits v List.mem_cons_self).symm) differs
  | case4 depths v rest i _ found recorded short =>
    obtain ⟨next, flows, _⟩ := layout.flows v.index i found
    have enough := flows.pops_le
    have here := visits v List.mem_cons_self
    omega
  | case5 depths v rest i _ found recorded enough ih =>
    obtain ⟨next, flows, all⟩ := layout.flows v.index i found
    have here := visits v List.mem_cons_self
    refine ih (agree.record here) fun w member => ?_
    rcases List.mem_append.mp member with member | member
    · obtain ⟨τ, among, same⟩ := flows.successors here w member
      have there : layout.shapes w.index = τ := (all _ (List.mem_append_left _ among)).2
      rw [same, there]
    · exact visits w (List.mem_cons_of_mem _ member)
  | case6 depths v rest _ _ ih =>
    exact ih agree fun w member => visits w (List.mem_cons_of_mem _ member)

/-- The verification finds no flaw of depth in a code that has a layout, and the depth that it computes for
an instruction is that of its shape. -/
theorem Layout.depths (layout : Layout code) :
    (Verification.depths code).1 = [] ∧ Agree layout.shapes (Verification.depths code).2 := by
  refine layout.follow ?_ ?_
  · intro k d found
    simp [Array.getElem?_replicate] at found
  · intro v member
    obtain rfl : v = ⟨0, 0⟩ := by simpa using member
    rw [layout.entry]
    rfl

/-- Guarded regions open, and markers stand, where nothing is on the stack. -/
theorem Layout.depth_eq_zero (layout : Layout code) {k d : Nat} {i : Instruction}
    (recorded : (Verification.depths code).2[k]? = some (some d)) (found : code[k]? = some i)
    (opens : (∃ offset, i = .enterTry offset) ∨ ∃ index lines, i = .stop index lines) : d = 0 := by
  obtain ⟨next, flows, _⟩ := layout.flows k i found
  rw [layout.depths.2 k d recorded]
  rcases opens with ⟨offset, rfl⟩ | ⟨index, lines, rfl⟩
  · generalize layout.shapes k = σ at flows
    cases flows
    rfl
  · generalize layout.shapes k = σ at flows
    cases flows
    rfl

end ScriptEngine
