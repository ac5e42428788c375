import ScriptEngine.Verification.Finding

/-! # Stack depths

Follows every path through an instruction list and records the depth of the operand stack before each
instruction. A path ends where it takes more than there is, or where it disagrees with the depth that
another path recorded. A handler starts with the depth of its region and one message.
-/

namespace ScriptEngine

/-- How many values an instruction takes from the stack. -/
def Instruction.pops : Instruction → Nat
  | value _ | load .. | stop .. | enterTry _ | leaveTry => 0
  | call site => site.argc
  | send site => site.argc + 1
  | branch .always (.relative _) => 0
  | branch .. => 1
  | discard | caught _ => 1

/-- A conditional branch takes its condition. -/
theorem Instruction.pops_test {kind : BranchKind} (conditional : kind ≠ .always) {offset : Offset} :
    (Instruction.branch kind offset).pops = 1 := by
  cases kind with
  | always => exact absurd rfl conditional
  | _ => rfl

/-- How many values an instruction puts on the stack. -/
def Instruction.pushes : Instruction → Nat
  | value _ | load .. | send _ => 1
  | call site => if site.name = "set" then 0 else 1
  | branch .. | stop .. | enterTry _ | leaveTry | discard | caught _ => 0

namespace Verification

/-- An instruction that a path has reached, and the depth of the stack there. -/
structure Visit where
  index : Nat
  depth : Nat
deriving DecidableEq, Repr

/-- The index that an offset leads to, unless it leaves the procedure. -/
def targetIndex? (index : Nat) (offset : Offset) (size : Nat) : Option Nat :=
  match landing? index offset size with
  | some (.index target) => some target
  | _ => none

/-- Where a path goes on after an instruction that it reached with enough on the stack. -/
def successors (size : Nat) (i : Instruction) (v : Visit) : List Visit :=
  let after := v.depth - i.pops + i.pushes
  let next : Visit := ⟨v.index + 1, after⟩
  match i with
  | .branch kind offset =>
    let taken := (targetIndex? v.index offset size).toList.map (Visit.mk · after)
    if kind = .always then taken else next :: taken
  | .enterTry offset =>
    next :: (targetIndex? v.index offset size).toList.map (Visit.mk · (v.depth + 1))
  | _ => [next]

/-- The depths recorded so far, by index. -/
abbrev Depths := Array (Option Nat)

/-- How many instructions no path has reached. -/
def unvisited (depths : Depths) : Nat := depths.toList.count none

theorem unvisited_record (depths : Depths) (index depth : Nat) (h : depths[index]? = some none) :
    unvisited (depths.setIfInBounds index (some depth)) < unvisited depths := by
  have count_set (l : List (Option Nat)) (n : Nat) (h : l[n]? = some none) :
      (l.set n (some depth)).count none < l.count none := by
    induction l generalizing n with
    | nil => simp at h
    | cons a rest ih =>
      cases n with
      | zero => simp_all
      | succ n =>
        have := ih n (by simpa using h)
        simp only [List.set_cons_succ, List.count_cons]
        omega
  have := count_set depths.toList index (by simpa using h)
  simpa [unvisited] using this

/-- Follows pending visits, the first one first. Yields the flaws in the order in which they were found,
and the depths. -/
def follow (code : Array Instruction) (depths : Depths) (pending : List Visit) :
    List (Nat × Flaw) × Depths :=
  match pending with
  | [] => ([], depths)
  | v :: rest =>
    match _ : depths[v.index]?, code[v.index]? with
    | some (some seen), _ =>
      if seen = v.depth then follow code depths rest
      else
        let (found, depths) := follow code depths rest
        ((v.index, .stackMismatch seen v.depth) :: found, depths)
    | some none, some i =>
      let recorded := depths.setIfInBounds v.index (some v.depth)
      if v.depth < i.pops then
        let (found, depths) := follow code recorded rest
        ((v.index, .stackUnderflow) :: found, depths)
      else follow code recorded (successors code.size i v ++ rest)
    | _, _ => follow code depths rest
termination_by (unvisited depths, pending.length)
decreasing_by
  · exact Prod.Lex.right _ (by simp)
  · exact Prod.Lex.right _ (by simp)
  · exact Prod.Lex.left _ _ (unvisited_record _ _ _ ‹_›)
  · exact Prod.Lex.left _ _ (unvisited_record _ _ _ ‹_›)
  · exact Prod.Lex.right _ (by simp)

/-- The flaws that every path through a code shows, and the depth before each instruction. -/
def depths (code : Array Instruction) : List (Nat × Flaw) × Depths :=
  follow code (Array.replicate code.size none) [⟨0, 0⟩]

end Verification

end ScriptEngine
