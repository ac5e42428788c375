import ScriptEngine.Verification.Depth
import ScriptEngine.Verification.Shape

/-! # Verification

Checks the instruction lists of a program before it runs and collects all findings: limits, then shape, then
stack depths. Depths are only followed where the shape lets paths be followed.
-/

namespace ScriptEngine.Verification

/-- The findings in a procedure. -/
def ofProcedure (p : Procedure) : List Finding :=
  let locate (found : List (Nat × Flaw)) := found.map fun (index, what) =>
    Finding.flaw p.name index what
  let size := p.code.size
  let limit := if size > maxInstructions then
    [Finding.tooManyInstructions p.name size maxInstructions] else []
  let shape := shape p.code
  let enters := p.code.countP isEnterTry
  let exits := p.code.countP isLeaveTry
  let balance := if enters ≠ exits then [Finding.unbalancedTry p.name enters exits] else []
  let paths := if shape.any (·.2.isFatal) then [] else (depths p.code).1
  limit ++ locate (flaws p.code argumentLimit) ++ locate shape ++ balance ++ locate paths

/-- The findings in a program. -/
def ofProgram (s : Store) (id : ProgramId) : List Finding :=
  match (s.program id).failure with
  | some report => [.refused report.message]
  | none => (s.procedures id).flatMap fun p => ofProcedure (s.procedure p)

end ScriptEngine.Verification
