import ScriptEngine.Store

/-! # The procedures of a program

All procedures that a program leads to: its top-level code and class setups, what its members and their
classes hold, and the procedures that occur as constants in the code of others. They are listed by line and
name, the top-level code first, and each once.
-/

namespace ScriptEngine

/-- The procedures that occur as constants in a code. -/
def nestedProcedures (code : Array Instruction) : List ProcedureId :=
  code.toList.filterMap fun
    | .value (.procedure id) => some id
    | _ => none

namespace Store

variable (s : Store)

/-- Every procedure of the store. -/
def allProcedures : List ProcedureId :=
  s.programs.toList.zipIdx.flatMap fun (p, i) =>
    (List.range p.procedures.size).map fun j => ⟨i, j⟩

/-- The procedures that the value of a member holds. -/
def heldProcedures : Value → List ProcedureId
  | .procedure id => [id]
  | .classRef id =>
    let c := s.classDef id
    c.methods.entries.map (·.2) ++ c.statics.entries.filterMap fun
      | (_, .procedure p) => some p
      | _ => none
  | _ => []

/-- Where the search for the procedures of a program starts. -/
def rootProcedures (id : ProgramId) : List ProcedureId :=
  let p := s.program id
  p.topLevel.toList ++ p.classSetups ++ p.members.entries.flatMap fun entry => s.heldProcedures entry.2

/-- The procedures that some pending ones lead to, the latest pending one first. Those that are not in
`fresh` have been found already. -/
def reach (fresh pending : List ProcedureId) : List ProcedureId :=
  match pending with
  | [] => []
  | id :: rest =>
    if id ∈ fresh then
      id :: reach (fresh.erase id) ((nestedProcedures (s.procedure id).code).reverse ++ rest)
    else reach fresh rest
termination_by (fresh.length, pending.length)
decreasing_by
  · have := List.length_erase_of_mem ‹id ∈ fresh›
    have := List.length_pos_of_mem ‹id ∈ fresh›
    exact Prod.Lex.left _ _ (by omega)
  · exact Prod.Lex.right _ (by simp)

/-- The order of procedures: the top-level code, then by line, then by name. -/
def procedureLe (topLevel : Option ProcedureId) (a b : ProcedureId) : Bool :=
  let p := s.procedure a
  let q := s.procedure b
  if topLevel = some a then true
  else if topLevel = some b then false
  else p.line < q.line || (p.line == q.line && decide (p.name ≤ q.name))

/-- The procedures of a program. -/
def procedures (id : ProgramId) : List ProcedureId :=
  (s.reach s.allProcedures (s.rootProcedures id).reverse).mergeSort
    (s.procedureLe (s.program id).topLevel)

end Store

end ScriptEngine
