import ScriptEngine.Lowering
import ScriptEngine.Proofs.Fragment

/-! # What compiling emits

Compiling as a function of the tree alone. The only thing that compiling threads from one statement to the
next is a numbering of loops, procedures, classes and markers, so the instructions of a statement depend on
the tree and on the numbers at which it starts. `Stmt.emit` and `Expr.emit` are those instructions,
`ModuleTree.definitions` are the procedures of a module in the order of their numbers, each still with the
tree of its body.
-/

namespace ScriptEngine

mutual

/-- The instructions that push the value of an expression. -/
def Expr.emit : Expr → List Instruction
  | .literal value => [.value value.toValue]
  | .variable name place => [.load name place]
  | .member receiver name place =>
    receiver.emit ++ [.value (.string name), .send (.positional "getMember" 1 place)]
  | .index receiver key place =>
    receiver.emit ++ key.emit ++ [.send (.positional "__getitem__" 1 place)]
  | .call name keywords args place => emitAll args ++ [.call ⟨name, keywords, place⟩]
  | .send receiver name keywords args place =>
    receiver.emit ++ emitAll args ++ [.send ⟨name, keywords, place⟩]
  | .unary op operand place => operand.emit ++ [.send (.positional op.method 0 place)]
  | .binary op left right place =>
    left.emit ++ right.emit ++ [.send (.positional op.method 1 place)]
  | .both left right => Fragment.shortCircuit .ifFalse false left.emit right.emit
  | .either left right => Fragment.shortCircuit .ifTrue true left.emit right.emit
  | .pair first second place =>
    first.emit ++ second.emit ++ [.call (.positional "__pair__" 2 place)]
  | .list items place => emitAll items ++ [.call (.positional "__list__" items.length place)]
  | .map entries place => emitAll entries ++ [.call (.positional "__map__" entries.length place)]
  | .group inner => inner.emit

/-- The instructions that push the values of expressions in order. -/
def emitAll : List Expr → List Instruction
  | [] => []
  | e :: rest => e.emit ++ emitAll rest

end

mutual

theorem Expr.lower_eq (e : Expr) : e.lower = Code.ofList e.emit := by
  cases e with
  | literal value => rfl
  | «variable» name place => rfl
  | member receiver name place =>
    simp [Expr.lower, Expr.emit, receiver.lower_eq, Code.value_eq, Code.send_eq]
  | index receiver key place =>
    simp [Expr.lower, Expr.emit, receiver.lower_eq, key.lower_eq, Code.send_eq]
  | call name keywords args place =>
    simp [Expr.lower, Expr.emit, lowerAll_eq args, Code.push_eq]
  | send receiver name keywords args place =>
    simp [Expr.lower, Expr.emit, receiver.lower_eq, lowerAll_eq args, Code.push_eq]
  | unary op operand place => simp [Expr.lower, Expr.emit, operand.lower_eq, Code.send_eq]
  | binary op left right place =>
    simp [Expr.lower, Expr.emit, left.lower_eq, right.lower_eq, Code.send_eq]
  | both left right =>
    rw [Expr.lower, left.lower_eq, right.lower_eq, Code.shortCircuit_ofList, Expr.emit]
  | either left right =>
    rw [Expr.lower, left.lower_eq, right.lower_eq, Code.shortCircuit_ofList, Expr.emit]
  | pair first second place =>
    simp [Expr.lower, Expr.emit, first.lower_eq, second.lower_eq, Code.call_eq]
  | list items place => simp [Expr.lower, Expr.emit, lowerAll_eq items, Code.call_eq]
  | map entries place => simp [Expr.lower, Expr.emit, lowerAll_eq entries, Code.call_eq]
  | group inner => rw [Expr.lower, inner.lower_eq, Expr.emit]

theorem lowerAll_eq (es : List Expr) : lowerAll es = Code.ofList (emitAll es) := by
  cases es with
  | nil => rfl
  | cons e rest => rw [lowerAll, e.lower_eq, lowerAll_eq rest, Code.ofList_append, emitAll]

end

/-- The instructions that assign what `value` computes to a target. -/
def Target.emit (value : List Instruction) (place : Position) : Target → List Instruction
  | .variable name _ => Fragment.assign name value place
  | .member receiver name here =>
    receiver.emit ++ .value (.string name) :: value ++
      [.send (.positional "setMember" 2 here), .discard]
  | .index receiver key here =>
    receiver.emit ++ key.emit ++ value ++ [.send (.positional "__setitem__" 2 here), .discard]

theorem Target.lower_eq (t : Target) (value : List Instruction) (place : Position) :
    t.lower (Code.ofList value) place = Code.ofList (t.emit value place) := by
  cases t with
  | «variable» name here => exact Code.assign_ofList ..
  | member receiver name here =>
    simp [Target.lower, Target.emit, receiver.lower_eq, Code.value_eq, Code.send_eq, Code.discard_eq]
  | index receiver key here =>
    simp [Target.lower, Target.emit, receiver.lower_eq, key.lower_eq, Code.send_eq, Code.discard_eq]

/-- How many loops, procedures, classes and markers have been numbered. -/
structure Numbering where
  loops : Nat
  procedures : Nat
  classes : Nat
  markers : Nat
deriving DecidableEq, Repr

namespace Numbering

def start : Numbering := ⟨0, 0, 0, 0⟩

def loop (ν : Numbering) : Numbering := { ν with loops := ν.loops + 1 }

def procedure (ν : Numbering) : Numbering := { ν with procedures := ν.procedures + 1 }

def classDef (ν : Numbering) : Numbering := { ν with classes := ν.classes + 1 }

def mark (ν : Numbering) : Numbering := { ν with markers := ν.markers + 1 }

end Numbering

mutual

/-- The numbering after a statement. -/
def Stmt.after (ν : Numbering) : Stmt → Numbering
  | .eval .. | .assign .. | .ret .. => ν.mark
  | .branch _ _ body otherwise => otherwise.after (blockAfter ν.mark body)
  | .whileLoop _ _ body => blockAfter ν.mark body
  | .forLoop _ _ _ _ body => blockAfter ν.mark.loop body
  | .guarded _ body _ handler => blockAfter (blockAfter ν.mark body) handler
  | .define _ _ _ body => (blockAfter ν.mark body).procedure

/-- The numbering after some statements. -/
def blockAfter (ν : Numbering) : List Stmt → Numbering
  | [] => ν
  | s :: rest => blockAfter (s.after ν) rest

/-- The numbering after the arms of a conditional behind the first. -/
def Otherwise.after (ν : Numbering) : Otherwise → Numbering
  | .nothing => ν
  | .block body => blockAfter ν body
  | .branch _ body otherwise => otherwise.after (blockAfter ν body)

end

/-- The marker of a statement, if markers are wanted. -/
def LoweringOptions.emitMark (o : LoweringOptions) (ν : Numbering) (lines : Lines) :
    List Instruction :=
  if o.breakpoints then [.stop ν.markers lines] else []

mutual

/-- The instructions of a statement whose numbers start at `ν`. -/
def Stmt.emit (o : LoweringOptions) (ν : Numbering) : Stmt → List Instruction
  | .eval lines value => o.emitMark ν lines ++ (value.emit ++ [.discard])
  | .assign lines target value place => o.emitMark ν lines ++ target.emit value.emit place
  | .ret lines value =>
    let result := match value with
      | some value => value.emit
      | none => [.value .null]
    o.emitMark ν lines ++ (result ++ [.branch .always .exit])
  | .branch line condition body otherwise =>
    o.emitMark ν ⟨line, line⟩ ++ Fragment.conditional condition.emit (emitBlock o ν.mark body)
      (otherwise.emit o (blockAfter ν.mark body))
  | .whileLoop line condition body =>
    o.emitMark ν ⟨line, line⟩ ++ Fragment.whileLoop condition.emit (emitBlock o ν.mark body)
  | .forLoop place name namePlace items body =>
    o.emitMark ν ⟨place.line, place.line⟩ ++
      Fragment.forLoop ν.loops place name namePlace items.emit (emitBlock o ν.mark.loop body)
  | .guarded line body binding handler =>
    o.emitMark ν ⟨line, line⟩ ++ Fragment.guarded (emitBlock o ν.mark body) binding
      (emitBlock o (blockAfter ν.mark body) handler)
  | .define place name _ body =>
    let id : ProcedureId := ⟨o.program, (blockAfter ν.mark body).procedures⟩
    o.emitMark ν ⟨place.line, place.line⟩ ++ Fragment.assign name [.value (.procedure id)] place

/-- The instructions of statements in order. -/
def emitBlock (o : LoweringOptions) (ν : Numbering) : List Stmt → List Instruction
  | [] => []
  | s :: rest => s.emit o ν ++ emitBlock o (s.after ν) rest

/-- The instructions of the arms of a conditional behind the first, if there are any. -/
def Otherwise.emit (o : LoweringOptions) (ν : Numbering) : Otherwise → Option (List Instruction)
  | .nothing => none
  | .block body => some (emitBlock o ν body)
  | .branch condition body otherwise =>
    some (Fragment.conditional condition.emit (emitBlock o ν body)
      (otherwise.emit o (blockAfter ν body)))

end

def Instruction.isStop : Instruction → Bool
  | .stop .. => true
  | _ => false

/-- The number of instructions that are no markers. -/
def paces (is : List Instruction) : Nat := is.countP fun i => !i.isStop

@[simp] theorem paces_nil : paces [] = 0 := rfl

@[simp] theorem paces_append (a b : List Instruction) : paces (a ++ b) = paces a + paces b :=
  List.countP_append

@[simp] theorem paces_cons (i : Instruction) (is : List Instruction) :
    paces (i :: is) = paces is + if i.isStop then 0 else 1 := by
  cases stops : i.isStop <;> simp [paces, stops]

end ScriptEngine
