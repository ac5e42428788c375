import ScriptEngine.Proofs.Emission

/-! # The procedures of a module

The procedures that a module compiles to, before they are instructions: name, parameters and the tree of the
body, in the order in which procedures are numbered. `ModuleTree.lower_eq` says that compiling a tree never
fails and that the procedures, classes and members it yields are read off the tree. In particular no slot
stays open in any of them.
-/

namespace ScriptEngine

/-- A stretch of a body: statements, or a static field of a class to be set. -/
inductive Piece where
  | block (ν : Numbering) (body : List Stmt)
  | field (ν : Numbering) (owner : ClassId) (lines : Lines) (name : String) (place : Position)
      (value : Expr)

/-- The instructions of a stretch. -/
def Piece.emit (o : LoweringOptions) : Piece → List Instruction
  | .block ν body => emitBlock o ν body
  | .field ν owner lines name place value =>
    o.emitMark ν lines ++ (.value (.classRef owner) :: .value (.string name) :: value.emit ++
      [.send (.positional "setMember" 2 place), .discard])

/-- The instructions of a whole body. -/
def emitPieces (o : LoweringOptions) (body : List Piece) : List Instruction :=
  body.flatMap (Piece.emit o)

/-- A procedure with the tree of its body. -/
structure Definition where
  name : String
  params : List ParamTree
  owner : Option ClassId
  line : Nat
  body : List Piece

/-- A declared parameter as compiled. -/
def ParamTree.parameter (p : ParamTree) : Parameter := ⟨p.name, p.default.map Literal.toValue⟩

/-- The procedure that a definition compiles to. -/
def Definition.procedure (o : LoweringOptions) (d : Definition) : Procedure :=
  ⟨d.name, d.params.map ParamTree.parameter, (emitPieces o d.body).toArray, d.line, d.owner⟩

mutual

/-- The procedures that a statement defines. -/
def Stmt.definitions (ν : Numbering) : Stmt → List Definition
  | .eval .. | .assign .. | .ret .. => []
  | .branch _ _ body otherwise =>
    blockDefinitions ν.mark body ++ otherwise.definitions (blockAfter ν.mark body)
  | .whileLoop _ _ body => blockDefinitions ν.mark body
  | .forLoop _ _ _ _ body => blockDefinitions ν.mark.loop body
  | .guarded _ body _ handler =>
    blockDefinitions ν.mark body ++ blockDefinitions (blockAfter ν.mark body) handler
  | .define place name params body =>
    blockDefinitions ν.mark body ++ [⟨name, params, none, place.line, [.block ν.mark body]⟩]

/-- The procedures that some statements define. -/
def blockDefinitions (ν : Numbering) : List Stmt → List Definition
  | [] => []
  | s :: rest => s.definitions ν ++ blockDefinitions (s.after ν) rest

/-- The procedures that the arms of a conditional behind the first define. -/
def Otherwise.definitions (ν : Numbering) : Otherwise → List Definition
  | .nothing => []
  | .block body => blockDefinitions ν body
  | .branch _ body otherwise =>
    blockDefinitions ν body ++ otherwise.definitions (blockAfter ν body)

end

namespace FunctionTree

def after (f : FunctionTree) (ν : Numbering) : Numbering := (blockAfter ν f.body).procedure

/-- The number of the procedure of a function. -/
def id (f : FunctionTree) (program : ProgramId) (ν : Numbering) : ProcedureId :=
  ⟨program, (blockAfter ν f.body).procedures⟩

/-- The procedures of a function under a name: those that its body defines, and its own. -/
def definitions (f : FunctionTree) (name : String) (owner : Option ClassId) (ν : Numbering) :
    List Definition :=
  blockDefinitions ν f.body ++ [⟨name, f.params, owner, f.place.line, [.block ν f.body]⟩]

end FunctionTree

namespace MemberTree

def after (ν : Numbering) : MemberTree → Numbering
  | .method f | .staticMethod f => f.after ν
  | .staticField .. => ν.mark

def definitions (className : String) (owner : ClassId) (ν : Numbering) :
    MemberTree → List Definition
  | .method f | .staticMethod f => f.definitions s!"{className}.{f.name}" owner ν
  | .staticField .. => []

/-- The static member that a class member makes before any code runs. -/
def addStatic (program : ProgramId) (ν : Numbering) (statics : Bindings) : MemberTree → Bindings
  | .staticMethod f => statics.set f.name (.procedure (f.id program ν))
  | _ => statics

def addMethod (program : ProgramId) (ν : Numbering) (methods : Table ProcedureId) :
    MemberTree → Table ProcedureId
  | .method f => methods.set f.name (f.id program ν)
  | _ => methods

/-- The code that sets a static field. -/
def fields (owner : ClassId) (ν : Numbering) : MemberTree → List Piece
  | .staticField lines field place value => [.field ν owner lines field place value]
  | _ => []

end MemberTree

/-- What the members of a class come to: the numbering after them, their procedures, and the statics,
methods and fields they add. -/
structure MemberSummary where
  after : Numbering
  definitions : List Definition
  statics : Bindings
  methods : Table ProcedureId
  fields : List Piece

/-- Adds a member to the summary of those before it. -/
def MemberSummary.add (className : String) (owner : ClassId) (s : MemberSummary) (m : MemberTree) :
    MemberSummary where
  after := m.after s.after
  definitions := s.definitions ++ m.definitions className owner s.after
  statics := m.addStatic owner.program s.after s.statics
  methods := m.addMethod owner.program s.after s.methods
  fields := s.fields ++ m.fields owner s.after

namespace ClassTree

def id (program : ProgramId) (ν : Numbering) : ClassId := ⟨program, ν.classes⟩

/-- The members of a class whose numbers start at `ν`. -/
def summary (c : ClassTree) (program : ProgramId) (ν : Numbering) : MemberSummary :=
  c.members.foldl (MemberSummary.add c.name (id program ν)) ⟨ν, [], .empty, .empty, []⟩

def classDef (c : ClassTree) (program : ProgramId) (ν : Numbering) : ClassDef :=
  ⟨c.name, (c.summary program ν).statics, (c.summary program ν).methods⟩

/-- The procedure that sets the static fields of a class, if it has any. -/
def setup (c : ClassTree) (program : ProgramId) (ν : Numbering) : List Definition :=
  match (c.summary program ν).fields with
  | [] => []
  | fields => [⟨s!"{c.name}.<static>", [], some (id program ν), c.line, fields⟩]

def definitions (c : ClassTree) (program : ProgramId) (ν : Numbering) : List Definition :=
  (c.summary program ν).definitions ++ c.setup program ν

def setupIds (c : ClassTree) (program : ProgramId) (ν : Numbering) : List ProcedureId :=
  (c.setup program ν).map fun _ => ⟨program, (c.summary program ν).after.procedures⟩

def after (c : ClassTree) (program : ProgramId) (ν : Numbering) : Numbering :=
  let ν' := (c.summary program ν).after
  { ν' with
    classes := ν'.classes + 1
    procedures := ν'.procedures + (c.setup program ν).length }

end ClassTree

/-- What the items of a module come to. -/
structure ItemSummary where
  after : Numbering
  definitions : List Definition
  classes : List ClassDef
  members : Bindings
  setups : List ProcedureId
  body : List Piece

/-- Adds an item to the summary of those before it. -/
def ItemSummary.add (program : ProgramId) (s : ItemSummary) : Item → ItemSummary
  | .function f =>
    { s with
      after := f.after s.after
      definitions := s.definitions ++ f.definitions f.name none s.after
      members := s.members.set f.name (.procedure (f.id program s.after)) }
  | .classDef c =>
    { s with
      after := c.after program s.after
      definitions := s.definitions ++ c.definitions program s.after
      classes := s.classes ++ [c.classDef program s.after]
      members := s.members.set c.name (.classRef (ClassTree.id program s.after))
      setups := s.setups ++ c.setupIds program s.after }
  | .statement t =>
    { s with
      after := t.after s.after
      definitions := s.definitions ++ t.definitions s.after
      body := s.body ++ [.block s.after [t]] }

namespace ModuleTree

def summary (m : ModuleTree) (program : ProgramId) : ItemSummary :=
  m.items.foldl (ItemSummary.add program) ⟨.start, [], [], .empty, [], []⟩

/-- The procedures of a module by number; the last one is the top-level code. -/
def definitions (m : ModuleTree) (program : ProgramId) : List Definition :=
  (m.summary program).definitions ++ [⟨moduleProcedure, [], none, 1, (m.summary program).body⟩]

end ModuleTree

end ScriptEngine
