import ScriptEngine.Code
import ScriptEngine.Program
import ScriptEngine.Tree.Parser

/-! # Lowering

Compiles a module to a program. An expression becomes code that leaves its value on the stack, a statement
becomes code that leaves the stack as it was. With breakpoints on, a marker stands before every statement;
markers, loops and procedures are numbered in source order.
-/

namespace ScriptEngine

mutual

/-- Code that pushes the value of an expression. -/
def Expr.lower : Expr → Code
  | .literal value => Code.value value.toValue
  | .variable name place => Code.load name place
  | .member receiver name place =>
    receiver.lower ++ Code.value (.string name) ++ Code.send "getMember" 1 place
  | .index receiver key place => receiver.lower ++ key.lower ++ Code.send "__getitem__" 1 place
  | .call name keywords args place => (lowerAll args).push (.call ⟨name, keywords, place⟩)
  | .send receiver name keywords args place =>
    (receiver.lower ++ lowerAll args).push (.send ⟨name, keywords, place⟩)
  | .unary op operand place => operand.lower ++ Code.send op.method 0 place
  | .binary op left right place => left.lower ++ right.lower ++ Code.send op.method 1 place
  | .both left right => Code.shortCircuit .ifFalse false left.lower right.lower
  | .either left right => Code.shortCircuit .ifTrue true left.lower right.lower
  | .pair first second place => first.lower ++ second.lower ++ Code.call "__pair__" 2 place
  | .list items place => lowerAll items ++ Code.call "__list__" items.length place
  | .map entries place => lowerAll entries ++ Code.call "__map__" entries.length place
  | .group inner => inner.lower

/-- Code that pushes the values of expressions in order. -/
def lowerAll : List Expr → Code
  | [] => .empty
  | e :: rest => e.lower ++ lowerAll rest

end

/-- Code that assigns to a target. A member or element assignment is a send whose result is dropped. -/
def Target.lower (value : Code) (place : Position) : Target → Code
  | .variable name _ => Code.assign name value place
  | .member receiver name here =>
    receiver.lower ++ Code.value (.string name) ++ value ++ Code.send "setMember" 2 here ++ Code.discard
  | .index receiver key here =>
    receiver.lower ++ key.lower ++ value ++ Code.send "__setitem__" 2 here ++ Code.discard

/-- What does not change while a module is compiled: the program it becomes, and whether markers are
wanted. -/
structure LoweringOptions where
  program : ProgramId
  breakpoints : Bool

/-- What compiling has produced so far. -/
structure Assembly where
  procedures : Array Procedure
  classes : Array ClassDef
  markers : Array Marker
  loops : Nat
deriving Inhabited

/-- A step of compiling. It fails only if a slot is left open. -/
abbrev Assembler := StateT Assembly (Except Fault)

namespace Assembler

variable (options : LoweringOptions)

/-- A marker for a statement, if markers are wanted. -/
def mark (lines : Lines) : Assembler Code := do
  if options.breakpoints then
    let s ← get
    set { s with markers := s.markers.push (.ofLines lines) }
    pure (Code.empty.push (.stop s.markers.size lines))
  else pure .empty

/-- The number of a loop. -/
def nextLoop : Assembler Nat := do
  let s ← get
  set { s with loops := s.loops + 1 }
  pure s.loops

/-- The list that a buffer holds; `place` is named if a slot is open. -/
def finish (code : Code) (place : Position) : Assembler (Array Instruction) :=
  match code.finish with
  | .ok instructions => pure instructions
  | .error cause => throw ⟨place, cause⟩

/-- Adds a procedure to the program. -/
def addProcedure (p : Procedure) : Assembler ProcedureId := do
  let s ← get
  set { s with procedures := s.procedures.push p }
  pure ⟨options.program, s.procedures.size⟩

/-- Adds the procedure of a function with the given body. -/
def addFunction (name : String) (params : List ParamTree) (owner : Option ClassId) (body : Code)
    (place : Position) : Assembler ProcedureId := do
  let code ← finish body place
  let params := params.map fun p => ⟨p.name, p.default.map Literal.toValue⟩
  addProcedure options ⟨name, params, code, place.line, owner⟩

mutual

/-- Code that runs a statement. -/
def lowerStmt : Stmt → Assembler Code
  | .eval lines value => do
    let marker ← mark options lines
    pure (marker ++ value.lower ++ Code.discard)
  | .assign lines target value place => do
    let marker ← mark options lines
    pure (marker ++ target.lower value.lower place)
  | .ret lines value => do
    let marker ← mark options lines
    let result := match value with
      | some value => value.lower
      | none => Code.value .null
    pure ((marker ++ result).push (.branch .always .exit))
  | .branch line condition body otherwise => do
    let marker ← mark options ⟨line, line⟩
    let body ← lowerBlock body
    let rest ← lowerOtherwise otherwise
    pure (marker ++ Code.conditional condition.lower body rest)
  | .whileLoop line condition body => do
    let marker ← mark options ⟨line, line⟩
    let body ← lowerBlock body
    pure (marker ++ Code.whileLoop condition.lower body)
  | .forLoop place name namePlace items body => do
    let marker ← mark options ⟨place.line, place.line⟩
    let n ← nextLoop
    let body ← lowerBlock body
    pure (marker ++ Code.forLoop n place name namePlace items.lower body)
  | .guarded line body binding handler => do
    let marker ← mark options ⟨line, line⟩
    let body ← lowerBlock body
    let handler ← lowerBlock handler
    pure (marker ++ Code.guarded body binding handler)
  | .define place name params body => do
    let marker ← mark options ⟨place.line, place.line⟩
    let body ← lowerBlock body
    let id ← addFunction options name params none body place
    pure (marker ++ Code.assign name (Code.value (.procedure id)) place)

/-- Code that runs statements in order. -/
def lowerBlock : List Stmt → Assembler Code
  | [] => pure .empty
  | s :: rest => do
    let first ← lowerStmt s
    let more ← lowerBlock rest
    pure (first ++ more)

/-- Code that runs the arms of a conditional after the first, if there are any. -/
def lowerOtherwise : Otherwise → Assembler (Option Code)
  | .nothing => pure none
  | .block body => do
    let body ← lowerBlock body
    pure (some body)
  | .branch condition body otherwise => do
    let body ← lowerBlock body
    let rest ← lowerOtherwise otherwise
    pure (some (Code.conditional condition.lower body rest))

end

def lowerFunction (f : FunctionTree) (name : String) (owner : Option ClassId) :
    Assembler ProcedureId := do
  let body ← lowerBlock options f.body
  addFunction options name f.params owner body f.place

/-- A class whose members are being compiled: its static procedures and methods, the code that sets up
its static fields, and the slots of that code that wait for the class itself. -/
structure ClassParts where
  statics : Bindings
  methods : Table ProcedureId
  setup : Code
  slots : List Nat

def lowerMember (name : String) (owner : ClassId) (parts : ClassParts) :
    MemberTree → Assembler ClassParts
  | .method f => do
    let id ← lowerFunction options f s!"{name}.{f.name}" owner
    pure { parts with methods := parts.methods.set f.name id }
  | .staticMethod f => do
    let id ← lowerFunction options f s!"{name}.{f.name}" owner
    pure { parts with statics := parts.statics.set f.name (.procedure id) }
  | .staticField lines field place value => do
    let marker ← mark options lines
    let (slot, code) := (parts.setup ++ marker).reserve .constant
    let code := code ++ Code.value (.string field) ++ value.lower ++ Code.send "setMember" 2 place
      ++ Code.discard
    pure { parts with setup := code, slots := slot :: parts.slots }

/-- Compiles a class. If it has static fields, a procedure of its own sets them up. -/
def lowerClass (c : ClassTree) : Assembler (ClassId × Option ProcedureId) := do
  let id : ClassId := ⟨options.program, (← get).classes.size⟩
  let parts ← c.members.foldlM (lowerMember options c.name id) ⟨.empty, .empty, .empty, []⟩
  modify fun s => { s with classes := s.classes.push ⟨c.name, parts.statics, parts.methods⟩ }
  let setup := parts.slots.foldl (fun code slot => code.fill slot (.classRef id)) parts.setup
  if setup.size = 0 then pure (id, none)
  else
    let code ← finish setup (.ofLine c.line)
    let procedure ← addProcedure options ⟨s!"{c.name}.<static>", [], code, c.line, some id⟩
    pure (id, some procedure)

/-- The top level of a module that is being compiled. -/
structure TopLevel where
  members : Bindings
  classSetups : List ProcedureId
  code : Code

def lowerItem (top : TopLevel) : Item → Assembler TopLevel
  | .function f => do
    let id ← lowerFunction options f f.name none
    pure { top with members := top.members.set f.name (.procedure id) }
  | .classDef c => do
    let (id, setup) ← lowerClass options c
    pure { top with
      members := top.members.set c.name (.classRef id)
      classSetups := top.classSetups ++ setup.toList }
  | .statement s => do
    let code ← lowerStmt options s
    pure { top with code := top.code ++ code }

/-- Compiles a module: its top-level code becomes the module procedure. -/
def lowerModule (m : ModuleTree) : Assembler ProgramParts := do
  let top ← m.items.foldlM (lowerItem options) ⟨.empty, [], .empty⟩
  let code ← finish top.code m.stop
  let id ← addProcedure options ⟨moduleProcedure, [], code, 1, none⟩
  let s ← get
  pure
    { procedures := s.procedures
      classes := s.classes
      members := top.members
      topLevel := some id
      classSetups := top.classSetups
      markers := s.markers }

end Assembler

/-- Compiles a module tree. -/
def ModuleTree.lower (m : ModuleTree) (options : LoweringOptions) : Except Fault ProgramParts := do
  let (parts, _) ← (Assembler.lowerModule options m).run default
  pure parts

/-- The program of a source text: compiled, or with the report of why it was refused. -/
def Program.ofSource (source file : String) (options : LoweringOptions) : Program :=
  let digest := SourceDigest.of source
  match ModuleTree.ofSource source >>= (·.lower options) with
  | .ok parts => .ofParts file digest parts
  | .error fault => .refused file digest (fault.report file source)

end ScriptEngine
