import ScriptEngine.Dict
import ScriptEngine.Program

/-! # The store

All that scripts can change or tell apart by identity: the loaded programs with their members and class
statics, and the cells of lists, maps, sets, instances, native functions and host objects. Reading a
reference that leads nowhere gives an empty cell; no operation makes such a reference.
-/

namespace ScriptEngine

/-- What a value contributes to finding it in a map: two keys agree in it whenever they are equal. -/
inductive HashCode where
  | null
  | bool (b : Bool)
  | number (bits : UInt64)
  | string (s : String)
  | pair (first second : HashCode)
  | method (procedure : ProcedureId) (receiver : HashCode)
  | procedure (id : ProcedureId)
  | classRef (id : ClassId)
  | cell (kind : CellKind) (index : Nat)
  | object (key : Nat)
deriving DecidableEq, Repr

/-- A value that can be a key, with its hash code. -/
structure Key where
  value : Value
  code : HashCode

/-- An instance of a class with its own members. -/
structure Instance where
  ofClass : ClassId
  members : Bindings
deriving Inhabited

/-- The functions that every script can call by name. -/
inductive Builtin where
  | print | str | len | range | list | map | set | pair | typeOf | raise | min | max
deriving DecidableEq, Repr

/-- What a native function runs: a function of the engine, or one of the host with the values that it was
made with. -/
inductive NativeBody where
  | builtin (b : Builtin)
  | host (captured : List Value)

/-- A named function that is not written in the script. -/
structure Native where
  name : String
  body : NativeBody

instance : Inhabited Native := ⟨⟨"", .host []⟩⟩

/-- A value of the host: its type name and the data that the host keeps in it. -/
structure HostObject where
  kind : String
  fields : Bindings
deriving Inhabited

/-- The objects that come from outside the script: bundles of named members, and values of the host. -/
inductive Object where
  | module (name : String) (members : Bindings)
  | host (object : HostObject)

instance : Inhabited Object := ⟨.host default⟩

/-- The type name of an object. -/
def Object.kind : Object → String
  | module .. => "module"
  | host object => object.kind

/-- Programs and cells. `pairs` counts the identities given to pairs. -/
structure Store where
  programs : Array Program
  lists : Array (Array Value)
  maps : Array (Dict Key Value)
  sets : Array (Dict Key Unit)
  instances : Array Instance
  natives : Array Native
  objects : Array Object
  pairs : Nat

namespace Store

def empty : Store := ⟨#[], #[], #[], #[], #[], #[], #[], 0⟩

instance : Inhabited Store := ⟨empty⟩

def program (s : Store) (id : ProgramId) : Program := s.programs.getD id default

def procedure (s : Store) (id : ProcedureId) : Procedure :=
  (s.program id.program).procedures.getD id.index default

def classDef (s : Store) (id : ClassId) : ClassDef :=
  (s.program id.program).classes.getD id.index default

def list (s : Store) (r : Ref .list) : Array Value := s.lists.getD r.index #[]

def map (s : Store) (r : Ref .map) : Dict Key Value := s.maps.getD r.index .empty

def set (s : Store) (r : Ref .set) : Dict Key Unit := s.sets.getD r.index .empty

def inst (s : Store) (r : Ref .inst) : Instance := s.instances.getD r.index default

/-- The class of an instance, which has no members if there is no such instance. -/
def classOf (s : Store) (r : Ref .inst) : ClassDef :=
  match s.instances[r.index]? with
  | some made => s.classDef made.ofClass
  | none => default

def native (s : Store) (r : Ref .native) : Native := s.natives.getD r.index default

def object (s : Store) (r : Ref .object) : Object := s.objects.getD r.index default

def addProgram (s : Store) (p : Program) : ProgramId × Store :=
  (s.programs.size, { s with programs := s.programs.push p })

def addList (s : Store) (items : Array Value) : Value × Store :=
  (.list ⟨s.lists.size⟩, { s with lists := s.lists.push items })

def addMap (s : Store) (d : Dict Key Value) : Value × Store :=
  (.map ⟨s.maps.size⟩, { s with maps := s.maps.push d })

def addSet (s : Store) (d : Dict Key Unit) : Value × Store :=
  (.set ⟨s.sets.size⟩, { s with sets := s.sets.push d })

def addInstance (s : Store) (i : Instance) : Value × Store :=
  (.inst ⟨s.instances.size⟩, { s with instances := s.instances.push i })

def addNative (s : Store) (f : Native) : Value × Store :=
  (.native ⟨s.natives.size⟩, { s with natives := s.natives.push f })

def addObject (s : Store) (o : Object) : Value × Store :=
  (.object ⟨s.objects.size⟩, { s with objects := s.objects.push o })

def addPair (s : Store) (first second : Value) : Value × Store :=
  (.pair s.pairs first second, { s with pairs := s.pairs + 1 })

def modifyProgram (s : Store) (id : ProgramId) (f : Program → Program) : Store :=
  { s with programs := s.programs.modify id f }

/-- What a program is after a change of one program. -/
theorem program_modifyProgram (s : Store) (p : ProgramId) (f : Program → Program) (id : ProgramId) :
    (s.modifyProgram p f).program id = s.program id ∨
      id = p ∧ (s.modifyProgram p f).program id = f (s.program id) := by
  unfold program modifyProgram
  simp only [Array.getD_eq_getD_getElem?, Array.getElem?_modify]
  split
  · next here =>
    cases s.programs[id]? with
    | none => exact .inl rfl
    | some q => exact .inr ⟨here.symm, rfl⟩
  · exact .inl rfl

def modifyList (s : Store) (r : Ref .list) (f : Array Value → Array Value) : Store :=
  { s with lists := s.lists.modify r.index f }

def modifyMap (s : Store) (r : Ref .map) (f : Dict Key Value → Dict Key Value) : Store :=
  { s with maps := s.maps.modify r.index f }

def modifySet (s : Store) (r : Ref .set) (f : Dict Key Unit → Dict Key Unit) : Store :=
  { s with sets := s.sets.modify r.index f }

def modifyObject (s : Store) (r : Ref .object) (f : Object → Object) : Store :=
  { s with objects := s.objects.modify r.index f }

/-- Writes a member of a program. -/
def define (s : Store) (id : ProgramId) (name : String) (v : Value) : Store :=
  s.modifyProgram id fun p => { p with members := p.members.set name v }

/-- Writes a static member of a class. -/
def setStatic (s : Store) (id : ClassId) (name : String) (v : Value) : Store :=
  s.modifyProgram id.program fun p =>
    { p with classes := p.classes.modify id.index fun c => { c with statics := c.statics.set name v } }

/-- Writes a member of an instance. -/
def setField (s : Store) (r : Ref .inst) (name : String) (v : Value) : Store :=
  { s with
    instances := s.instances.modify r.index fun i => { i with members := i.members.set name v } }

/-- The type name of a value, as error messages and scripts see it. -/
def typeName (s : Store) : Value → String
  | .null => "none"
  | .bool _ => "bool"
  | .number _ => "number"
  | .string _ => "string"
  | .list _ => "list"
  | .map _ => "map"
  | .set _ => "set"
  | .pair .. => "pair"
  | .procedure _ => "procedure"
  | .method .. => "method"
  | .native _ => "function"
  | .classRef _ => "class"
  | .inst r => (s.classOf r).name
  | .object r => (s.object r).kind

end Store

end ScriptEngine
