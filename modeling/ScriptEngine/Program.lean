import ScriptEngine.Digest
import ScriptEngine.Instruction
import ScriptEngine.SyntaxError

/-! # Programs

A loaded program owns its procedures and classes, the members that its top-level code reads and writes, the
modules that its host registered, and the markers at which a debugger can stop. A source text that was
refused makes a program too, which keeps the report and nothing else.
-/

namespace ScriptEngine

/-- A declared parameter with its default value. -/
structure Parameter where
  name : String
  default : Option Value

/-- A compiled procedure. `line` is that of the word that opened it; a procedure of a class sees the
statics of its owner as plain names. -/
structure Procedure where
  name : String
  params : List Parameter
  code : Array Instruction
  line : Nat
  owner : Option ClassId
deriving Inhabited

/-- A class: its static members, and its methods, which instances look up when they are called. -/
structure ClassDef where
  name : String
  statics : Bindings
  methods : Table ProcedureId
deriving Inhabited

/-- A place where a debugger can stop: `active` while a breakpoint is set on one of its lines, `enabled`
unless the host muted it. -/
structure Marker where
  lines : Lines
  active : Bool
  enabled : Bool
deriving DecidableEq, Repr

namespace Marker

/-- A marker as compiled. -/
def ofLines (lines : Lines) : Marker := ⟨lines, false, true⟩

/-- Whether a run stops here outside step mode. -/
def isArmed (m : Marker) : Bool := m.active && m.enabled

end Marker

/-- The name of the procedure that holds the top-level code. -/
def moduleProcedure : String := "<module>"

/-- What compiling a module yields. -/
structure ProgramParts where
  procedures : Array Procedure
  classes : Array ClassDef
  members : Bindings
  topLevel : Option ProcedureId
  classSetups : List ProcedureId
  markers : Array Marker
deriving Inhabited

/-- A loaded program. The latest registered module comes first; `released` once its host let go of it. -/
structure Program extends ProgramParts where
  file : String
  digest : SourceDigest
  modules : List Value
  failure : Option ParseError
  initialized : Bool
  released : Bool

namespace Program

def ofParts (file : String) (digest : SourceDigest) (parts : ProgramParts) : Program :=
  { parts with file, digest, modules := [], failure := none, initialized := false, released := false }

/-- The program of a refused source text. -/
def refused (file : String) (digest : SourceDigest) (failure : ParseError) : Program :=
  { ofParts file digest default with failure := some failure }

instance : Inhabited Program := ⟨ofParts "" .zero default⟩

/-- Sets or clears the breakpoints on a line: the program, and how many markers cover the line. -/
def setBreakpoint (p : Program) (line : Nat) (on : Bool) : Nat × Program :=
  let covered := p.markers.countP fun m => m.lines.covers line
  let markers := p.markers.map fun m => if m.lines.covers line then { m with active := on } else m
  (covered, { p with markers })

/-- Sets flags of the marker at an index, if there is one. -/
def setMarker (p : Program) (index : Nat) (active enabled : Option Bool) : Option Program :=
  p.markers[index]?.map fun m =>
    let m := { m with active := active.getD m.active, enabled := enabled.getD m.enabled }
    { p with markers := p.markers.setIfInBounds index m }

end Program

end ScriptEngine
