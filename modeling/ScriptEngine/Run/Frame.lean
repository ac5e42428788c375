import ScriptEngine.Call.Arguments
import ScriptEngine.Run.Lifetime

/-! # Frames

One call of a procedure: its variables, its operand stack, and the guarded regions that it has open. A name
means, in this order, a variable of the frame, a static of the procedure's class, or a member of the
program; assignment writes where the name is found, and a new name becomes a variable of a procedure but a
member when top-level code runs. A frame holds the class of its procedure if there still is one when the
procedure is entered.
-/

namespace ScriptEngine

/-- The variables that a frame owns. Top-level code and class setup own only those that the compiler made
up. -/
inductive Locals where
  | procedure (table : Bindings)
  | topLevel (hidden : Bindings)

/-- An open guarded region: the index of its handler and the height of the stack when it was opened. -/
structure Handler where
  target : Nat
  depth : Nat
deriving DecidableEq, Repr

/-- A call in progress. The handlers have the latest entry first; `owner` is the class
whose statics the frame sees, and `place` is that of the last instruction that had one. -/
structure Frame where
  procedure : Procedure
  owner : Option ClassId
  program : ProgramId
  file : String
  locals : Locals
  stack : Stack Value
  handlers : List Handler
  pc : Nat
  place : Position
  maxStack : Nat

/-- Where an error is reported that has no instruction of its own. -/
structure Site where
  file : String
  place : Position
deriving DecidableEq, Repr

namespace Site

/-- Calls made by the host. -/
def host : Site := ⟨"<host>", ⟨0, 0⟩⟩

def locate (site : Site) (error : RuntimeError) : ScriptError :=
  .located site.file site.place error

end Site

namespace Locals

/-- The variables as a table. -/
def table : Locals → Bindings
  | procedure table => table
  | topLevel hidden => hidden

/-- The frame's own variable of a name. -/
def get? (locals : Locals) (name : String) : Option Value := locals.table.get? name

end Locals

namespace Frame

/-- A frame before its first instruction. -/
def enter (s : State) (p : Procedure) (program : ProgramId) (locals : Locals) : Frame where
  procedure := p
  owner := s.ownerOf? p locals.table
  program := program
  file := (s.store.program program).file
  locals := locals
  stack := .empty
  handlers := []
  pc := 0
  place := .ofLine p.line
  maxStack := s.control.limits.stackDepth

/-- What a frame holds while it waits for a computation. -/
def hold (f : Frame) : Hold := ⟨f.stack.items, f.locals.table, f.owner⟩

def site (f : Frame) : Site := ⟨f.file, f.place⟩

def locate (f : Frame) (error : RuntimeError) : ScriptError := f.site.locate error

/-- A broken invariant found at the current instruction. -/
def broken (f : Frame) (what : String) : ScriptError :=
  .internal s!"{what} in {f.procedure.name} at instruction {f.pc}"

/-- The static member that a name means in the class of the frame. -/
def static? (f : Frame) (s : Store) (name : String) : Option Value :=
  f.owner.bind fun owner => (s.classDef owner).statics.get? name

/-- What a name means in a frame. -/
def lookup (f : Frame) (s : Store) (name : String) : Option Value :=
  f.locals.get? name <|> f.static? s name <|> (s.program f.program).members.get? name

/-- The class of the frame if it has a static member of a name. -/
def staticOwner? (f : Frame) (s : Store) (name : String) : Option ClassId :=
  f.owner.filter fun owner => (s.classDef owner).statics.contains name

/-- Assigns a name. -/
def assign (f : Frame) (s : Store) (name : String) (v : Value) : Frame × Store :=
  match f.locals with
  | .topLevel hidden =>
    if isHidden name then ({ f with locals := .topLevel (hidden.set name v) }, s)
    else match f.staticOwner? s name with
      | some owner => (f, s.setStatic owner name v)
      | none => (f, s.define f.program name v)
  | .procedure table =>
    if table.contains name then
      ({ f with locals := .procedure (table.set name v) }, s)
    else match f.staticOwner? s name with
      | some owner => (f, s.setStatic owner name v)
      | none =>
        if (s.program f.program).members.contains name then (f, s.define f.program name v)
        else ({ f with locals := .procedure (table.set name v) }, s)

/-- The variables of a frame that the host may see, by name. -/
def visible (f : Frame) (s : Store) : List (String × Value) :=
  match f.locals with
  | .procedure table => table.sorted.filter fun entry => !isHidden entry.1
  | .topLevel _ => (s.program f.program).members.sorted

/-- The entry of the call stack for a frame that has just been entered. -/
def record (f : Frame) : CallRecord := ⟨f.procedure.name, f.file, f.procedure.line, []⟩

end Frame

end ScriptEngine
