import ScriptEngine.Source
import ScriptEngine.Value

/-! # Instructions

The executable form of a procedure is a list of instructions for a machine with an operand stack: operands
are pushed before the call that consumes them. The offset of a branch counts from the branch itself, so a
list means the same wherever it stands in a longer one; one kind of offset leaves the procedure.
-/

namespace ScriptEngine

/-- When a branch is taken. The conditional ones pop a boolean. -/
inductive BranchKind where
  | always | ifTrue | ifFalse
deriving DecidableEq, Repr

/-- A call by name: one keyword tag for each argument on the stack, and the place that errors name. -/
structure CallSite where
  name : String
  keywords : List (Option String)
  place : Position
deriving DecidableEq, Repr

namespace CallSite

/-- A call with positional arguments only. -/
def positional (name : String) (count : Nat) (place : Position) : CallSite :=
  ⟨name, List.replicate count none, place⟩

def argc (site : CallSite) : Nat := site.keywords.length

end CallSite

/-- Where a branch leads, seen from the branch: so many instructions on, or out of the procedure. -/
inductive Offset where
  | exit
  | relative (n : Int)
deriving DecidableEq, Repr

/-- The number that is written for the offset that leaves the procedure. No list is that long. -/
def returnOffset : Int := 2147483647

namespace Offset

/-- The offset that a number stands for where lists are written by hand. -/
def ofInt (n : Int) : Offset := if n = returnOffset then exit else relative n

instance : Coe Int Offset := ⟨ofInt⟩

/-- The number that is written for an offset. -/
def toInt : Offset → Int
  | exit => returnOffset
  | relative n => n

theorem toInt_ofInt (n : Int) : (ofInt n).toInt = n := by
  unfold ofInt
  split
  · next same => exact same.symm
  · rfl

end Offset

/-- The elements of an instruction list. -/
inductive Instruction where
  /-- Push a constant. -/
  | value (v : Value)
  /-- Push what a variable holds. -/
  | load (name : String) (place : Position)
  /-- Call by name without a receiver; `set` assigns a variable and pushes nothing. -/
  | call (site : CallSite)
  /-- Call by name on a receiver below the arguments. -/
  | send (site : CallSite)
  | branch (kind : BranchKind) (offset : Offset)
  /-- Stop here if the debugger asks for it; `index` is that of a marker of the program. -/
  | stop (index : Nat) (lines : Lines)
  /-- Drop the top of the stack. -/
  | discard
  /-- Open a guarded region whose handler stands at `offset`. -/
  | enterTry (offset : Offset)
  /-- Leave the innermost guarded region. -/
  | leaveTry
  /-- The first instruction of a handler: takes the error message from the stack. -/
  | caught (binding : Option String)

/-- Where a branch leads: to an index, which may be the end of the list, or out of the procedure. -/
inductive Landing where
  | index (n : Nat)
  | exit
deriving DecidableEq, Repr

/-- Where the offset of a branch at index `source` leads in a list of `size` instructions, if it does not
miss the list. -/
def landing? (source : Nat) (offset : Offset) (size : Nat) : Option Landing :=
  match offset with
  | .exit => some .exit
  | .relative n =>
    let target : Int := source + n
    if 0 ≤ target ∧ target ≤ size then some (.index target.toNat) else none

/-- The name of an instruction in listings. -/
def Instruction.mnemonic : Instruction → String
  | value _ => "VALUE"
  | load .. => "LOAD"
  | call _ => "CALL"
  | send _ => "SEND"
  | branch kind offset =>
    match offset, kind with
    | .exit, _ => "RETURN"
    | .relative _, .always => "JUMP"
    | .relative _, .ifTrue => "JUMP_IF_TRUE"
    | .relative _, .ifFalse => "JUMP_IF_FALSE"
  | stop .. => "BREAK"
  | discard => "DISCARD"
  | enterTry _ => "TRY"
  | leaveTry => "END_TRY"
  | caught _ => "CATCH"

/-- The mark in the names of variables that the compiler makes up. No identifier can hold it. -/
def hiddenMark : Char := '#'

/-- A variable that the compiler makes up for the `n`-th loop. -/
def hiddenName (role : String) (n : Nat) : String := s!"{role}#{n}"

/-- Whether a name is one that the compiler made up. -/
def isHidden (name : String) : Bool := name.toList.contains hiddenMark

end ScriptEngine
