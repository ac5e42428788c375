import ScriptEngine.Instruction
import ScriptEngine.SyntaxError

/-! # Code under construction

A buffer of instructions in which some slots are still open: a forward branch whose target has not been
laid out, or a constant that does not exist yet. Offsets are relative, so a finished stretch can be appended
to another buffer anywhere. No list comes out while a slot is open.
-/

namespace ScriptEngine

/-- What an open slot will hold. -/
inductive Pending where
  | branch (kind : BranchKind)
  | guard
  | constant
deriving DecidableEq, Repr

/-- A place of a buffer. -/
inductive Slot where
  | ready (i : Instruction)
  | pending (p : Pending)

/-- A buffer of instructions and open slots. -/
structure Code where
  slots : Array Slot

namespace Code

def empty : Code := ⟨#[]⟩

def size (c : Code) : Nat := c.slots.size

def append (c d : Code) : Code := ⟨c.slots ++ d.slots⟩

instance : Append Code := ⟨append⟩

def push (c : Code) (i : Instruction) : Code := ⟨c.slots.push (.ready i)⟩

/-- Adds an open slot and yields its index. -/
def reserve (c : Code) (p : Pending) : Nat × Code := (c.size, ⟨c.slots.push (.pending p)⟩)

/-- Closes an open branch or guard so that it leads to `target`. -/
def patch (c : Code) (slot target : Nat) : Code :=
  let offset : Offset := .relative (target - slot)
  match c.slots[slot]? with
  | some (.pending (.branch kind)) => ⟨c.slots.setIfInBounds slot (.ready (.branch kind offset))⟩
  | some (.pending .guard) => ⟨c.slots.setIfInBounds slot (.ready (.enterTry offset))⟩
  | _ => c

/-- Closes an open branch or guard so that it leads to the next instruction. -/
def patchToEnd (c : Code) (slot : Nat) : Code := c.patch slot c.size

/-- Closes an open constant. -/
def fill (c : Code) (slot : Nat) (v : Value) : Code :=
  ⟨c.slots.setIfInBounds slot (.ready (.value v))⟩

/-- Adds a branch to an index that is already laid out. -/
def branchTo (c : Code) (kind : BranchKind) (target : Nat) : Code :=
  c.push (.branch kind (.relative (target - c.size)))

/-- The instructions of a slot list whose first slot has the index `i`. -/
def close (i : Nat) : List Slot → Except SyntaxError (List Instruction)
  | [] => .ok []
  | .ready instruction :: rest => (instruction :: ·) <$> close (i + 1) rest
  | .pending _ :: _ => .error (.unresolvedPlaceholder i)

/-- The finished list, if no slot is open. -/
def finish (c : Code) : Except SyntaxError (Array Instruction) := do
  let instructions ← close 0 c.slots.toList
  pure instructions.toArray

def value (v : Value) : Code := empty.push (.value v)

def load (name : String) (place : Position) : Code := empty.push (.load name place)

def call (name : String) (count : Nat) (place : Position) : Code :=
  empty.push (.call (.positional name count place))

def send (name : String) (count : Nat) (place : Position) : Code :=
  empty.push (.send (.positional name count place))

def discard : Code := empty.push .discard

/-- Assigns what `code` computes to a variable. -/
def assign (name : String) (code : Code) (place : Position) : Code :=
  value (.string name) ++ code ++ call "set" 2 place

/-- `left`, then `right` unless `left` decides: a value that branches under `kind` makes the whole
`decided`. -/
def shortCircuit (kind : BranchKind) (decided : Bool) (left right : Code) : Code :=
  let (short, code) := left.reserve (.branch kind)
  let (stop, code) := (code ++ right).reserve (.branch .always)
  let code := code.patchToEnd short ++ value (.bool decided)
  code.patchToEnd stop

/-- `body` if `condition` holds, and nothing or `rest` if it does not. -/
def conditional (condition body : Code) (rest : Option Code) : Code :=
  let (next, code) := condition.reserve (.branch .ifFalse)
  let code := code ++ body
  match rest with
  | none => code.patchToEnd next
  | some rest =>
    let (stop, code) := code.reserve (.branch .always)
    (code.patchToEnd next ++ rest).patchToEnd stop

/-- `body` as long as `condition` holds. -/
def whileLoop (condition body : Code) : Code :=
  let (exit, code) := condition.reserve (.branch .ifFalse)
  ((code ++ body).branchTo .always 0).patchToEnd exit

/-- `body`, and `handler` if an error escapes from it. -/
def guarded (body : Code) (binding : Option String) (handler : Code) : Code :=
  let (guard, code) := empty.reserve .guard
  let (stop, code) := ((code ++ body).push .leaveTry).reserve (.branch .always)
  let code := (code.patchToEnd guard).push (.caught binding)
  (code ++ handler).patchToEnd stop

/-- `body` for each element of what `items` computes, bound to `name`. The container and its size are
computed once; an index runs from zero to that size. The three hidden variables are those of the `n`-th
loop. -/
def forLoop (n : Nat) (place : Position) (name : String) (namePlace : Position)
    (items body : Code) : Code :=
  let container := hiddenName "iter" n
  let length := hiddenName "len" n
  let index := hiddenName "idx" n
  let zero := value (.number 0)
  let start := assign container items place
    ++ assign length (load container place ++ send "size" 0 place) place
    ++ assign index zero place
    ++ load length place ++ zero ++ send "__eq__" 1 place
  let (skip, code) := start.reserve (.branch .ifTrue)
  let top := code.size
  let (exit, code) := (code ++ load index place ++ load length place
    ++ send "__lt__" 1 place).reserve (.branch .ifFalse)
  let element := load container place ++ load index place ++ send "__index__" 1 place
  let advance := load index place ++ value (.number 1) ++ send "__add__" 1 place
  let code := code ++ assign name element namePlace ++ body ++ assign index advance place
  ((code.branchTo .always top).patchToEnd exit).patchToEnd skip

end Code

end ScriptEngine
