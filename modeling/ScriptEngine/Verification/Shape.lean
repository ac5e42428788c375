import ScriptEngine.Verification.Finding

/-! # The shape of an instruction list

Limits on size, targets of branches and guarded regions, and the calls whose number of arguments is fixed.
-/

namespace ScriptEngine.Verification

def maxInstructions : Nat := 65536

def maxArguments : Nat := 255

/-- The instructions of a code with their indices. -/
def indexed (code : Array Instruction) : List (Instruction × Nat) := code.toList.zipIdx

/-- The flaws that a check finds in a code, with their indices. -/
def flaws (code : Array Instruction) (check : Instruction → Nat → List Flaw) : List (Nat × Flaw) :=
  (indexed code).flatMap fun (i, index) => (check i index).map fun what => (index, what)

/-- The call site of an instruction that calls by name. -/
def callSite? : Instruction → Option CallSite
  | .call site | .send site => some site
  | _ => none

/-- Calls with too many arguments. -/
def argumentLimit (i : Instruction) (_ : Nat) : List Flaw :=
  match callSite? i with
  | some site => if site.argc > maxArguments then [.tooManyArguments site.argc maxArguments] else []
  | none => []

/-- The number of arguments that a call has whenever the compiler makes it. -/
def reservedArity? : Instruction → Option Nat
  | .call site => if site.name = "set" then some 2 else none
  | .send site =>
    if site.name = "getMember" then some 1
    else if site.name = "setMember" then some 2
    else none
  | _ => none

/-- A reserved call with another number of arguments. -/
def arityFlaws (i : Instruction) : List Flaw :=
  match callSite? i, reservedArity? i with
  | some site, some expected =>
    if site.argc ≠ expected then [.reservedArity site.name expected site.argc] else []
  | _, _ => []

/-- The names of a list that occurred in it before, at each place where they do. -/
def repeated (seen : List String) : List String → List String
  | [] => []
  | name :: rest => if name ∈ seen then name :: repeated seen rest else repeated (name :: seen) rest

/-- Keywords that a call gives twice. -/
def keywordFlaws (i : Instruction) : List Flaw :=
  match callSite? i with
  | some site => (repeated [] (site.keywords.filterMap id)).map .duplicateKeyword
  | none => []

/-- The index of the handler that an instruction opens a region for. -/
def handler? (code : Array Instruction) (i : Instruction) (index : Nat) : Option Nat :=
  match i with
  | .enterTry offset =>
    match landing? index offset code.size with
    | some (.index target) => if target < code.size then some target else none
    | _ => none
  | _ => none

def isCaught : Instruction → Bool
  | .caught _ => true
  | _ => false

/-- Branches and regions that lead nowhere. -/
def targetFlaws (code : Array Instruction) (i : Instruction) (index : Nat) : List Flaw :=
  match i with
  | .branch _ offset =>
    if (landing? index offset code.size).isNone then [.branchOutOfRange offset] else []
  | .enterTry offset =>
    match (handler? code i index).bind (code[·]?) with
    | some found => if isCaught found then [] else [.handlerNotCatch found.mnemonic]
    | none => [.handlerOutOfRange offset]
  | _ => []

/-- What is wrong with the shape of a single instruction. -/
def shapeFlaws (code : Array Instruction) (i : Instruction) (index : Nat) : List Flaw :=
  targetFlaws code i index ++ arityFlaws i ++ keywordFlaws i

/-- The handlers of a code that some region leads to. -/
def handled (code : Array Instruction) : List Nat :=
  (indexed code).filterMap fun (i, index) => handler? code i index

/-- Handlers that no region leads to. -/
def orphanFlaws (handled : List Nat) (i : Instruction) (index : Nat) : List Flaw :=
  if isCaught i && !handled.contains index then [.orphanCatch] else []

/-- The flaws of the shape of a code. -/
def shape (code : Array Instruction) : List (Nat × Flaw) :=
  flaws code (shapeFlaws code) ++ flaws code (orphanFlaws (handled code))

def isEnterTry : Instruction → Bool
  | .enterTry _ => true
  | _ => false

def isLeaveTry : Instruction → Bool
  | .leaveTry => true
  | _ => false

end ScriptEngine.Verification
