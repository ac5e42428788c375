import ScriptEngine.Run.State

/-! # Computations of a run

A computation changes the state and yields a value or halts: with an error of its tier, or because the bound
on the length of the run is used up. The state survives either way. Computations on the store alone are a
layer of their own, so that their type shows what they cannot touch.
-/

namespace ScriptEngine

/-- Why a computation ends without a value. -/
inductive Halt (ε : Type) where
  | failed (error : ε)
  /-- The bound given to the run was too small to tell. -/
  | exhausted

/-- Another error in place of the one that a computation halted with. -/
def Halt.map {ε δ : Type} (f : ε → δ) : Halt ε → Halt δ
  | failed error => failed (f error)
  | exhausted => exhausted

/-- Computations on the store that fail with a cause. -/
abbrev StoreM := EStateM (Halt RuntimeError) Store

/-- Computations on the whole state that fail with an error of type `ε`. -/
abbrev Exec (ε : Type) := EStateM (Halt ε) State

namespace StoreM

variable {α : Type}

def fail (error : RuntimeError) : StoreM α := throw (.failed error)

def ofExcept : Except RuntimeError α → StoreM α
  | .ok a => pure a
  | .error e => fail e

/-- A value that is there unless the run can never end. -/
def ofOption : Option α → StoreM α
  | some a => pure a
  | none => throw .exhausted

/-- Reads the store. -/
def read (f : Store → α) : StoreM α := do
  let s ← get
  pure (f s)

/-- Adds to the store and yields what was added. -/
def allocate (f : Store → α × Store) : StoreM α := fun s =>
  let (a, s) := f s
  .ok a s

end StoreM

namespace Exec

variable {ε δ α : Type}

def fail (error : ε) : Exec ε α := throw (.failed error)

def ofExcept : Except ε α → Exec ε α
  | .ok a => pure a
  | .error e => fail e

/-- A computation on the store as one on the whole state. -/
def ofStore (x : StoreM α) : Exec RuntimeError α := fun ⟨store, control⟩ =>
  match x store with
  | .ok a store => .ok a ⟨store, control⟩
  | .error halt store => .error halt ⟨store, control⟩

/-- Another error in place of the one that a computation fails with. -/
def mapError (f : ε → δ) (x : Exec ε α) : Exec δ α := fun s =>
  match x s with
  | .ok a s => .ok a s
  | .error halt s => .error (halt.map f) s

/-- Adds to the store and yields what was added. -/
def allocate (f : Store → α × Store) : Exec ε α := fun ⟨store, control⟩ =>
  let (a, store) := f store
  .ok a ⟨store, control⟩

/-- Reads the store. -/
def readStore (f : Store → α) : Exec ε α := do
  let s ← get
  pure (f s.store)

/-- Reads the control state. -/
def readControl (f : Control → α) : Exec ε α := do
  let s ← get
  pure (f s.control)

def modifyStore (f : Store → Store) : Exec ε Unit :=
  modify fun ⟨store, control⟩ => ⟨f store, control⟩

def modifyControl (f : Control → Control) : Exec ε Unit :=
  modify fun ⟨store, control⟩ => ⟨store, f control⟩

/-- Runs a computation that holds something until it is over. -/
def holding (h : Hold) (x : Exec ε α) : Exec ε α := fun ⟨store, control⟩ =>
  match x ⟨store, control.hold h⟩ with
  | .ok a ⟨store, control⟩ => .ok a ⟨store, control.letGo⟩
  | .error halt ⟨store, control⟩ => .error halt ⟨store, control.letGo⟩

/-- Changes the control state by a step that can fail. -/
def tryControl (f : Control → Except ε Control) : Exec ε Unit := do
  let s ← get
  match f s.control with
  | .ok control => set { s with control }
  | .error e => fail e

end Exec

end ScriptEngine
