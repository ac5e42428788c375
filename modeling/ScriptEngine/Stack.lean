/-! # Stacks

Lists with the latest entry first that know their height, so that a bound on the height can be checked before
every push.
-/

namespace ScriptEngine

/-- The entries of a stack, top first, with their number. -/
structure Stack (α : Type) where
  items : List α
  height : Nat
  height_eq : height = items.length

namespace Stack

variable {α : Type}

def empty : Stack α := ⟨[], 0, rfl⟩

instance : Inhabited (Stack α) := ⟨empty⟩

def push (s : Stack α) (a : α) : Stack α :=
  ⟨a :: s.items, s.height + 1, by simp only [s.height_eq, List.length_cons]⟩

/-- The stack without its `count` latest entries. -/
def drop (s : Stack α) (count : Nat) : Stack α :=
  ⟨s.items.drop count, s.height - count, by simp only [s.height_eq, List.length_drop]⟩

/-- The stack without the entries above a height. -/
def truncate (s : Stack α) (height : Nat) : Stack α := s.drop (s.height - height)

def top? (s : Stack α) : Option α := s.items.head?

/-- The top, and the stack without it. -/
def pop? (s : Stack α) : Option (α × Stack α) := s.top?.map fun a => (a, s.drop 1)

/-- The `count` latest entries, in the order in which they were pushed. -/
def latest (s : Stack α) (count : Nat) : List α := (s.items.take count).reverse

/-- The entries, the earliest first. -/
def toList (s : Stack α) : List α := s.items.reverse

/-- Changes the top, if there is one. -/
def modifyTop (s : Stack α) (f : α → α) : Stack α :=
  match s.pop? with
  | some (a, rest) => rest.push (f a)
  | none => s

theorem pop?_push (s : Stack α) (a : α) : (s.push a).pop? = some (a, s) := by
  obtain ⟨items, height, height_eq⟩ := s
  rfl

theorem toList_push (s : Stack α) (a : α) : (s.push a).toList = s.toList ++ [a] := by
  simp only [toList, push, List.reverse_cons]

end Stack

end ScriptEngine
