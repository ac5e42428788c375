/-! # Tables of named entries

Finite maps from names, as association lists in which no name occurs twice. Writing a name that is present
replaces its entry in place; reading after writing is the whole specification.
-/

namespace ScriptEngine

/-- Entries by name. -/
structure Table (α : Type) where
  entries : List (String × α)

namespace Table

variable {α : Type}

def empty : Table α := ⟨[]⟩

instance : Inhabited (Table α) := ⟨empty⟩

/-- The entry of a name in a list of entries. -/
def find? (name : String) : List (String × α) → Option α
  | [] => none
  | (n, a) :: rest => if n = name then some a else find? name rest

/-- The entries with that of a name replaced, or added at the end. -/
def put (name : String) (a : α) : List (String × α) → List (String × α)
  | [] => [(name, a)]
  | (n, b) :: rest => if n = name then (name, a) :: rest else (n, b) :: put name a rest

def get? (t : Table α) (name : String) : Option α := find? name t.entries

def set (t : Table α) (name : String) (a : α) : Table α := ⟨put name a t.entries⟩

def contains (t : Table α) (name : String) : Bool := (t.get? name).isSome

/-- A table of some entries; of two with one name the later one counts. -/
def ofList (entries : List (String × α)) : Table α :=
  entries.foldl (fun t (name, a) => t.set name a) empty

/-- The entries by name. -/
def sorted (t : Table α) : List (String × α) :=
  t.entries.mergeSort fun a b => decide (a.1 ≤ b.1)

theorem find?_put (name other : String) (a : α) (entries : List (String × α)) :
    find? other (put name a entries) = if other = name then some a else find? other entries := by
  induction entries with
  | nil => simp only [put, find?, eq_comm]
  | cons entry rest ih =>
    obtain ⟨n, b⟩ := entry
    by_cases here : n = name
    · subst here
      by_cases asked : other = n
      · subst asked
        simp only [put, find?, if_true]
      · simp only [put, find?, if_true, if_neg asked, if_neg (Ne.symm asked)]
    · simp only [put, if_neg here, find?, ih]
      by_cases asked : n = other
      · subst asked
        simp only [if_true, if_neg here]
      · simp only [if_neg asked]

/-- What is true of all entries and of a new one stays true when that is put among them. -/
theorem forall_put {P : α → Prop} {name : String} {a : α} {entries : List (String × α)}
    (all : ∀ entry ∈ entries, P entry.2) (here : P a) : ∀ entry ∈ put name a entries, P entry.2 := by
  induction entries with
  | nil => simpa [put] using here
  | cons first rest ih =>
    obtain ⟨first_holds, others⟩ := List.forall_mem_cons.mp all
    rw [put]
    split
    · exact List.forall_mem_cons.mpr ⟨here, others⟩
    · exact List.forall_mem_cons.mpr ⟨first_holds, ih others⟩

/-- Reading after writing: the new entry under its name, and every other entry as before. -/
theorem get?_set (t : Table α) (name other : String) (a : α) :
    (t.set name a).get? other = if other = name then some a else t.get? other :=
  find?_put name other a t.entries

theorem contains_set (t : Table α) (name other : String) (a : α) :
    (t.set name a).contains other = (decide (other = name) || t.contains other) := by
  unfold contains
  rw [get?_set]
  split <;> simp [*]

end Table

end ScriptEngine
