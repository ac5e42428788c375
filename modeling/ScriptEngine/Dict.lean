/-! # Maps up to a comparison

The storage of script maps and sets: entries in the order of insertion, found by a comparison of keys that
is handed to every operation. Writing to a key that is present keeps the key that was stored first.
-/

namespace ScriptEngine

/-- Keys with what they map to. -/
structure Dict (κ α : Type) where
  entries : List (κ × α)

namespace Dict

variable {κ α : Type} (same : κ → κ → Bool)

def empty : Dict κ α := ⟨[]⟩

instance : Inhabited (Dict κ α) := ⟨empty⟩

def size (d : Dict κ α) : Nat := d.entries.length

/-- The entries with the one of a key replaced, or added at the end. -/
def put (key : κ) (a : α) : List (κ × α) → List (κ × α)
  | [] => [(key, a)]
  | (k, b) :: rest => if same k key then (k, a) :: rest else (k, b) :: put key a rest

def get? (d : Dict κ α) (key : κ) : Option α :=
  (d.entries.find? fun entry => same entry.1 key).map (·.2)

def contains (d : Dict κ α) (key : κ) : Bool := d.entries.any fun entry => same entry.1 key

def insert (d : Dict κ α) (key : κ) (a : α) : Dict κ α := ⟨put same key a d.entries⟩

def erase (d : Dict κ α) (key : κ) : Dict κ α := ⟨d.entries.eraseP fun entry => same entry.1 key⟩

def keys (d : Dict κ α) : List κ := d.entries.map (·.1)

def values (d : Dict κ α) : List α := d.entries.map (·.2)

/-- What is true of all keys and values, and of those of a new entry, stays true when that is put among them. -/
theorem forall_put {same : κ → κ → Bool} {key : κ} {a : α} {P : κ → Prop} {Q : α → Prop} {entries : List (κ × α)}
    (all : ∀ entry ∈ entries, P entry.1 ∧ Q entry.2) (keyed : P key) (here : Q a) :
    ∀ entry ∈ put same key a entries, P entry.1 ∧ Q entry.2 := by
  induction entries with
  | nil => simpa [put] using ⟨keyed, here⟩
  | cons first rest ih =>
    obtain ⟨k, b⟩ := first
    have rests := ih fun entry member => all entry (List.mem_cons_of_mem _ member)
    rw [put]
    split
    · intro entry member
      rcases List.mem_cons.mp member with rfl | member
      · exact ⟨(all _ List.mem_cons_self).1, here⟩
      · exact all entry (List.mem_cons_of_mem _ member)
    · intro entry member
      rcases List.mem_cons.mp member with rfl | member
      · exact all _ List.mem_cons_self
      · exact rests entry member

end Dict

end ScriptEngine
