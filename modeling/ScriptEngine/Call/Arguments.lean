import ScriptEngine.RuntimeError
import ScriptEngine.Store

/-! # Arguments

The arguments of one call in source order, each perhaps tagged with a keyword, and the checks that functions
outside the script make on them.
-/

namespace ScriptEngine

/-- One argument of a call. -/
structure Argument where
  name : Option String
  value : Value

/-- The arguments of a call. -/
abbrev Arguments := List Argument

namespace Arguments

/-- Arguments without keywords. -/
def positional (values : List Value) : Arguments := values.map fun v => ⟨none, v⟩

def values (args : Arguments) : List Value := List.map Argument.value args

/-- The value of the argument at an index. -/
def value? (args : Arguments) (index : Nat) : Option Value := args.values[index]?

/-- The name that messages give to an argument without a declared parameter. -/
def ordinal (index : Nat) : String := s!"#{index + 1}"

/-- Fails unless there are exactly `count` arguments. -/
def expectCount (args : Arguments) (function : String) (count : Nat) : Except RuntimeError Unit :=
  if args.length > count then .error (.tooManyArguments function count args.length)
  else if args.length < count then .error (.missingArgument function (ordinal args.length))
  else .ok ()

/-- The value of the argument at an index, which must be there. -/
def expect (args : Arguments) (function : String) (index : Nat) : Except RuntimeError Value :=
  match args.value? index with
  | some v => .ok v
  | none => .error (.missingArgument function (ordinal index))

/-- The number at an index. -/
def number (args : Arguments) (s : Store) (function : String) (index : Nat) :
    Except RuntimeError Float := do
  let v ← args.expect function index
  match v with
  | .number n => pure n
  | _ => .error (.typeMismatch function "number" (s.typeName v))

/-- The values of arguments that must not have keywords. -/
def withoutKeywords (function : String) : Arguments → Except RuntimeError (List Value)
  | [] => .ok []
  | ⟨some name, _⟩ :: _ => .error (.unknownKeyword function name)
  | ⟨none, v⟩ :: rest => (v :: ·) <$> withoutKeywords function rest

theorem withoutKeywords_eq {args : Arguments} {function : String} {values : List Value}
    (given : args.withoutKeywords function = .ok values) : values = args.values := by
  induction args generalizing values with
  | nil =>
    cases given
    rfl
  | cons arg rest ih =>
    obtain ⟨_ | name, v⟩ := arg
    · cases others : Arguments.withoutKeywords function rest with
      | error e =>
        rw [withoutKeywords, others] at given
        cases given
      | ok tail =>
        rw [withoutKeywords, others] at given
        cases given
        rw [ih others]
        rfl
    · cases given

/-- The value of the only argument, which must not have a keyword. -/
def single (args : Arguments) (function : String) : Except RuntimeError Value := do
  args.expectCount function 1
  let _ ← withoutKeywords function args
  args.expect function 0

theorem single_eq {args : Arguments} {function : String} {v : Value} (given : args.single function = .ok v) :
    args.values = [v] := by
  unfold single expectCount at given
  split at given
  · cases given
  · next most =>
    cases keywords : args.withoutKeywords function <;> rw [keywords] at given
    · split at given <;> cases given
    · cases args with
      | nil => cases given
      | cons arg rest =>
        obtain rfl : rest = [] := List.eq_nil_of_length_eq_zero (by simpa using most)
        cases given
        rfl

end Arguments

end ScriptEngine
