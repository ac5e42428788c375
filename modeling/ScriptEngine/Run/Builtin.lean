import ScriptEngine.Call.Arguments
import ScriptEngine.Method
import ScriptEngine.Run.Member

/-! # Built-in functions

The functions that every script can call by name or load as values. Those with underlined names are what
list, map and pair expressions call. None takes keyword arguments.
-/

namespace ScriptEngine.Builtin

/-- The function that a name means when nothing else has that name. -/
def ofName? : String → Option Builtin
  | "print" => some .print
  | "str" => some .str
  | "len" => some .len
  | "range" => some .range
  | "List" | "__list__" => some .list
  | "Map" | "__map__" => some .map
  | "Set" => some .set
  | "Pair" | "__pair__" => some .pair
  | "typeOf" => some .typeOf
  | "raise" => some .raise
  | "min" => some .min
  | "max" => some .max
  | _ => none

variable (host : Host) (calls : Calls)

/-- The text of a value in a run. -/
def textOf (v : Value) : Exec RuntimeError String := do
  let s ← get
  Exec.ofStore (StoreM.ofOption (s.store.text? host.rules v))

/-- Prints the texts of values with blanks between them. -/
def printLine (args : Arguments) : Exec RuntimeError Value := do
  let values ← Exec.ofExcept (args.withoutKeywords "print")
  let texts ← values.mapM (textOf host)
  Exec.tryControl (·.print (" ".intercalate texts))
  pure .null

/-- The start, end and step that the arguments of `range` give. -/
def rangeBounds (s : Store) (args : Arguments) : Except RuntimeError (Float × Float × Float) := do
  let values ← args.withoutKeywords "range"
  match values.length with
  | 0 => .error (.missingArgument "range" "end")
  | 1 =>
    let stop ← args.number s "range" 0
    pure (0, stop, 1)
  | 2 =>
    let start ← args.number s "range" 0
    let stop ← args.number s "range" 1
    pure (start, stop, 1)
  | 3 =>
    let start ← args.number s "range" 0
    let stop ← args.number s "range" 1
    let step ← args.number s "range" 2
    pure (start, stop, step)
  | found => .error (.tooManyArguments "range" 3 found)

/-- The elements of a range, at most `limit` of them. -/
def rangeItems (start stop step : Float) (limit : Nat) : Except RuntimeError (List Value) :=
  if step == 0 then .error (.invalidArgument "range" "step must not be zero")
  else
    let span := ((stop - start) / step).ceil
    let length := if span > 0 then span else 0
    match Number.truncate? length with
    | none => .error (.rangeTooLong length limit)
    | some n =>
      if n > limit then .error (.rangeTooLong length limit)
      else .ok ((List.range n.toNat).map fun (i : Nat) => .number (start + step * Number.ofInt (i : Int)))

/-- The entries that the arguments of `Map` give. -/
def mapEntries (s : Store) (values : List Value) : Except RuntimeError (List (Value × Value)) :=
  values.mapM fun v =>
    match v with
    | .pair _ first second => pure (first, second)
    | other => .error (.typeMismatch "Map" "pair" (s.typeName other))

/-- A map with the given entries, written in order. -/
def dictOf (rules : ObjectRules) (s : Store) (entries : List (Value × Value)) :
    Except RuntimeError (Dict Key Value) :=
  entries.foldlM (fun d (k, v) => do
    let key ← s.key rules k
    pure (d.insert (s.sameKey rules) key v)) .empty

/-- A set of the given values. -/
def keysOf (rules : ObjectRules) (s : Store) (values : List Value) :
    Except RuntimeError (Dict Key Unit) :=
  values.foldlM (fun d v => do
    let key ← s.key rules v
    pure (d.insert (s.sameKey rules) key ())) .empty

/-- The extreme of some numbers: the first, and then what `pick` takes of the best so far and each other one in
order. -/
def extreme (s : Store) (function : String) (pick : Float → Float → Float) (args : Arguments) :
    Except RuntimeError Value := do
  let first ← args.number s function 0
  let others ← (List.range (args.length - 1)).mapM fun i => args.number s function (i + 1)
  let _ ← args.withoutKeywords function
  pure (.number (others.foldl pick first))

/-- Calls a built-in function. -/
def call (b : Builtin) (args : Arguments) : Exec RuntimeError Value := do
  let s ← get
  let store := s.store
  match b with
  | .print => printLine host args
  | .str =>
    let v ← Exec.ofExcept (args.single "str")
    let text ← textOf host v
    pure (.string text)
  | .len =>
    let v ← Exec.ofExcept (args.single "len")
    match v with
    | .object r => (Member.callOnObject host calls r "size" []).holding (.ofValues [v])
    | _ => Exec.ofStore (Method.call host.rules v "size" [])
  | .range =>
    let (start, stop, step) ← Exec.ofExcept (rangeBounds store args)
    let items ← Exec.ofExcept (rangeItems start stop step s.control.limits.rangeLength)
    Exec.allocate (·.addList items.toArray)
  | .list =>
    let values ← Exec.ofExcept (args.withoutKeywords "List")
    Exec.allocate (·.addList values.toArray)
  | .map =>
    let values ← Exec.ofExcept (args.withoutKeywords "Map")
    let entries ← Exec.ofExcept (mapEntries store values)
    let d ← Exec.ofExcept (dictOf host.rules store entries)
    Exec.allocate (·.addMap d)
  | .set =>
    let values ← Exec.ofExcept (args.withoutKeywords "Set")
    let d ← Exec.ofExcept (keysOf host.rules store values)
    Exec.allocate (·.addSet d)
  | .pair =>
    Exec.ofExcept (args.expectCount "Pair" 2)
    let _ ← Exec.ofExcept (args.withoutKeywords "Pair")
    let first ← Exec.ofExcept (args.expect "Pair" 0)
    let second ← Exec.ofExcept (args.expect "Pair" 1)
    Exec.allocate (·.addPair first second)
  | .typeOf =>
    let v ← Exec.ofExcept (args.single "typeOf")
    pure (.string (store.typeName v))
  | .raise =>
    let v ← Exec.ofExcept (args.single "raise")
    let text ← textOf host v
    Exec.fail (.raised text)
  | .min => Exec.ofExcept (extreme store "min" Number.smaller args)
  | .max => Exec.ofExcept (extreme store "max" Number.larger args)

end ScriptEngine.Builtin
