import ScriptEngine.Method.Number
import ScriptEngine.Number.Reading
import ScriptEngine.Text.Blank
import ScriptEngine.Text.Search

/-! # Methods of strings

Sizes and positions count characters. Searching works on characters too, which finds the same occurrences
as on the bytes of the encoded text.
-/

namespace ScriptEngine.Method

/-- An ordering of strings by code points. -/
def compareText (s : Store) (f : String → Bool) (name : String) (args : Arguments) :
    Except RuntimeError Value := do
  let other ← textOperand s name args
  pure (.bool (f other))

/-- The characters from one position up to another, by default to the end. -/
def substring (s : Store) (cs : List Char) (name : String) (args : Arguments) :
    Except RuntimeError Value := do
  let first ← args.expect name 0
  let start ← s.index first (cs.length + 1)
  let stop ← match args.value? 1 with
    | some v => s.index v (cs.length + 1)
    | none => pure cs.length
  if args.length > 2 then args.expectCount name 2
  if stop < start then .error (.invalidArgument name s!"end {stop} is before start {start}")
  else pure (.string (String.ofList ((cs.drop start).take (stop - start))))

/-- The methods of a string that make no new cell. -/
def pureText (s : Store) (t : String) (name : String) (args : Arguments) :
    Except RuntimeError Value :=
  let cs := t.toList
  match name with
  | "__lt__" => compareText s (fun other => decide (t < other)) name args
  | "__le__" => compareText s (fun other => !decide (other < t)) name args
  | "__gt__" => compareText s (fun other => decide (other < t)) name args
  | "__ge__" => compareText s (fun other => !decide (t < other)) name args
  | "size" | "length" => nullary name args (sizeValue cs.length)
  | "get" | "__getitem__" | "__index__" => do
    let i ← indexOperand s name args cs.length
    pure (.string (String.ofList (cs[i]?.toList)))
  | "contains" => do
    let needle ← textOperand s name args
    pure (.bool (Text.occursIn needle.toList cs))
  | "indexOf" => do
    let needle ← textOperand s name args
    pure (positionValue (Text.indexOf? needle.toList cs))
  | "substring" => substring s cs name args
  | "upper" => nullary name args (.string (String.ofList (Text.upper cs)))
  | "lower" => nullary name args (.string (String.ofList (Text.lower cs)))
  | "toNumber" => do
    args.expectCount name 0
    match Number.read? (Text.trimBlanks cs) with
    | some n => pure (.number n)
    | none => .error (.invalidArgument name s!"'{t}' is not a number")
  | _ => .error (.unknownMember "string" name)

/-- The methods of a string. Adding joins the text of any value. -/
def text (rules : ObjectRules) (t : String) (name : String) (args : Arguments) : StoreM Value := do
  let s ← get
  match name with
  | "__add__" =>
    let v ← StoreM.ofExcept (one name args)
    let more ← StoreM.ofOption (s.text? rules v)
    pure (.string (t ++ more))
  | "split" =>
    let separator ← StoreM.ofExcept (textOperand s name args)
    if separator.isEmpty then StoreM.fail (.invalidArgument name "empty separator")
    else
      let parts := Text.splitOn separator.toList t.toList
      StoreM.allocate (·.addList (parts.map fun p => .string (String.ofList p)).toArray)
  | _ => StoreM.ofExcept (pureText s t name args)

end ScriptEngine.Method
