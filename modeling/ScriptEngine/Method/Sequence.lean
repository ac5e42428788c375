import ScriptEngine.Method.Number

/-! # Methods of lists and pairs -/

namespace ScriptEngine.Method

/-- The methods of a pair. -/
def pair (s : Store) (first second : Value) (name : String) (args : Arguments) :
    Except RuntimeError Value :=
  match name with
  | "first" => nullary name args first
  | "second" => nullary name args second
  | "size" => nullary name args (sizeValue 2)
  | "__getitem__" | "__index__" | "get" => do
    let i ← indexOperand s name args 2
    pure (if i = 0 then first else second)
  | _ => .error (.unknownMember "pair" name)

/-- Replaces the items of a list. -/
def writeList (r : Ref .list) (f : Array Value → Array Value) : StoreM Unit :=
  modify fun s => s.modifyList r f

/-- The methods of a list. -/
def list (rules : ObjectRules) (r : Ref .list) (name : String) (args : Arguments) :
    StoreM Value := do
  let length ← StoreM.read fun s => (s.list r).size
  match name with
  | "size" => StoreM.ofExcept (nullary name args (sizeValue length))
  | "get" | "__getitem__" | "__index__" => do
    let s ← get
    let i ← StoreM.ofExcept (indexOperand s name args length)
    pure ((s.list r).getD i .null)
  | "set" | "__setitem__" => do
    let (index, v) ← StoreM.ofExcept (two name args)
    let i ← StoreM.read fun s => s.index index length
    let i ← StoreM.ofExcept i
    writeList r (·.setIfInBounds i v)
    pure v
  | "insert" => do
    let (index, v) ← StoreM.ofExcept (two name args)
    let i ← StoreM.read fun s => s.index index (length + 1)
    let i ← StoreM.ofExcept i
    writeList r (·.insertIdxIfInBounds i v)
    pure .null
  | "append" => do
    let v ← StoreM.ofExcept (one name args)
    writeList r (·.push v)
    pure .null
  | "remove" => do
    let i ← StoreM.read fun s => indexOperand s name args length
    let i ← StoreM.ofExcept i
    let v ← StoreM.read fun s => (s.list r).getD i .null
    writeList r (·.eraseIdxIfInBounds i)
    pure v
  | "pop" => do
    StoreM.ofExcept (args.expectCount name 0)
    match ← StoreM.read fun s => (s.list r).back? with
    | some v =>
      writeList r (·.pop)
      pure v
    | none => StoreM.fail (.invalidArgument name "list is empty")
  | "contains" => do
    let needle ← StoreM.ofExcept (one name args)
    StoreM.read fun s => .bool ((s.list r).any fun v => s.equals rules v needle)
  | "indexOf" => do
    let needle ← StoreM.ofExcept (one name args)
    StoreM.read fun s => positionValue ((s.list r).findIdx? fun v => s.equals rules v needle)
  | "clear" => do
    StoreM.ofExcept (args.expectCount name 0)
    writeList r fun _ => #[]
    pure .null
  | "__add__" => do
    let other ← StoreM.ofExcept (one name args)
    match other with
    | .list q => StoreM.allocate fun s => s.addList (s.list r ++ s.list q)
    | _ =>
      let s ← get
      StoreM.fail (.typeMismatch name "list" (s.typeName other))
  | _ => StoreM.fail (.unknownMember "list" name)

end ScriptEngine.Method
