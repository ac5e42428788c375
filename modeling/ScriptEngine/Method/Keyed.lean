import ScriptEngine.Method.Number

/-! # Methods of maps and sets

Entries are found by the equality of the language. A value without a hash code is refused as a key before
the container is looked at.
-/

namespace ScriptEngine.Method

variable (rules : ObjectRules)

/-- The key of a value. -/
def keyOf (v : Value) : StoreM Key := do
  let s ← get
  StoreM.ofExcept (s.key rules v)

/-- The key of the only argument. -/
def keyOperand (name : String) (args : Arguments) : StoreM Key := do
  let v ← StoreM.ofExcept (one name args)
  keyOf rules v

/-- Looks a key up in a map. -/
def lookUp (r : Ref .map) (key : Key) : StoreM (Option Value) :=
  StoreM.read fun s => (s.map r).get? (s.sameKey rules) key

/-- The methods of a map. -/
def map (r : Ref .map) (name : String) (args : Arguments) : StoreM Value := do
  match name with
  | "size" =>
    StoreM.ofExcept (args.expectCount name 0)
    StoreM.read fun s => sizeValue (s.map r).size
  | "get" =>
    let key ← keyOperand rules name args
    let found ← lookUp rules r key
    pure (found.getD .null)
  | "__getitem__" =>
    let key ← keyOperand rules name args
    match ← lookUp rules r key with
    | some v => pure v
    | none =>
      let s ← get
      let text ← StoreM.ofOption (s.text? rules key.value)
      StoreM.fail (.keyNotFound text)
  | "set" | "insert" | "__setitem__" =>
    let (k, v) ← StoreM.ofExcept (two name args)
    let key ← keyOf rules k
    modify fun s => s.modifyMap r fun d => d.insert (s.sameKey rules) key v
    pure v
  | "remove" =>
    let key ← keyOperand rules name args
    let found ← lookUp rules r key
    modify fun s => s.modifyMap r fun d => d.erase (s.sameKey rules) key
    pure (found.getD .null)
  | "contains" =>
    let key ← keyOperand rules name args
    StoreM.read fun s => .bool ((s.map r).contains (s.sameKey rules) key)
  | "keys" =>
    StoreM.ofExcept (args.expectCount name 0)
    StoreM.allocate fun s => s.addList ((s.map r).keys.map Key.value).toArray
  | "values" =>
    StoreM.ofExcept (args.expectCount name 0)
    StoreM.allocate fun s => s.addList (s.map r).values.toArray
  | "__index__" =>
    let s ← get
    let i ← StoreM.ofExcept (indexOperand s name args (s.map r).size)
    match (s.map r).entries[i]? with
    | some (key, v) => StoreM.allocate fun s => s.addPair key.value v
    | none => StoreM.fail (.indexOutOfBounds i (s.map r).size)
  | _ => StoreM.fail (.unknownMember "map" name)

/-- Whether a key is in a set. -/
def isIn (r : Ref .set) (key : Key) : StoreM Bool :=
  StoreM.read fun s => (s.set r).contains (s.sameKey rules) key

/-- The methods of a set. -/
def set (r : Ref .set) (name : String) (args : Arguments) : StoreM Value := do
  match name with
  | "size" =>
    StoreM.ofExcept (args.expectCount name 0)
    StoreM.read fun s => sizeValue (s.set r).size
  | "insert" =>
    let key ← keyOperand rules name args
    let present ← isIn rules r key
    modify fun s => s.modifySet r fun d => d.insert (s.sameKey rules) key ()
    pure (.bool !present)
  | "remove" =>
    let key ← keyOperand rules name args
    let present ← isIn rules r key
    modify fun s => s.modifySet r fun d => d.erase (s.sameKey rules) key
    pure (.bool present)
  | "contains" =>
    let key ← keyOperand rules name args
    let present ← isIn rules r key
    pure (.bool present)
  | "toList" =>
    StoreM.ofExcept (args.expectCount name 0)
    StoreM.allocate fun s => s.addList ((s.set r).keys.map Key.value).toArray
  | "__index__" =>
    let s ← get
    let i ← StoreM.ofExcept (indexOperand s name args (s.set r).size)
    match (s.set r).entries[i]? with
    | some (key, _) => pure key.value
    | none => StoreM.fail (.indexOutOfBounds i (s.set r).size)
  | _ => StoreM.fail (.unknownMember "set" name)

end ScriptEngine.Method
