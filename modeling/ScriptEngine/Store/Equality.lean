import ScriptEngine.Number.Binary64
import ScriptEngine.RuntimeError
import ScriptEngine.Store

/-! # Equality and keys

Numbers, strings, booleans and null are equal by value, pairs part by part or as the same pair, bound
methods by procedure and receiver, host objects as their host says, and all else by identity. The hash code
of a value agrees with that; a host object may refuse to have one, and then no value that holds it in a
pair or as a receiver is a key.
-/

namespace ScriptEngine

/-- What a host decides about its objects without running anything. -/
structure ObjectRules where
  describe : HostObject → String
  hashKey : HostObject → Option Nat
  equals : Ref .object × HostObject → Ref .object × Object → Bool

namespace ObjectRules

/-- The text of an object by default: its type name in angle brackets. -/
def plainText (object : HostObject) : String := s!"<{object.kind}>"

/-- Objects that are known by their identity and cannot be keys. -/
def identity : ObjectRules where
  describe := plainText
  hashKey := fun _ => none
  equals := fun left right => left.1 = right.1

end ObjectRules

namespace Store

variable (rules : ObjectRules) (s : Store)

/-- Equality of two objects. Modules are known by identity. -/
def sameObject (a b : Ref .object) : Bool :=
  match s.object a with
  | .module .. => a = b
  | .host object => rules.equals (a, object) (b, s.object b)

/-- The equality of the language. -/
def equals : Value → Value → Bool
  | .null, .null => true
  | .bool a, .bool b => a == b
  | .number a, .number b => Number.equal a b
  | .string a, .string b => a == b
  | .pair i a b, .pair j c d => i == j || (equals a c && equals b d)
  | .list a, .list b => a = b
  | .map a, .map b => a = b
  | .set a, .set b => a = b
  | .procedure a, .procedure b => a = b
  | .method a p, .method b q => p = q && equals a b
  | .native a, .native b => a = b
  | .classRef a, .classRef b => a = b
  | .inst a, .inst b => a = b
  | .object a, .object b => sameObject rules s a b
  | _, _ => false

/-- The hash code of a value. Zero has one code with either sign. -/
def hashCode : Value → Except RuntimeError HashCode
  | .null => .ok .null
  | .bool b => .ok (.bool b)
  | .number n => .ok (.number (if Number.isZero n then 0 else n.toBits))
  | .string t => .ok (.string t)
  | .pair _ a b => do
    let first ← hashCode a
    let second ← hashCode b
    pure (.pair first second)
  | .method receiver procedure => do
    let code ← hashCode receiver
    pure (.method procedure code)
  | .list r => .ok (.cell .list r.index)
  | .map r => .ok (.cell .map r.index)
  | .set r => .ok (.cell .set r.index)
  | .procedure id => .ok (.procedure id)
  | .native r => .ok (.cell .native r.index)
  | .classRef id => .ok (.classRef id)
  | .inst r => .ok (.cell .inst r.index)
  | .object r =>
    let unhashable := RuntimeError.unhashable (s.object r).kind
    match s.object r with
    | .module .. => .error unhashable
    | .host object =>
      match rules.hashKey object with
      | some key => .ok (.object key)
      | none => .error unhashable

/-- The key of a value, if it can be one. -/
def key (v : Value) : Except RuntimeError Key := do
  let code ← hashCode rules s v
  pure ⟨v, code⟩

/-- Whether two keys name one entry. -/
def sameKey (a b : Key) : Bool := a.code = b.code && equals rules s a.value b.value

end Store

end ScriptEngine
