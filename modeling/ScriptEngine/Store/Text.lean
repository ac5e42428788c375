import ScriptEngine.Store.Equality
import ScriptEngine.Text.Quoted

/-! # The text of values

The form in which scripts print a value, and a more explicit one for inspection. A container prints its
elements; one that contains itself has no text. The nesting of a text never exceeds the number of containers
unless one of them does contain itself.
-/

namespace ScriptEngine.Store

variable (rules : ObjectRules) (s : Store)

/-- Texts with commas between them. -/
def commas (texts : List String) : String := ", ".intercalate texts

def braces (text : String) : String := "\x7b" ++ text ++ "\x7d"

def boolText (b : Bool) : String := if b then "true" else "false"

/-- The text of an object. -/
def objectText : Object → String
  | .module name _ => s!"<module {name}>"
  | .host object => rules.describe object

/-- The text of a value, given that of the elements of containers. -/
def textWith (element : Value → Option String) : Value → Option String
  | .null => some "null"
  | .bool b => some (boolText b)
  | .number n => some (Number.plainText n)
  | .string t => some t
  | .list r => do
    let texts ← (s.list r).toList.mapM element
    pure ("[" ++ commas texts ++ "]")
  | .map r => do
    let texts ← (s.map r).entries.mapM fun (key, v) => do
      let k ← element key.value
      let t ← element v
      pure s!"{k}: {t}"
    pure (braces (commas texts))
  | .set r => do
    let texts ← (s.set r).entries.mapM fun (key, _) => element key.value
    pure (braces (commas texts))
  | .pair _ a b => do
    let first ← textWith element a
    let second ← textWith element b
    pure s!"({first}, {second})"
  | .procedure id => some s!"<procedure {(s.procedure id).name}>"
  | .method _ id => some s!"<method {(s.procedure id).name}>"
  | .native r => some s!"<function {(s.native r).name}>"
  | .classRef id => some s!"<class {(s.classDef id).name}>"
  | .inst r => some s!"<{(s.classOf r).name} instance>"
  | .object r => some (objectText rules (s.object r))

/-- The text of a value in which containers nest at most `depth + 1` deep. -/
def textWithin : Nat → Value → Option String
  | 0 => textWith rules s fun _ => none
  | depth + 1 => textWith rules s (textWithin depth)

/-- A bound on how deep containers nest that do not contain themselves. -/
def nesting : Nat := s.lists.size + s.maps.size + s.sets.size

/-- The text of a value as scripts see it; none if a container in it contains itself. -/
def text? (v : Value) : Option String := textWithin rules s s.nesting v

/-- The text of a value where one is always wanted. -/
def text (v : Value) : String := (text? rules s v).getD "..."

/-- The explicit form of a value, given that of the elements of lists. -/
def inspectWith (element : Value → String) : Value → String
  | .null => "None"
  | .bool b => s!"Bool({boolText b})"
  | .number n => s!"Number({Number.text n})"
  | .string t => s!"Str({Text.quoted t})"
  | .list r => s!"List([{commas ((s.list r).toList.map element)}])"
  | .pair _ a b => s!"Pair({inspectWith element a}, {inspectWith element b})"
  | v => s!"{s.typeName v}({text rules s v})"

def inspectWithin : Nat → Value → String
  | 0 => inspectWith rules s fun _ => "..."
  | depth + 1 => inspectWith rules s (inspectWithin depth)

/-- The explicit form of a value: constants, lists and pairs by their kind, all else by type and text. -/
def inspect (v : Value) : String := inspectWithin rules s s.nesting v

end ScriptEngine.Store
