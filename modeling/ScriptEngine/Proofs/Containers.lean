import ScriptEngine.Proofs.Keys
import ScriptEngine.Proofs.Steps
import ScriptEngine.Proofs.Views
import ScriptEngine.Run.Builtin

/-! # Maps and sets of the language

What a map or a set of the language answers is what a finite map answers whose keys are the classes of equal values:
the last write counts, and removing a key takes away its whole class. Between the calls everything else may change,
also what is in lists, maps, sets and instances that are keys or parts of keys; the hash codes that keys got when they
were stored stay right. A value without a hash code is refused, and nothing is changed.
-/

namespace ScriptEngine

/-- A map from classes of equal keys. -/
abbrev ClassMap (α : Type) := Set Value → Option α

namespace ClassMap

variable {α : Type}

def empty : ClassMap α := fun _ => none

/-- How many classes are present. -/
noncomputable def size (m : ClassMap α) : Nat := { c | m c ≠ none }.ncard

/-- Some values are of distinct classes, and of all that are present. -/
structure IsListed (cls : Value → Set Value) (m : ClassMap α) (keys : List Value) : Prop where
  distinct : (keys.map cls).Nodup
  all : ∀ c, m c ≠ none ↔ c ∈ keys.map cls

end ClassMap

/-- The entries after a value is put at a key, or the key is taken away. -/
def Dict.changed {κ α : Type} (d : Dict κ α) (same : κ → κ → Bool) (key : κ) : Option α → Dict κ α
  | some a => d.insert same key a
  | none => d.erase same key

/-- A map of the language with its keys seen as classes, as a store with more objects has them. -/
structure Dict.Represents {α : Type} (rules : ObjectRules) (parts : Nat → Value × Value) (s w : Store)
    (d : Dict Key α) (m : ClassMap α) : Prop where
  keys : ∀ e ∈ d.entries, s.HasKey rules parts e.1
  distinct : d.IsDistinct fun k => w.keyClass rules parts k.value
  view : d.view (fun k => w.keyClass rules parts k.value) = m

namespace Dict.Represents

variable {α : Type} {rules : ObjectRules} {parts : Nat → Value × Value} {s s' w : Store} {d : Dict Key α}
  {m : ClassMap α} {key : Key} {a : α}

theorem empty : (Dict.empty : Dict Key α).Represents rules parts s w .empty :=
  ⟨List.forall_mem_nil _, isDistinct_empty, funext view_empty⟩

theorem mono (rep : d.Represents rules parts s w m) (part : s.IsPartOf s') : d.Represents rules parts s' w m :=
  ⟨fun e member => part.hasKey (rep.keys e member), rep.distinct, rep.view⟩

theorem size_eq (rep : d.Represents rules parts s w m) : d.size = m.size := by
  rw [ClassMap.size, ← rep.distinct.size_eq, rep.view]

theorem isListed (rep : d.Represents rules parts s w m) :
    m.IsListed (w.keyClass rules parts) (d.keys.map Key.value) := by
  have classes : (d.keys.map Key.value).map (w.keyClass rules parts) =
      d.entries.map fun e => w.keyClass rules parts e.1.value := by
    simp [Dict.keys, Function.comp_def]
  refine ⟨classes ▸ rep.distinct, fun c => ?_⟩
  rw [classes, ← rep.view]
  exact view_ne_none_iff

theorem values_eq (rep : d.Represents rules parts s w m) :
    d.values.map some = (d.keys.map Key.value).map fun k => m (w.keyClass rules parts k) := by
  simp only [Dict.values, Dict.keys, List.map_map]
  refine List.map_congr_left fun e member => ?_
  rw [← rep.view]
  exact (rep.distinct.view_eq member).symm

section

variable (part : s.IsPartOf w) (lawful : rules.IsLawful w) (rep : d.Represents rules parts s w m)
  (made : s.HasKey rules parts key)
include part lawful rep made

theorem tells : ∀ e ∈ d.entries, s.sameKey rules e.1 key = true ↔
    w.keyClass rules parts e.1.value = w.keyClass rules parts key.value :=
  fun e member => Store.sameKey_iff part lawful (rep.keys e member) made

theorem get?_eq : d.get? (s.sameKey rules) key = m (w.keyClass rules parts key.value) := by
  rw [← rep.view]
  exact get?_eq_view (tells part lawful rep made)

theorem contains_eq : d.contains (s.sameKey rules) key = (m (w.keyClass rules parts key.value)).isSome := by
  rw [← rep.view]
  exact contains_eq_view (tells part lawful rep made)

theorem insert : (d.insert (s.sameKey rules) key a).Represents rules parts s w
    (replaced m (w.keyClass rules parts key.value) (some a)) := by
  have tells := tells part lawful rep made
  have keys : ∀ e ∈ put (s.sameKey rules) key a d.entries, s.HasKey rules parts e.1 ∧ True :=
    forall_put (P := s.HasKey rules parts) (Q := fun _ => True) (fun e member => ⟨rep.keys e member, trivial⟩) made
      trivial
  refine ⟨fun e member => (keys e member).1, rep.distinct.insert tells, ?_⟩
  rw [← rep.view]
  exact view_insert tells

theorem erase : (d.erase (s.sameKey rules) key).Represents rules parts s w
    (replaced m (w.keyClass rules parts key.value) none) := by
  have tells := tells part lawful rep made
  refine ⟨fun e member => rep.keys e (List.mem_of_mem_eraseP member), rep.distinct.erase, ?_⟩
  rw [← rep.view]
  exact rep.distinct.view_erase tells

/-- What a change makes of the entries it makes of the finite map. -/
theorem changed (b : Option α) : (d.changed (s.sameKey rules) key b).Represents rules parts s w
    (replaced m (w.keyClass rules parts key.value) b) := by
  cases b with
  | some a => exact insert part lawful rep made
  | none => exact erase part lawful rep made

end

end Dict.Represents

open Classical in
/-- A finite map after a call: a value is put at the class of a key, or the class is taken away, unless what the call
has for a key cannot be one; and nothing comes of a call that changes nothing. -/
noncomputable def ClassMap.changed {α : Type} (rules : ObjectRules) (parts : Nat → Value × Value) (w : Store)
    (m : ClassMap α) : Option (Value × Option α) → ClassMap α
  | some (k, b) => if w.IsKey rules parts k then Dict.replaced m (w.keyClass rules parts k) b else m
  | none => m

/-- A call of a method of a map. -/
inductive MapCall where
  | size | keys | values
  | get (key : Value)
  | getItem (key : Value)
  | contains (key : Value)
  | remove (key : Value)
  | insert (key value : Value)
  | set (key value : Value)
  | setItem (key value : Value)

/-- A call of a method of a set. -/
inductive SetCall where
  | size | toList
  | contains (key : Value)
  | remove (key : Value)
  | insert (key : Value)

namespace MapCall

def name : MapCall → String
  | size => "size"
  | keys => "keys"
  | values => "values"
  | get _ => "get"
  | getItem _ => "__getitem__"
  | contains _ => "contains"
  | remove _ => "remove"
  | insert .. => "insert"
  | set .. => "set"
  | setItem .. => "__setitem__"

/-- The values of the arguments. -/
def operands : MapCall → List Value
  | size | keys | values => []
  | get k | getItem k | contains k | remove k => [k]
  | insert k v | set k v | setItem k v => [k, v]

/-- The value that becomes a key. -/
def key? : MapCall → Option Value
  | size | keys | values => none
  | get k | getItem k | contains k | remove k | insert k _ | set k _ | setItem k _ => some k

/-- What is put at which key, or taken away. -/
def change? : MapCall → Option (Value × Option Value)
  | size | keys | values | get _ | getItem _ | contains _ => none
  | remove k => some (k, none)
  | insert k v | set k v | setItem k v => some (k, some v)

end MapCall

namespace SetCall

def name : SetCall → String
  | size => "size"
  | toList => "toList"
  | contains _ => "contains"
  | remove _ => "remove"
  | insert _ => "insert"

/-- The values of the arguments. -/
def operands : SetCall → List Value
  | size | toList => []
  | contains k | remove k | insert k => [k]

/-- The value that becomes a key. -/
def key? : SetCall → Option Value
  | size | toList => none
  | contains k | remove k | insert k => some k

/-- What is inserted or taken away. -/
def change? : SetCall → Option (Value × Option Unit)
  | size | toList | contains _ => none
  | remove k => some (k, none)
  | insert k => some (k, some ())

end SetCall

/-- What a call of a method ends with: a value or an error, and the store. -/
abbrev Reply := EStateM.Result (Halt RuntimeError) Store Value

/-- The store that a call leaves. -/
def Reply.store : Reply → Store
  | .ok _ s => s
  | .error _ s => s

/-- What a call ends with in which a value becomes a key: the reply with that key, or the error that it has no hash
code. A call without such a value has its reply with any key. -/
def Store.replied (rules : ObjectRules) (s : Store) (asked : Option Value) (reply : Key → Reply) : Reply :=
  match asked with
  | none => reply ⟨.null, .null⟩
  | some k =>
    match s.key rules k with
    | .ok key => reply key
    | .error e => .error (.failed e) s

namespace Store

variable {rules : ObjectRules} {parts : Nat → Value × Value} {s w : Store} {asked : Option Value} {k : Value}
  {e : RuntimeError} {reply : Key → Reply}

/-- A value without a hash code is refused, and nothing is changed. -/
theorem replied_refused (here : k ∈ asked) (refused : s.hashCode rules k = .error e) :
    s.replied rules asked reply = .error (.failed e) s := by
  obtain rfl := Option.mem_def.mp here
  have unmade : s.key rules k = .error e := by
    unfold key
    rw [refused]
    rfl
  simp only [replied, unmade]

/-- A sound value becomes a key, or it is refused. -/
theorem replied_cases (sound : ∀ k ∈ asked, k.IsSound parts s) :
    (∃ key, s.replied rules asked reply = reply key ∧ ∀ k ∈ asked, key.value = k ∧ s.HasKey rules parts key) ∨
      ∃ k ∈ asked, ∃ e, s.hashCode rules k = .error e := by
  cases asked with
  | none => exact .inl ⟨_, rfl, nofun⟩
  | some k =>
    cases hashed : s.hashCode rules k with
    | error e => exact .inr ⟨k, rfl, e, hashed⟩
    | ok code =>
      have made : s.key rules k = .ok ⟨k, code⟩ := by
        unfold key
        rw [hashed]
        rfl
      refine .inl ⟨⟨k, code⟩, by simp only [replied, made], ?_⟩
      rintro _ ⟨⟩
      exact ⟨rfl, sound k rfl, hashed⟩

theorem IsPartOf.not_isKey (part : s.IsPartOf w) (sound : k.IsSound parts s) (refused : s.hashCode rules k = .error e) :
    ¬w.IsKey rules parts k := by
  rintro ⟨_, code, hashed⟩
  rw [part.hashCode_eq sound, refused] at hashed
  cases hashed

/-- A key that is asked for can be made. -/
theorem replied_of_isKey (keys : ∀ k ∈ asked, s.IsKey rules parts k) :
    ∃ key, s.replied rules asked reply = reply key ∧ ∀ k ∈ asked, key.value = k ∧ s.HasKey rules parts key := by
  rcases replied_cases fun k here => (keys k here).sound with made | ⟨k, here, e, refused⟩
  · exact made
  · exact absurd (keys k here) ((IsPartOf.refl s).not_isKey (keys k here).sound refused)

end Store

/-- A container at one place of a store: its entries, what its calls are called and take, which value of theirs becomes
a key, what they put at which key, and what they reply when the value has become one. The calls do what is said here,
and reply what the finite map answers that the container is. -/
structure KeyedContainer (C α : Type) where
  receiver : Value
  cell : Store → Option (Dict Key α)
  dict : Store → Dict Key α
  name : C → String
  operands : C → List Value
  key? : C → Option Value
  change? : C → Option (Value × Option α)
  reply : ObjectRules → Store → Key → C → Reply
  IsAnswered : ObjectRules → (Nat → Value × Value) → Store → ClassMap α → Store → Reply → C → Prop
  dict_eq : ∀ {s : Store} {d : Dict Key α}, cell s = some d → dict s = d
  keyed : ∀ {c : C} {k : Value} {b : Option α}, change? c = some (k, b) → key? c = some k
  call_eq : ∀ {rules : ObjectRules} {s : Store} {args : Arguments} (c : C), args.values = operands c →
    Method.call rules receiver (name c) args s = s.replied rules (key? c) (reply rules s · c)
  reply_objects : ∀ (rules : ObjectRules) (s : Store) (key : Key) (c : C),
    (reply rules s key c).store.objects = s.objects
  reply_cell : ∀ {s : Store} {d : Dict Key α} (rules : ObjectRules) (key : Key) (c : C), cell s = some d →
    cell (reply rules s key c).store = some ((change? c).elim d fun p => d.changed (s.sameKey rules) key p.2)
  reply_answers : ∀ {rules : ObjectRules} {parts : Nat → Value × Value} {s w : Store} {d : Dict Key α}
    {m : ClassMap α} {key : Key} (c : C), s.IsPartOf w → rules.IsLawful w → cell s = some d →
      d.Represents rules parts s w m → (∀ k ∈ key? c, key.value = k ∧ s.HasKey rules parts key) →
        IsAnswered rules parts w m s (reply rules s key c) c

namespace Method

variable {rules : ObjectRules} {s : Store} {args : Arguments} {k v : Value} {name : String}

theorem one_eq (given : args.values = [v]) : one name args = .ok v := by
  unfold one Arguments.expectCount Arguments.expect Arguments.value?
  have count : args.length = 1 := by simpa [Arguments.values] using congrArg List.length given
  rw [given, count]
  rfl

theorem two_eq (given : args.values = [k, v]) : two name args = .ok (k, v) := by
  unfold two Arguments.expectCount Arguments.expect Arguments.value?
  have count : args.length = 2 := by simpa [Arguments.values] using congrArg List.length given
  rw [given, count]
  rfl

theorem none_eq (given : args.values = []) : args.expectCount name 0 = .ok () := by
  rw [List.map_eq_nil_iff.mp given]
  rfl

theorem keyOf_bind (f : Key → StoreM Value) :
    (keyOf rules k >>= f) s = s.replied rules (some k) fun key => f key s := by
  have made : keyOf rules k s = StoreM.ofExcept (s.key rules k) s := rfl
  cases keyed : s.key rules k with
  | ok key =>
    rw [keyed] at made
    simp only [Store.replied, keyed]
    exact bind_ok made
  | error e =>
    rw [keyed] at made
    simp only [Store.replied, keyed]
    exact bind_error made

theorem keyOperand_bind (given : args.values = [k]) (f : Key → StoreM Value) :
    (keyOperand rules name args >>= f) s = s.replied rules (some k) fun key => f key s := by
  have read : keyOperand rules name args = keyOf rules k := by
    unfold keyOperand
    rw [one_eq given]
    rfl
  rw [read, keyOf_bind]

end Method

namespace Store

variable {s : Store}

theorem map_eq {r : Ref .map} {d : Dict Key Value} (found : s.maps[r.index]? = some d) : s.map r = d := by
  rw [map, Array.getD_eq_getD_getElem?, found, Option.getD_some]

theorem set_eq {r : Ref .set} {d : Dict Key Unit} (found : s.sets[r.index]? = some d) : s.set r = d := by
  rw [set, Array.getD_eq_getD_getElem?, found, Option.getD_some]

theorem list_addList (items : Array Value) : (s.addList items).2.list ⟨s.lists.size⟩ = items := by
  simp [addList, list, Array.getD_eq_getD_getElem?]

end Store

namespace MapCall

variable {rules : ObjectRules} {parts : Nat → Value × Value} {s w : Store} {r : Ref .map} {args : Arguments}
  {k v : Value} {key : Key} {d : Dict Key Value} {m : ClassMap Value}

/-- The reply of a map to a call, when the value that becomes a key has become one. -/
def reply (rules : ObjectRules) (r : Ref .map) (s : Store) (key : Key) : MapCall → Reply
  | size => .ok (Method.sizeValue (s.map r).size) s
  | keys => .ok (.list ⟨s.lists.size⟩) (s.addList ((s.map r).keys.map Key.value).toArray).2
  | values => .ok (.list ⟨s.lists.size⟩) (s.addList (s.map r).values.toArray).2
  | get _ => .ok (((s.map r).get? (s.sameKey rules) key).getD .null) s
  | getItem _ =>
    match (s.map r).get? (s.sameKey rules) key with
    | some v => .ok v s
    | none =>
      match s.text? rules key.value with
      | some text => .error (.failed (.keyNotFound text)) s
      | none => .error .exhausted s
  | contains _ => .ok (.bool ((s.map r).contains (s.sameKey rules) key)) s
  | remove _ =>
    .ok (((s.map r).get? (s.sameKey rules) key).getD .null) (s.modifyMap r fun d => d.erase (s.sameKey rules) key)
  | insert _ v | set _ v | setItem _ v =>
    .ok v (s.modifyMap r fun d => d.insert (s.sameKey rules) key v)

/-- What the three ways to write an entry do. -/
theorem write_eq {name : String} (given : args.values = [k, v]) :
    (do
      let (k, v) ← StoreM.ofExcept (Method.two name args)
      let key ← Method.keyOf rules k
      modify fun s => s.modifyMap r fun d => d.insert (s.sameKey rules) key v
      pure v : StoreM Value) s = s.replied rules (some k) fun key =>
        .ok v (s.modifyMap r fun d => d.insert (s.sameKey rules) key v) := by
  rw [Method.two_eq given]
  exact Method.keyOf_bind _

theorem call_eq (c : MapCall) (given : args.values = c.operands) :
    Method.call rules (.map r) c.name args s = s.replied rules c.key? (c.reply rules r s ·) := by
  cases c with
  | size =>
    change (StoreM.ofExcept (args.expectCount "size" 0) >>= _) s = _
    rw [Method.none_eq given]
    rfl
  | keys =>
    change (StoreM.ofExcept (args.expectCount "keys" 0) >>= _) s = _
    rw [Method.none_eq given]
    rfl
  | values =>
    change (StoreM.ofExcept (args.expectCount "values" 0) >>= _) s = _
    rw [Method.none_eq given]
    rfl
  | get k =>
    change (Method.keyOperand rules "get" args >>= _) s = _
    exact Method.keyOperand_bind given _
  | getItem k =>
    change (Method.keyOperand rules "__getitem__" args >>= _) s = _
    refine (Method.keyOperand_bind given _).trans (congrArg (s.replied rules (some k)) (funext fun key => ?_))
    have found : Method.lookUp rules r key s = .ok ((s.map r).get? (s.sameKey rules) key) s := rfl
    rw [bind_ok found, reply]
    cases (s.map r).get? (s.sameKey rules) key with
    | some v => rfl
    | none =>
      change (StoreM.ofOption (s.text? rules key.value) >>= _) s = _
      cases s.text? rules key.value <;> rfl
  | contains k =>
    change (Method.keyOperand rules "contains" args >>= _) s = _
    exact Method.keyOperand_bind given _
  | remove k =>
    change (Method.keyOperand rules "remove" args >>= _) s = _
    exact Method.keyOperand_bind given _
  | insert k v | set k v | setItem k v => exact write_eq given

theorem reply_getItem_store (k : Value) : ((getItem k).reply rules r s key).store = s := by
  rw [reply]
  cases (s.map r).get? (s.sameKey rules) key with
  | some v => rfl
  | none => cases s.text? rules key.value <;> rfl

/-- What is at a place of the store after a call on the map there. -/
theorem reply_cell (found : s.maps[r.index]? = some d) (c : MapCall) : (c.reply rules r s key).store.maps[r.index]? =
    some (c.change?.elim d fun p => d.changed (s.sameKey rules) key p.2) := by
  have changed (f : Dict Key Value → Dict Key Value) : (s.modifyMap r f).maps[r.index]? = some (f d) := by
    simp [Store.modifyMap, Array.getElem?_modify, found]
  cases c with
  | size | keys | values | get | contains => exact found
  | getItem k =>
    rw [reply_getItem_store]
    exact found
  | remove | insert | set | setItem => exact changed _

/-- What a finite map answers to a call in a store. The order of keys is not told, but that of values is the same. -/
def IsAnswered (rules : ObjectRules) (parts : Nat → Value × Value) (w : Store) (m : ClassMap Value) (s : Store)
    (reply : Reply) : MapCall → Prop
  | size => reply = .ok (Method.sizeValue m.size) s
  | keys => ∃ r s', reply = .ok (.list r) s' ∧ m.IsListed (w.keyClass rules parts) (s'.list r).toList
  | values => ∃ r s' keys, reply = .ok (.list r) s' ∧ m.IsListed (w.keyClass rules parts) keys ∧
      (s'.list r).toList.map some = keys.map fun k => m (w.keyClass rules parts k)
  | get k => reply = .ok ((m (w.keyClass rules parts k)).getD .null) s
  | getItem k =>
    match m (w.keyClass rules parts k) with
    | some v => reply = .ok v s
    | none => ∃ halt, reply = .error halt s ∧ ∀ text, s.text? rules k = some text → halt = .failed (.keyNotFound text)
  | contains k => reply = .ok (.bool (m (w.keyClass rules parts k)).isSome) s
  | remove k => ∃ s', reply = .ok ((m (w.keyClass rules parts k)).getD .null) s'
  | insert _ v | set _ v | setItem _ v => ∃ s', reply = .ok v s'

/-- A map answers what the finite map answers that it is. -/
theorem reply_answers (c : MapCall) (part : s.IsPartOf w) (lawful : rules.IsLawful w)
    (found : s.maps[r.index]? = some d) (rep : d.Represents rules parts s w m)
    (made : ∀ k ∈ c.key?, key.value = k ∧ s.HasKey rules parts key) :
    c.IsAnswered rules parts w m s (c.reply rules r s key) := by
  have here := Store.map_eq found
  cases c with
  | size =>
    rw [reply, here, rep.size_eq]
    rfl
  | keys =>
    refine ⟨_, _, rfl, ?_⟩
    rw [Store.list_addList, here]
    exact rep.isListed
  | values =>
    refine ⟨_, _, _, rfl, rep.isListed, ?_⟩
    rw [Store.list_addList, here]
    exact rep.values_eq
  | get k =>
    obtain ⟨rfl, keyed⟩ := made k rfl
    rw [reply, here, rep.get?_eq part lawful keyed]
    rfl
  | getItem k =>
    obtain ⟨rfl, keyed⟩ := made k rfl
    rw [reply, here, rep.get?_eq part lawful keyed, IsAnswered]
    cases m (w.keyClass rules parts key.value) with
    | some v => rfl
    | none =>
      cases text : s.text? rules key.value with
      | some t => exact ⟨_, rfl, fun _ same => by cases same; rfl⟩
      | none => exact ⟨_, rfl, fun _ same => by cases same⟩
  | contains k =>
    obtain ⟨rfl, keyed⟩ := made k rfl
    rw [reply, here, rep.contains_eq part lawful keyed]
    rfl
  | remove k =>
    obtain ⟨rfl, keyed⟩ := made k rfl
    rw [reply, here, rep.get?_eq part lawful keyed]
    exact ⟨_, rfl⟩
  | insert | set | setItem => exact ⟨_, rfl⟩

/-- A map as a container. -/
def container (r : Ref .map) : KeyedContainer MapCall Value where
  receiver := .map r
  cell := (·.maps[r.index]?)
  dict := (·.map r)
  name := name
  operands := operands
  key? := key?
  change? := change?
  reply rules := reply rules r
  IsAnswered := IsAnswered
  dict_eq := Store.map_eq
  keyed {c _ _} same := by cases c <;> cases same <;> rfl
  call_eq := call_eq
  reply_objects rules s key c := by
    cases c with
    | getItem k => rw [reply_getItem_store]
    | _ => rfl
  reply_cell _ _ c found := reply_cell found c
  reply_answers := reply_answers

end MapCall

namespace SetCall

variable {rules : ObjectRules} {parts : Nat → Value × Value} {s w : Store} {r : Ref .set} {args : Arguments}
  {key : Key} {d : Dict Key Unit} {m : ClassMap Unit}

/-- The reply of a set to a call, when the value that becomes a key has become one. -/
def reply (rules : ObjectRules) (r : Ref .set) (s : Store) (key : Key) : SetCall → Reply
  | size => .ok (Method.sizeValue (s.set r).size) s
  | toList => .ok (.list ⟨s.lists.size⟩) (s.addList ((s.set r).keys.map Key.value).toArray).2
  | contains _ => .ok (.bool ((s.set r).contains (s.sameKey rules) key)) s
  | remove _ =>
    .ok (.bool ((s.set r).contains (s.sameKey rules) key)) (s.modifySet r fun d => d.erase (s.sameKey rules) key)
  | insert _ =>
    .ok (.bool !(s.set r).contains (s.sameKey rules) key) (s.modifySet r fun d => d.insert (s.sameKey rules) key ())

theorem call_eq (c : SetCall) (given : args.values = c.operands) :
    Method.call rules (.set r) c.name args s = s.replied rules c.key? (c.reply rules r s ·) := by
  cases c with
  | size =>
    change (StoreM.ofExcept (args.expectCount "size" 0) >>= _) s = _
    rw [Method.none_eq given]
    rfl
  | toList =>
    change (StoreM.ofExcept (args.expectCount "toList" 0) >>= _) s = _
    rw [Method.none_eq given]
    rfl
  | contains k =>
    change (Method.keyOperand rules "contains" args >>= _) s = _
    exact Method.keyOperand_bind given _
  | remove k =>
    change (Method.keyOperand rules "remove" args >>= _) s = _
    exact Method.keyOperand_bind given _
  | insert k =>
    change (Method.keyOperand rules "insert" args >>= _) s = _
    exact Method.keyOperand_bind given _

/-- What a finite set answers to a call in a store: an insertion whether the class is new, a removal whether it was
there. -/
def IsAnswered (rules : ObjectRules) (parts : Nat → Value × Value) (w : Store) (m : ClassMap Unit) (s : Store)
    (reply : Reply) : SetCall → Prop
  | size => reply = .ok (Method.sizeValue m.size) s
  | toList => ∃ r s', reply = .ok (.list r) s' ∧ m.IsListed (w.keyClass rules parts) (s'.list r).toList
  | contains k => reply = .ok (.bool (m (w.keyClass rules parts k)).isSome) s
  | remove k => ∃ s', reply = .ok (.bool (m (w.keyClass rules parts k)).isSome) s'
  | insert k => ∃ s', reply = .ok (.bool !(m (w.keyClass rules parts k)).isSome) s'

/-- A set answers what the finite set answers that it is. -/
theorem reply_answers (c : SetCall) (part : s.IsPartOf w) (lawful : rules.IsLawful w)
    (found : s.sets[r.index]? = some d) (rep : d.Represents rules parts s w m)
    (made : ∀ k ∈ c.key?, key.value = k ∧ s.HasKey rules parts key) :
    c.IsAnswered rules parts w m s (c.reply rules r s key) := by
  have here := Store.set_eq found
  cases c with
  | size =>
    rw [reply, here, rep.size_eq]
    rfl
  | toList =>
    refine ⟨_, _, rfl, ?_⟩
    rw [Store.list_addList, here]
    exact rep.isListed
  | contains k =>
    obtain ⟨rfl, keyed⟩ := made k rfl
    rw [reply, here, rep.contains_eq part lawful keyed]
    rfl
  | remove k | insert k =>
    obtain ⟨rfl, keyed⟩ := made k rfl
    rw [reply, here, rep.contains_eq part lawful keyed]
    exact ⟨_, rfl⟩

/-- A set as a container, whose keys have nothing else. -/
def container (r : Ref .set) : KeyedContainer SetCall Unit where
  receiver := .set r
  cell := (·.sets[r.index]?)
  dict := (·.set r)
  name := name
  operands := operands
  key? := key?
  change? := change?
  reply rules := reply rules r
  IsAnswered := IsAnswered
  dict_eq := Store.set_eq
  keyed {c _ _} same := by cases c <;> cases same <;> rfl
  call_eq := call_eq
  reply_objects _ _ _ c := by cases c <;> rfl
  reply_cell {s d} rules key c found := by
    have changed (f : Dict Key Unit → Dict Key Unit) : (s.modifySet r f).sets[r.index]? = some (f d) := by
      simp [Store.modifySet, Array.getElem?_modify, found]
    cases c with
    | size | toList | contains => exact found
    | remove | insert => exact changed _
  reply_answers := reply_answers

end SetCall

end ScriptEngine
