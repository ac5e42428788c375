import ScriptEngine.Method

/-! # Built-in methods are atomic

A method checks its arguments before it writes, and it writes at most once, at its end. So a call that fails
leaves the store as it was. A call that succeeds changes nothing but its receiver, and that only if the method
is one that changes its receiver. A list that a method makes is in a cell of its own, so that what happens to
it later and what happens to the containers it was made from do not meet.
-/

namespace ScriptEngine

/-- A computation that leaves the store as it was unless it succeeds. Then `R` relates the store before, the
value and the store after. -/
def StoreM.Atomic {α : Type} (x : StoreM α) (R : Store → α → Store → Prop) : Prop :=
  ∀ s, match x s with
    | .ok a t => R s a t
    | .error _ t => t = s

namespace StoreM.Atomic

variable {α β : Type} {x : StoreM α} {f : α → StoreM β} {R : Store → α → Store → Prop}
  {R' : Store → β → Store → Prop}

theorem fail (e : RuntimeError) : Atomic (StoreM.fail e) R := fun _ => rfl

theorem pure {a : α} (here : ∀ s, R s a s) : Atomic (Pure.pure a) R := here

theorem get : Atomic MonadState.get fun s _ t => t = s := fun _ => rfl

theorem read (f : Store → α) : Atomic (StoreM.read f) fun s _ t => t = s := fun _ => rfl

theorem ofExcept (c : Except RuntimeError α) : Atomic (StoreM.ofExcept c) fun s _ t => t = s := by
  intro s
  cases c <;> rfl

theorem ofOption (o : Option α) : Atomic (StoreM.ofOption o) fun s _ t => t = s := by
  intro s
  cases o <;> rfl

/-- What comes before the last step only reads. -/
theorem bind (first : Atomic x fun s _ t => t = s) (rest : ∀ a, Atomic (f a) R') : Atomic (x >>= f) R' := by
  intro s
  have before := first s
  simp only [Bind.bind, EStateM.bind]
  cases run : x s with
  | error halt t =>
    rw [run] at before
    exact before
  | ok a t =>
    rw [run] at before
    cases before
    exact rest a s

theorem of_reads (reads : Atomic x fun s _ t => t = s) (here : ∀ s a, R s a s) : Atomic x R := by
  intro s
  have same := reads s
  cases run : x s with
  | error halt t =>
    rw [run] at same
    exact same
  | ok a t =>
    rw [run] at same
    cases same
    exact here s a

theorem allocate {f : Store → α × Store} (here : ∀ s, R s (f s).1 (f s).2) : Atomic (StoreM.allocate f) R := here

/-- The last step writes. -/
theorem write {f : Store → Store} {a : α} (here : ∀ s, R s a (f s)) :
    Atomic (modify f >>= fun _ => Pure.pure a) R := here

end StoreM.Atomic

/-- A list, a map or a set of a store. -/
inductive Container where
  | list (r : Ref .list)
  | map (r : Ref .map)
  | set (r : Ref .set)

def Container.value : Container → Value
  | list r => .list r
  | map r => .map r
  | set r => .set r

/-- What is in a list, a map or a set. -/
inductive Contents where
  | items (items : Array Value)
  | entries (entries : Dict Key Value)
  | members (members : Dict Key Unit)

/-- The contents of a container, if the store has it. -/
def Store.contents? (s : Store) : Container → Option Contents
  | .list r => s.lists[r.index]?.map .items
  | .map r => s.maps[r.index]?.map .entries
  | .set r => s.sets[r.index]?.map .members

namespace Method

/-- Whether a method changes its receiver. -/
def mutates (receiver : Value) (name : String) : Bool :=
  match receiver with
  | .list _ => name ∈ ["set", "__setitem__", "insert", "append", "remove", "pop", "clear"]
  | .map _ => name ∈ ["set", "insert", "__setitem__", "remove"]
  | .set _ => name ∈ ["insert", "remove"]
  | _ => false

/-- Whether a method makes a list. -/
def makesList (receiver : Value) (name : String) : Bool :=
  match receiver with
  | .list _ => name = "__add__"
  | .map _ => name ∈ ["keys", "values"]
  | .set _ => name = "toList"
  | .string _ => name = "split"
  | _ => false

/-- What a call that succeeds does to the store: it leaves it alone, gives an identity to a pair, adds a list
and yields that, or changes the container that is its receiver. -/
inductive Effect (receiver : Value) (name : String) (s : Store) : Value → Store → Prop where
  | none (v : Value) (other : makesList receiver name = false) : Effect receiver name s v s
  | pair (a b : Value) (other : makesList receiver name = false) :
    Effect receiver name s (s.addPair a b).1 (s.addPair a b).2
  | newList (items : Array Value) : Effect receiver name s (s.addList items).1 (s.addList items).2
  | list (r : Ref .list) (f : Array Value → Array Value) (v : Value) (own : receiver = .list r)
    (mutating : mutates receiver name = true) : Effect receiver name s v (s.modifyList r f)
  | map (r : Ref .map) (f : Dict Key Value → Dict Key Value) (v : Value) (own : receiver = .map r)
    (mutating : mutates receiver name = true) : Effect receiver name s v (s.modifyMap r f)
  | set (r : Ref .set) (f : Dict Key Unit → Dict Key Unit) (v : Value) (own : receiver = .set r)
    (mutating : mutates receiver name = true) : Effect receiver name s v (s.modifySet r f)

open StoreM (Atomic)

section

variable {rules : ObjectRules} {receiver : Value} {name : String} {args : Arguments}

theorem atomic_of_reads {x : StoreM Value} (reads : Atomic x fun s _ t => t = s)
    (other : makesList receiver name = false) : Atomic x (Effect receiver name) :=
  reads.of_reads fun _ v => .none v other

theorem pure_atomic (v : Value) (other : makesList receiver name = false) :
    Atomic (pure v) (Effect receiver name) :=
  .pure fun _ => .none v other

theorem newList_atomic (items : Store → Array Value) :
    Atomic (StoreM.allocate fun s => s.addList (items s)) (Effect receiver name) :=
  .allocate fun s => .newList (items s)

theorem writeList_atomic {r : Ref .list} (f : Array Value → Array Value) (v : Value)
    (mutating : mutates (.list r) name = true) :
    Atomic (writeList r f >>= fun _ => pure v) (Effect (.list r) name) :=
  .write fun _ => .list r f v rfl mutating

theorem text_atomic (t : String) : Atomic (text rules t name args) (Effect (.string t) name) := by
  unfold text
  apply Atomic.get.bind
  intro s
  split
  · apply (Atomic.ofExcept _).bind
    intro v
    apply (Atomic.ofOption _).bind
    intro more
    exact pure_atomic _ rfl
  · apply (Atomic.ofExcept _).bind
    intro separator
    split
    · exact .fail _
    · exact newList_atomic _
  · next notSplit =>
    apply atomic_of_reads (Atomic.ofExcept _)
    simpa [makesList] using notSplit

theorem list_atomic (r : Ref .list) : Atomic (list rules r name args) (Effect (.list r) name) := by
  unfold list
  apply (Atomic.read _).bind
  intro length
  have item (name : String) (other : makesList (.list r) name = false) : Atomic (do
      let s ← get
      let i ← StoreM.ofExcept (indexOperand s name args length)
      pure ((s.list r).getD i .null)) (Effect (.list r) name) :=
    Atomic.get.bind fun _ => (Atomic.ofExcept _).bind fun _ => pure_atomic _ other
  have put (name : String) (mutating : mutates (.list r) name = true) : Atomic (do
      let p ← StoreM.ofExcept (two name args)
      let i ← StoreM.read fun s => s.index p.1 length
      let i ← StoreM.ofExcept i
      writeList r (·.setIfInBounds i p.2)
      pure p.2) (Effect (.list r) name) :=
    (Atomic.ofExcept _).bind fun _ => (Atomic.read _).bind fun _ => (Atomic.ofExcept _).bind fun _ =>
      writeList_atomic _ _ mutating
  split
  case h_1 => exact atomic_of_reads (.ofExcept _) rfl
  case h_2 | h_3 | h_4 => exact item _ rfl
  case h_5 | h_6 => exact put _ rfl
  case h_7 =>
    apply (Atomic.ofExcept _).bind
    intro operands
    apply (Atomic.read _).bind
    intro i
    apply (Atomic.ofExcept _).bind
    intro i
    exact writeList_atomic _ _ rfl
  case h_8 =>
    apply (Atomic.ofExcept _).bind
    intro v
    exact writeList_atomic _ _ rfl
  case h_9 =>
    apply (Atomic.read _).bind
    intro i
    apply (Atomic.ofExcept _).bind
    intro i
    apply (Atomic.read _).bind
    intro v
    exact writeList_atomic _ _ rfl
  case h_10 =>
    apply (Atomic.ofExcept _).bind
    intro _
    apply (Atomic.read _).bind
    intro last
    cases last with
    | none => exact .fail _
    | some v => exact writeList_atomic _ _ rfl
  case h_11 | h_12 =>
    apply (Atomic.ofExcept _).bind
    intro needle
    exact atomic_of_reads (.read _) rfl
  case h_13 =>
    apply (Atomic.ofExcept _).bind
    intro _
    exact writeList_atomic _ _ rfl
  case h_14 =>
    apply (Atomic.ofExcept _).bind
    intro other
    split
    · exact newList_atomic _
    · exact Atomic.get.bind fun _ => .fail _
  case h_15 => exact .fail _

theorem keyOf_reads (v : Value) : Atomic (keyOf rules v) fun s _ t => t = s :=
  Atomic.get.bind fun _ => .ofExcept _

theorem keyOperand_reads : Atomic (keyOperand rules name args) fun s _ t => t = s :=
  (Atomic.ofExcept _).bind fun v => keyOf_reads v

theorem map_put_atomic {r : Ref .map} (mutating : mutates (.map r) name = true) : Atomic (do
      let (k, v) ← StoreM.ofExcept (two name args)
      let key ← keyOf rules k
      modify fun s => s.modifyMap r fun d => d.insert (s.sameKey rules) key v
      pure v) (Effect (.map r) name) :=
  (Atomic.ofExcept _).bind fun _ => (keyOf_reads _).bind fun _ => .write fun _ => .map r _ _ rfl mutating

theorem map_atomic (r : Ref .map) : Atomic (map rules r name args) (Effect (.map r) name) := by
  unfold map
  split
  case h_1 =>
    apply (Atomic.ofExcept _).bind
    intro _
    exact atomic_of_reads (.read _) rfl
  case h_2 =>
    apply keyOperand_reads.bind
    intro key
    apply (Atomic.read _).bind
    intro found
    exact pure_atomic _ rfl
  case h_3 =>
    apply keyOperand_reads.bind
    intro key
    apply (Atomic.read _).bind
    intro found
    cases found with
    | some v => exact pure_atomic v rfl
    | none => exact Atomic.get.bind fun _ => (Atomic.ofOption _).bind fun _ => .fail _
  case h_4 | h_5 | h_6 => exact map_put_atomic rfl
  case h_7 =>
    apply keyOperand_reads.bind
    intro key
    apply (Atomic.read _).bind
    intro found
    exact .write fun _ => .map r _ _ rfl rfl
  case h_8 =>
    apply keyOperand_reads.bind
    intro key
    exact atomic_of_reads (.read _) rfl
  case h_9 | h_10 =>
    apply (Atomic.ofExcept _).bind
    intro _
    exact newList_atomic _
  case h_11 =>
    apply Atomic.get.bind
    intro s
    apply (Atomic.ofExcept _).bind
    intro i
    split
    · exact .allocate fun s => .pair _ _ rfl
    · exact .fail _
  case h_12 => exact .fail _

theorem set_atomic (r : Ref .set) : Atomic (set rules r name args) (Effect (.set r) name) := by
  unfold set
  split
  case h_1 =>
    apply (Atomic.ofExcept _).bind
    intro _
    exact atomic_of_reads (.read _) rfl
  case h_2 | h_3 =>
    apply keyOperand_reads.bind
    intro key
    apply (Atomic.read _).bind
    intro present
    exact .write fun _ => .set r _ _ rfl rfl
  case h_4 =>
    apply keyOperand_reads.bind
    intro key
    apply (Atomic.read _).bind
    intro present
    exact pure_atomic _ rfl
  case h_5 =>
    apply (Atomic.ofExcept _).bind
    intro _
    exact newList_atomic _
  case h_6 =>
    apply Atomic.get.bind
    intro s
    apply (Atomic.ofExcept _).bind
    intro i
    split
    · exact pure_atomic _ rfl
    · exact .fail _
  case h_7 => exact .fail _

theorem ofKind_atomic : Atomic (ofKind rules receiver name args) (Effect receiver name) := by
  unfold ofKind
  apply Atomic.get.bind
  intro s
  split
  · exact atomic_of_reads (.ofExcept _) rfl
  · exact text_atomic _
  · exact atomic_of_reads (.ofExcept _) rfl
  · exact list_atomic _
  · exact map_atomic _
  · exact set_atomic _
  · exact atomic_of_reads (.ofExcept _) rfl
  · exact .fail _

variable (rules receiver name args) in
/-- Every call of a built-in method is atomic. -/
theorem call_effect : Atomic (call rules receiver name args) (Effect receiver name) := by
  unfold call
  split
  · apply (Atomic.ofExcept _).bind
    intro other
    exact atomic_of_reads (.read _) (by cases receiver <;> rfl)
  · apply (Atomic.ofExcept _).bind
    intro other
    exact atomic_of_reads (.read _) (by cases receiver <;> rfl)
  · apply (Atomic.ofExcept _).bind
    intro _
    apply Atomic.get.bind
    intro s
    apply (Atomic.ofOption _).bind
    intro text
    exact pure_atomic _ (by cases receiver <;> rfl)
  · exact ofKind_atomic

end

/-- What two stores have in common if they differ in containers alone. -/
structure SameApart (s t : Store) : Prop where
  programs : t.programs = s.programs
  instances : t.instances = s.instances
  natives : t.natives = s.natives
  objects : t.objects = s.objects

variable {receiver : Value} {name : String} {s t : Store} {v : Value}

/-- No method both makes a list and changes its receiver. -/
theorem makesList_eq_false (mutating : mutates receiver name = true) : makesList receiver name = false := by
  cases receiver <;> simp [mutates, makesList] at mutating ⊢
  case list =>
    rintro rfl
    simp at mutating
  case map =>
    constructor <;> (rintro rfl; simp at mutating)
  case set =>
    rintro rfl
    simp at mutating

namespace Effect

theorem sameApart (effect : Effect receiver name s v t) : SameApart s t := by
  cases effect <;> exact ⟨rfl, rfl, rfl, rfl⟩

/-- A container stays as it is unless it is the receiver of a method that changes its receiver. -/
theorem contents?_eq (effect : Effect receiver name s v t) {c : Container} (here : (s.contents? c).isSome)
    (apart : mutates receiver name = true → receiver ≠ c.value) : t.contents? c = s.contents? c := by
  cases effect with
  | none | pair => rfl
  | newList items =>
    cases c with
    | list r =>
      have old : r.index < s.lists.size := by simpa [Store.contents?] using here
      have other : r.index ≠ s.lists.size := Nat.ne_of_lt old
      simp only [Store.contents?, Store.addList, Array.getElem?_push, if_neg other]
    | map | set => rfl
  | list r f _ own mutating =>
    cases c with
    | list q =>
      have other : r.index ≠ q.index := fun same => apart mutating (own.trans (congrArg (Value.list ⟨·⟩) same))
      simp only [Store.contents?, Store.modifyList, Array.getElem?_modify, if_neg other]
    | map | set => rfl
  | map r f _ own mutating =>
    cases c with
    | map q =>
      have other : r.index ≠ q.index := fun same => apart mutating (own.trans (congrArg (Value.map ⟨·⟩) same))
      simp only [Store.contents?, Store.modifyMap, Array.getElem?_modify, if_neg other]
    | list | set => rfl
  | set r f _ own mutating =>
    cases c with
    | set q =>
      have other : r.index ≠ q.index := fun same => apart mutating (own.trans (congrArg (Value.set ⟨·⟩) same))
      simp only [Store.contents?, Store.modifySet, Array.getElem?_modify, if_neg other]
    | list | map => rfl

/-- A method that makes a list yields one that the store did not have. -/
theorem newList_of_makes (effect : Effect receiver name s v t) (makes : makesList receiver name = true) :
    ∃ r items, v = .list r ∧ s.contents? (.list r) = Option.none ∧
      t.contents? (.list r) = some (.items items) := by
  cases effect with
  | none _ other | pair _ _ other => simp [other] at makes
  | list _ _ _ _ mutating | map _ _ _ _ mutating | set _ _ _ _ mutating =>
    simp [makesList_eq_false mutating] at makes
  | newList items =>
    refine ⟨⟨s.lists.size⟩, items, rfl, ?_, ?_⟩
    · simp [Store.contents?]
    · simp [Store.contents?, Store.addList]

end Effect

/-- A call of a built-in method. -/
structure Invocation where
  receiver : Value
  name : String
  args : Arguments

/-- The store after some calls, of which each may fail. -/
def after (rules : ObjectRules) (s : Store) : List Invocation → Store
  | [] => s
  | i :: rest =>
    match call rules i.receiver i.name i.args s with
    | .ok _ t => after rules t rest
    | .error _ t => after rules t rest

/-- Calls of which none changes a container leave it as it is. -/
theorem contents?_after {rules : ObjectRules} {calls : List Invocation} {c : Container}
    (here : (s.contents? c).isSome)
    (apart : ∀ i ∈ calls, mutates i.receiver i.name = true → i.receiver ≠ c.value) :
    (after rules s calls).contents? c = s.contents? c := by
  induction calls generalizing s with
  | nil => rfl
  | cons i rest ih =>
    have first := apart i List.mem_cons_self
    have others := fun j member => apart j (List.mem_cons_of_mem _ member)
    have effect := call_effect rules i.receiver i.name i.args s
    rw [after]
    cases run : call rules i.receiver i.name i.args s with
    | ok v t =>
      rw [run] at effect
      have same := Effect.contents?_eq effect here first
      exact (ih (same ▸ here) others).trans same
    | error halt t =>
      rw [run] at effect
      cases effect
      exact ih here others

/-- Built-in methods are atomic and touch only their receiver. A call that fails leaves the store as it was. After
one that succeeds all containers are as before but for the receiver of a method that changes its receiver. If it
makes a list, that was not in the store before; later calls that do not change this list leave it as it is, and
later calls that change this list alone leave all that was there before as it is. -/
theorem call_atomic (rules : ObjectRules) (s : Store) (receiver : Value) (name : String) (args : Arguments) :
    match call rules receiver name args s with
    | .error _ t => t = s
    | .ok v t =>
      SameApart s t ∧
      (∀ c, (s.contents? c).isSome → (mutates receiver name = true → receiver ≠ c.value) →
        t.contents? c = s.contents? c) ∧
      (makesList receiver name = true →
        ∃ r items, v = .list r ∧ s.contents? (.list r) = none ∧ t.contents? (.list r) = some (.items items) ∧
          ∀ later : List Invocation,
            ((∀ i ∈ later, mutates i.receiver i.name = true → i.receiver ≠ v) →
              (after rules t later).contents? (.list r) = some (.items items)) ∧
            ((∀ i ∈ later, mutates i.receiver i.name = true → i.receiver = v) →
              ∀ c, (s.contents? c).isSome → (after rules t later).contents? c = s.contents? c)) := by
  have effect := call_effect rules receiver name args s
  cases run : call rules receiver name args s with
  | error halt t =>
    rw [run] at effect
    exact effect
  | ok v t =>
    rw [run] at effect
    replace effect : Effect receiver name s v t := effect
    refine ⟨effect.sameApart, fun c here apart => effect.contents?_eq here apart, fun makes => ?_⟩
    obtain ⟨r, items, rfl, new, made⟩ := effect.newList_of_makes makes
    refine ⟨r, items, rfl, new, made, fun later => ⟨fun apart => ?_, fun own c here => ?_⟩⟩
    · rw [contents?_after (by rw [made]; rfl) apart, made]
    · have kept : t.contents? c = s.contents? c :=
        effect.contents?_eq here fun mutating => by simp [makesList_eq_false mutating] at makes
      rw [contents?_after (kept ▸ here), kept]
      intro i member mutating same
      -- The container was there before, so it is not the list that was made.
      cases c with
      | list q =>
        cases (own i member mutating).symm.trans same
        simp [new] at here
      | map q => cases (own i member mutating).symm.trans same
      | set q => cases (own i member mutating).symm.trans same

end Method

end ScriptEngine
