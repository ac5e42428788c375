import ScriptEngine.Method
import ScriptEngine.Proofs.Zone

/-! # Built-in methods stay in a zone

What a method yields comes from its receiver, its arguments or a fresh cell, and it writes nothing else. So
a method that is given what a zone owns yields what the zone owns and leaves the store settled.
-/

namespace ScriptEngine

variable {z : Zone} {α : Type} {Q : α → Prop}

/-- Arguments that hold nothing outside of a zone. -/
def Zone.OwnsArguments (z : Zone) (args : Arguments) : Prop := ∀ a ∈ args, z.Owns a.value

/-- A computation on the store that keeps it settled. -/
abbrev Zone.Tends (z : Zone) (x : StoreM α) (Q : α → Prop) : Prop :=
  Keeps z.Settled (fun _ => True) x x Q

namespace Arguments

variable {args : Arguments} (owned : z.OwnsArguments args)
include owned

theorem values_owned : ∀ v ∈ args.values, z.Owns v := by
  intro v member
  obtain ⟨a, among, rfl⟩ := List.mem_map.mp member
  exact owned a among

theorem value?_owned {index : Nat} {v : Value} (found : args.value? index = some v) : z.Owns v :=
  values_owned owned v (List.mem_of_getElem? found)

theorem expect_grants (function : String) (index : Nat) :
    Grants (args.expect function index) z.Owns := by
  unfold Arguments.expect
  cases found : args.value? index with
  | none => exact .error
  | some v => exact .ok (value?_owned owned found)

theorem withoutKeywords_grants (function : String) :
    Grants (args.withoutKeywords function) fun values => ∀ v ∈ values, z.Owns v := by
  induction args with
  | nil => exact .ok (by simp)
  | cons a rest ih =>
    obtain ⟨name, v⟩ := a
    have here : z.Owns v := owned ⟨name, v⟩ List.mem_cons_self
    have others := ih fun a member => owned a (List.mem_cons_of_mem _ member)
    cases name with
    | some name => exact .error
    | none =>
      refine others.bind (f := fun values => .ok (v :: values)) fun values all => .ok ?_
      exact List.forall_mem_cons.mpr ⟨here, all⟩

theorem single_grants (function : String) : Grants (args.single function) z.Owns :=
  .bind .anything fun _ _ => .bind .anything fun _ _ => expect_grants owned function 0

end Arguments

namespace Method

variable {args : Arguments} {s : Store} {name : String}

theorem one_grants (owned : z.OwnsArguments args) : Grants (one name args) z.Owns :=
  .bind .anything fun _ _ => Arguments.expect_grants owned name 0

theorem two_grants (owned : z.OwnsArguments args) :
    Grants (two name args) fun pair => z.Owns pair.1 ∧ z.Owns pair.2 :=
  .bind .anything fun _ _ => .bind (Arguments.expect_grants owned name 0) fun _ left =>
    .bind (Arguments.expect_grants owned name 1) fun _ right => .pure ⟨left, right⟩

theorem nullary_grants {v : Value} (here : z.Owns v) : Grants (nullary name args v) z.Owns :=
  .bind .anything fun _ _ => .pure here

theorem positionValue_owned (p : Option Nat) : z.Owns (positionValue p) := by
  cases p <;> exact Zone.owns_number _

theorem divide_grants (f : Float → Float) : Grants (divide s f name args) z.Owns := by
  refine .bind .anything fun d _ => ?_
  split
  · exact .error
  · exact .pure (Zone.owns_number _)

theorem number_grants (n : Float) : Grants (number s n name args) z.Owns := by
  unfold number
  dsimp only
  -- Arithmetic, comparisons, the two divisions, methods without arguments, and no method.
  split <;> first
    | exact .bind .anything fun _ _ => .pure (by simp)
    | exact divide_grants _
    | exact nullary_grants (by simp)
    | exact .error

theorem bool_grants (b : Bool) : Grants (bool b name args) z.Owns := by
  unfold bool
  split
  · exact nullary_grants (Zone.owns_bool _)
  · exact .error

theorem compareText_grants (f : String → Bool) : Grants (compareText s f name args) z.Owns :=
  .bind .anything fun _ _ => .pure (Zone.owns_bool _)

theorem substring_grants (cs : List Char) : Grants (substring s cs name args) z.Owns := by
  refine .bind .anything fun _ _ => .bind .anything fun start _ => ?_
  have cut (stop : Nat) : Grants (if stop < start
      then Except.error (RuntimeError.invalidArgument name s!"end {stop} is before start {start}")
      else pure (.string (String.ofList ((cs.drop start).take (stop - start))))) z.Owns := by
    split
    · exact .error
    · exact .pure (Zone.owns_string _)
  have check (stop : Nat) : Grants (do
      if args.length > 2 then args.expectCount name 2
      if stop < start
        then Except.error (RuntimeError.invalidArgument name s!"end {stop} is before start {start}")
        else pure (.string (String.ofList ((cs.drop start).take (stop - start))))) z.Owns := by
    dsimp only
    split
    · exact .bind .anything fun _ _ => cut stop
    · exact cut stop
  dsimp only
  split
  · exact .bind .anything fun stop _ => check stop
  · exact check _

theorem pureText_grants (t : String) : Grants (pureText s t name args) z.Owns := by
  unfold pureText
  dsimp only
  split
  case h_12 => exact substring_grants _
  case h_15 =>
    refine .bind .anything fun _ _ => ?_
    split
    · exact .pure (Zone.owns_number _)
    · exact .error
  -- Comparisons, methods without arguments, those that look something up, and no method.
  all_goals first
    | exact compareText_grants _
    | exact nullary_grants (by simp [sizeValue])
    | exact .bind .anything fun _ _ => .pure (Zone.owns_string _)
    | exact .bind .anything fun _ _ => .pure (Zone.owns_bool _)
    | exact .bind .anything fun _ _ => .pure (positionValue_owned _)
    | exact .error

theorem pair_grants {first second : Value} (left : z.Owns first) (right : z.Owns second) :
    Grants (pair s first second name args) z.Owns := by
  unfold pair
  split
  · exact nullary_grants left
  · exact nullary_grants right
  · exact nullary_grants (Zone.owns_number _)
  all_goals try
    refine .bind .anything fun i _ => .pure ?_
    split <;> assumption
  exact .error

theorem text_tends (rules : ObjectRules) (t : String) (owned : z.OwnsArguments args) :
    z.Tends (text rules t name args) z.Owns := by
  refine Keeps.get.bind fun s _ => ?_
  split
  · refine (StoreM.ofExcept_keeps (one_grants owned)).bind fun v _ => ?_
    refine (StoreM.ofOption_keeps (Q := fun _ => True) fun _ _ => trivial).bind fun more _ => ?_
    exact .pure (Zone.owns_string _)
  · refine (StoreM.ofExcept_keeps .anything).bind fun separator _ => ?_
    split
    · exact .fail trivial
    · refine StoreM.allocate_keeps fun s settled => settled.addList fun v member => ?_
      obtain ⟨p, _, rfl⟩ := List.mem_map.mp (List.mem_toArray.mp member)
      exact Zone.owns_string _
  · exact StoreM.ofExcept_keeps (pureText_grants t)

theorem writeList_tends {r : Ref .list} {f : Array Value → Array Value}
    (kept : ∀ items, (∀ v ∈ items, z.Owns v) → ∀ v ∈ f items, z.Owns v) :
    z.Tends (writeList r f) fun _ => True :=
  .changed fun _ settled => settled.modifyList kept

/-- The element at an index of a list of the zone, or null. -/
theorem getD_owned {items : Array Value} (owned : ∀ v ∈ items, z.Owns v) (i : Nat) :
    z.Owns (items.getD i .null) := by
  rw [Array.getD_eq_getD_getElem?]
  cases found : items[i]? with
  | none => exact Zone.owns_null
  | some v => exact owned v (Array.mem_of_getElem? found)

theorem list_get_tends {r : Ref .list} (has : z.cells .list r.index) (length : Nat) :
    z.Tends (do
      let s ← get
      let i ← StoreM.ofExcept (indexOperand s name args length)
      pure ((s.list r).getD i .null)) z.Owns := by
  refine Keeps.get.bind fun s settled => ?_
  refine (StoreM.ofExcept_keeps .anything).bind fun i _ => ?_
  exact .pure (getD_owned (settled.list has) i)

theorem list_set_tends {r : Ref .list} (length : Nat) (owned : z.OwnsArguments args) :
    z.Tends (do
      let (index, v) ← StoreM.ofExcept (two name args)
      let i ← StoreM.read fun s => s.index index length
      let i ← StoreM.ofExcept i
      writeList r (·.setIfInBounds i v)
      pure v) z.Owns := by
  refine (StoreM.ofExcept_keeps (two_grants owned)).bind fun (index, v) ⟨_, here⟩ => ?_
  refine (StoreM.read_keeps (Q := fun _ => True) fun _ _ => trivial).bind fun i _ => ?_
  refine (StoreM.ofExcept_keeps .anything).bind fun i _ => ?_
  refine (writeList_tends fun items all w member => ?_).bind fun _ _ => .pure here
  rcases Array.mem_or_eq_of_mem_setIfInBounds member with member | rfl
  · exact all w member
  · exact here

theorem list_tends (rules : ObjectRules) {r : Ref .list} (has : z.cells .list r.index)
    (owned : z.OwnsArguments args) : z.Tends (list rules r name args) z.Owns := by
  have item (i : Nat) : z.Tends (StoreM.read fun s => (s.list r).getD i .null) z.Owns :=
    StoreM.read_keeps fun s settled => getD_owned (settled.list has) i
  have anything {α : Type} (f : Store → α) : z.Tends (StoreM.read f) fun _ => True :=
    StoreM.read_keeps fun _ _ => trivial
  unfold list
  refine (anything _).bind fun length _ => ?_
  split
  · exact StoreM.ofExcept_keeps (nullary_grants (Zone.owns_number _))
  · exact list_get_tends has length
  · exact list_get_tends has length
  · exact list_get_tends has length
  · exact list_set_tends length owned
  · exact list_set_tends length owned
  · refine (StoreM.ofExcept_keeps (two_grants owned)).bind fun (index, v) ⟨_, here⟩ => ?_
    refine (anything _).bind fun i _ => (StoreM.ofExcept_keeps .anything).bind fun i _ => ?_
    refine (writeList_tends fun items all w member => ?_).bind fun _ _ => .pure Zone.owns_null
    unfold Array.insertIdxIfInBounds at member
    split at member
    · rcases Array.mem_insertIdx.mp member with rfl | member
      · exact here
      · exact all w member
    · exact all w member
  · refine (StoreM.ofExcept_keeps (one_grants owned)).bind fun v here => ?_
    refine (writeList_tends fun items all w member => ?_).bind fun _ _ => .pure Zone.owns_null
    rcases Array.mem_push.mp member with member | rfl
    · exact all w member
    · exact here
  · refine (anything _).bind fun i _ => (StoreM.ofExcept_keeps .anything).bind fun i _ => ?_
    refine (item i).bind fun v here => ?_
    refine (writeList_tends fun items all w member => ?_).bind fun _ _ => .pure here
    unfold Array.eraseIdxIfInBounds at member
    split at member
    · exact all w (Array.mem_of_mem_eraseIdx member)
    · exact all w member
  · refine (StoreM.ofExcept_keeps .anything).bind fun _ _ => ?_
    have last : z.Tends (StoreM.read fun s => (s.list r).back?) fun found =>
        ∀ v, found = some v → z.Owns v :=
      StoreM.read_keeps fun s settled v found => settled.list has v (Array.mem_of_back? found)
    refine last.bind fun found here => ?_
    split
    · refine (writeList_tends fun items all w member => ?_).bind fun _ _ => .pure (here _ rfl)
      rw [← Array.mem_toList_iff, Array.toList_pop] at member
      exact all w (Array.mem_toList_iff.mp ((List.dropLast_sublist _).subset member))
    · exact .fail trivial
  · refine (StoreM.ofExcept_keeps .anything).bind fun needle _ => ?_
    exact StoreM.read_keeps fun _ _ => Zone.owns_bool _
  · refine (StoreM.ofExcept_keeps .anything).bind fun needle _ => ?_
    exact StoreM.read_keeps fun _ _ => positionValue_owned _
  · refine (StoreM.ofExcept_keeps .anything).bind fun _ _ => ?_
    refine (writeList_tends fun items all w member => ?_).bind fun _ _ => .pure Zone.owns_null
    cases Array.not_mem_empty _ member
  · refine (StoreM.ofExcept_keeps (one_grants owned)).bind fun other here => ?_
    split
    · refine StoreM.allocate_keeps fun s settled => settled.addList fun v member => ?_
      rcases Array.mem_append.mp member with member | member
      · exact settled.list has v member
      · exact settled.list ((Zone.owns_list _).mp here) v member
    · exact Keeps.get.bind fun _ _ => .fail trivial
  · exact .fail trivial

/-- A key holds what the value holds that it was made from. -/
theorem key_grants {rules : ObjectRules} {v : Value} (here : z.Owns v) :
    Grants (s.key rules v) fun key => z.Owns key.value :=
  .bind .anything fun _ _ => .pure here

theorem keyOf_tends {rules : ObjectRules} {v : Value} (here : z.Owns v) :
    z.Tends (keyOf rules v) fun key => z.Owns key.value :=
  Keeps.get.bind fun _ _ => StoreM.ofExcept_keeps (key_grants here)

theorem keyOperand_tends {rules : ObjectRules} (owned : z.OwnsArguments args) :
    z.Tends (keyOperand rules name args) fun key => z.Owns key.value :=
  (StoreM.ofExcept_keeps (one_grants owned)).bind fun _ here => keyOf_tends here

theorem lookUp_tends {rules : ObjectRules} {r : Ref .map} (has : z.cells .map r.index) (key : Key) :
    z.Tends (lookUp rules r key) fun found => ∀ v, found = some v → z.Owns v :=
  StoreM.read_keeps fun _ settled _ found => (settled.map has).get found

theorem getD_null_owned {found : Option Value} (here : ∀ v, found = some v → z.Owns v) :
    z.Owns (found.getD .null) := by
  cases found with
  | none => exact Zone.owns_null
  | some v => exact here v rfl

theorem map_write_tends {rules : ObjectRules} {r : Ref .map} (owned : z.OwnsArguments args) :
    z.Tends (do
      let (k, v) ← StoreM.ofExcept (two name args)
      let key ← keyOf rules k
      modify fun s => s.modifyMap r fun d => d.insert (s.sameKey rules) key v
      pure v) z.Owns := by
  refine (StoreM.ofExcept_keeps (two_grants owned)).bind fun (k, v) ⟨keyed, here⟩ => ?_
  refine (keyOf_tends keyed).bind fun key keyed => ?_
  refine (Keeps.changed fun s settled => ?_).bind fun _ _ => .pure here
  exact settled.modifyMap fun d old => old.insert keyed here

theorem map_tends (rules : ObjectRules) {r : Ref .map} (has : z.cells .map r.index)
    (owned : z.OwnsArguments args) : z.Tends (map rules r name args) z.Owns := by
  unfold map
  split
  · refine (StoreM.ofExcept_keeps .anything).bind fun _ _ => ?_
    exact StoreM.read_keeps fun _ _ => Zone.owns_number _
  · refine (keyOperand_tends owned).bind fun key _ => ?_
    exact (lookUp_tends has key).bind fun found here => .pure (getD_null_owned here)
  · refine (keyOperand_tends owned).bind fun key _ => ?_
    refine (lookUp_tends has key).bind fun found here => ?_
    split
    · exact .pure (here _ rfl)
    · refine Keeps.get.bind fun _ _ => ?_
      exact (StoreM.ofOption_keeps (Q := fun _ => True) fun _ _ => trivial).bind fun _ _ =>
        .fail trivial
  · exact map_write_tends owned
  · exact map_write_tends owned
  · exact map_write_tends owned
  · refine (keyOperand_tends owned).bind fun key _ => ?_
    refine (lookUp_tends has key).bind fun found here => ?_
    refine (Keeps.changed fun s settled => ?_).bind fun _ _ => .pure (getD_null_owned here)
    exact settled.modifyMap fun d old => old.erase
  · refine (keyOperand_tends owned).bind fun key _ => ?_
    exact StoreM.read_keeps fun _ _ => Zone.owns_bool _
  · refine (StoreM.ofExcept_keeps .anything).bind fun _ _ => ?_
    refine StoreM.allocate_keeps fun s settled => settled.addList fun v member => ?_
    obtain ⟨key, keyed, rfl⟩ := List.mem_map.mp (List.mem_toArray.mp member)
    obtain ⟨entry, among, rfl⟩ := List.mem_map.mp keyed
    exact (settled.map has entry among).1
  · refine (StoreM.ofExcept_keeps .anything).bind fun _ _ => ?_
    refine StoreM.allocate_keeps fun s settled => settled.addList fun v member => ?_
    obtain ⟨entry, among, rfl⟩ := List.mem_map.mp (List.mem_toArray.mp member)
    exact (settled.map has entry among).2
  · refine Keeps.get.bind fun s settled => (StoreM.ofExcept_keeps .anything).bind fun i _ => ?_
    split
    · next key v found =>
      have here := settled.map has _ (List.mem_of_getElem? found)
      exact StoreM.allocate_keeps fun s settled => settled.addPair here.1 here.2
    · exact .fail trivial
  · exact .fail trivial

theorem set_tends (rules : ObjectRules) {r : Ref .set} (has : z.cells .set r.index)
    (owned : z.OwnsArguments args) : z.Tends (set rules r name args) z.Owns := by
  have present (key : Key) : z.Tends (isIn rules r key) fun _ => True :=
    StoreM.read_keeps fun _ _ => trivial
  unfold set
  split
  · refine (StoreM.ofExcept_keeps .anything).bind fun _ _ => ?_
    exact StoreM.read_keeps fun _ _ => Zone.owns_number _
  · refine (keyOperand_tends owned).bind fun key keyed => (present key).bind fun _ _ => ?_
    refine (Keeps.changed fun s settled => ?_).bind fun _ _ => .pure (Zone.owns_bool _)
    exact settled.modifySet fun d old => old.insert keyed
  · refine (keyOperand_tends owned).bind fun key _ => (present key).bind fun _ _ => ?_
    refine (Keeps.changed fun s settled => ?_).bind fun _ _ => .pure (Zone.owns_bool _)
    exact settled.modifySet fun d old => old.erase
  · refine (keyOperand_tends owned).bind fun key _ => (present key).bind fun _ _ => ?_
    exact .pure (Zone.owns_bool _)
  · refine (StoreM.ofExcept_keeps .anything).bind fun _ _ => ?_
    refine StoreM.allocate_keeps fun s settled => settled.addList fun v member => ?_
    obtain ⟨key, keyed, rfl⟩ := List.mem_map.mp (List.mem_toArray.mp member)
    obtain ⟨entry, among, rfl⟩ := List.mem_map.mp keyed
    exact settled.set has entry among
  · refine Keeps.get.bind fun s settled => (StoreM.ofExcept_keeps .anything).bind fun i _ => ?_
    split
    · next key u found => exact .pure (settled.set has _ (List.mem_of_getElem? found))
    · exact .fail trivial
  · exact .fail trivial

theorem ofKind_tends (rules : ObjectRules) {receiver : Value} (here : z.Owns receiver)
    (owned : z.OwnsArguments args) : z.Tends (ofKind rules receiver name args) z.Owns := by
  refine Keeps.get.bind fun s _ => ?_
  split
  · exact StoreM.ofExcept_keeps (number_grants _)
  · exact text_tends rules _ owned
  · exact StoreM.ofExcept_keeps (bool_grants _)
  · exact list_tends rules ((Zone.owns_list _).mp here) owned
  · exact map_tends rules ((Zone.owns_map _).mp here) owned
  · exact set_tends rules ((Zone.owns_set _).mp here) owned
  · obtain ⟨left, right⟩ := (Zone.owns_pair _ _ _).mp here
    exact StoreM.ofExcept_keeps (pair_grants left right)
  · exact .fail trivial

theorem call_tends (rules : ObjectRules) {receiver : Value} (here : z.Owns receiver)
    (owned : z.OwnsArguments args) : z.Tends (call rules receiver name args) z.Owns := by
  unfold call
  split
  · refine (StoreM.ofExcept_keeps .anything).bind fun other _ => ?_
    exact StoreM.read_keeps fun _ _ => Zone.owns_bool _
  · refine (StoreM.ofExcept_keeps .anything).bind fun other _ => ?_
    exact StoreM.read_keeps fun _ _ => Zone.owns_bool _
  · refine (StoreM.ofExcept_keeps .anything).bind fun _ _ => Keeps.get.bind fun s _ => ?_
    refine (StoreM.ofOption_keeps (Q := fun _ => True) fun _ _ => trivial).bind fun text _ => ?_
    exact .pure (Zone.owns_string _)
  · exact ofKind_tends rules here owned

end Method

end ScriptEngine
