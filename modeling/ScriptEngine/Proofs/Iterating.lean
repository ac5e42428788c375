import ScriptEngine.Proofs.Looping
import ScriptEngine.Proofs.Positions
import ScriptEngine.Proofs.Scopes

/-! # Loops over lists

A loop over a list takes as many rounds as the list had elements when the loop started. In each round the variable gets
the element that is at the index then, and the body runs; whatever it does to the list, only a list that has become too
short ends the loop early. What the instructions of a loop do to its variables is said by contracts, one for each part
of them, and a body that runs to its end leaves these variables alone.
-/

namespace ScriptEngine

namespace Method

variable {rules : ObjectRules} {s : Store} {r : Ref .list} {i n : Nat}

theorem sizeValue_zero : sizeValue 0 = .number 0 := congrArg Value.number Number.zero_eq.symm

theorem sizeValue_one : sizeValue 1 = .number 1 := congrArg Value.number Number.one_eq.symm

theorem isBuiltin_list {name : String} (known : name = "size" ∨ name = "__index__") :
    Machine.IsBuiltin s (.list r) name := by
  rcases known with rfl | rfl <;> exact ⟨by decide, by decide, rfl⟩

theorem isBuiltin_sizeValue {name : String} (known : name = "__eq__" ∨ name = "__lt__" ∨ name = "__add__") :
    Machine.IsBuiltin s (sizeValue i) name := by
  rcases known with rfl | rfl | rfl <;> exact ⟨by decide, by decide, rfl⟩

theorem list_size : call rules (.list r) "size" [] s = .ok (sizeValue (s.list r).size) s := rfl

theorem list_index_ok (small : i < 2 ^ 31) {v : Value} (there : (s.list r)[i]? = some v) :
    call rules (.list r) "__index__" [⟨none, sizeValue i⟩] s = .ok v s := by
  change EStateM.bind (StoreM.ofExcept (s.index (sizeValue i) (s.list r).size)) _ s = _
  rw [(Value.Denotes.sizeValue small).index s (Array.getElem?_eq_some_iff.mp there).1]
  change EStateM.Result.ok ((s.list r).getD i .null) s = _
  rw [Array.getD_eq_getD_getElem?, there]
  rfl

theorem list_index_error (small : i < 2 ^ 31) (short : (s.list r).size ≤ i) :
    call rules (.list r) "__index__" [⟨none, sizeValue i⟩] s =
      .error (.failed (.indexOutOfBounds i (s.list r).size)) s := by
  change EStateM.bind (StoreM.ofExcept (s.index (sizeValue i) (s.list r).size)) _ s = _
  rw [s.index_eq (Value.Denotes.sizeValue small), if_pos (.inr (by omega))]
  rfl

theorem number_eq_zero (small : n < 2 ^ 31) :
    call rules (sizeValue n) "__eq__" [⟨none, sizeValue 0⟩] s = .ok (.bool (decide (n = 0))) s := by
  have same : Number.equal (Number.ofInt n) (Number.ofInt 0) = decide (n = 0) := by
    rw [← Number.zero_eq]
    exact Number.equal_ofInt_zero (by omega)
  change EStateM.Result.ok (Value.bool (Number.equal (Number.ofInt n) (Number.ofInt 0))) s = _
  rw [same]

theorem number_lt (left : i < 2 ^ 31) (right : n < 2 ^ 31) :
    call rules (sizeValue i) "__lt__" [⟨none, sizeValue n⟩] s = .ok (.bool (decide (i < n))) s := by
  change EStateM.Result.ok (Value.bool (decide (Number.ofInt i < Number.ofInt n))) s = _
  rw [decide_eq_decide.mpr (Number.ofInt_lt (by omega) (by omega))]

end Method

/-- The instructions of a loop around its body: those between its container and its body, and those behind its body. -/
def ControlAt (head entry back pc : Nat) : Prop := head ≤ pc ∧ pc < entry ∨ back ≤ pc ∧ pc < back + 6

/-- What a frame keeps it still keeps with one more variable. -/
theorem Frame.Keeps.put {f : Frame} {s : Store} {name other : String} {own : Locals}
    (keeps : { f with locals := own }.Keeps s name) (v : Value) :
    { f with locals := own.put other v }.Keeps s name := by
  intro table same fresh
  cases own with
  | topLevel hidden => cases same
  | procedure before =>
    cases same
    refine keeps before rfl ?_
    rw [Table.contains_set, Bool.or_eq_false_iff] at fresh
    exact fresh.2

/-- The variables of a frame when a loop over a list of some size starts. -/
def Locals.started (own : Locals) (n : Nat) (r : Ref .list) (size : Nat) : Locals :=
  ((own.put (hiddenName "iter" n) (.list r)).put (hiddenName "len" n) (Method.sizeValue size)).put
    (hiddenName "idx" n) (Method.sizeValue 0)

/-- A frame is in a loop over a list that had some size, at the round with a number. -/
structure Locals.Counts (own : Locals) (n : Nat) (r : Ref .list) (size i : Nat) : Prop where
  container : own.get? (hiddenName "iter" n) = some (.list r)
  length : own.get? (hiddenName "len" n) = some (Method.sizeValue size)
  index : own.get? (hiddenName "idx" n) = some (Method.sizeValue i)

theorem Locals.Counts.of_get? {own own' : Locals} {n size i : Nat} {r : Ref .list} (counts : own.Counts n r size i)
    (same : ∀ role, own'.get? (hiddenName role n) = own.get? (hiddenName role n)) : own'.Counts n r size i :=
  ⟨(same "iter").trans counts.container, (same "len").trans counts.length, (same "idx").trans counts.index⟩

theorem hiddenName_ne {role role' : String} (differ : role ≠ role') (n : Nat) :
    hiddenName role n ≠ hiddenName role' n :=
  fun same => differ (hiddenName_inj same).1

theorem Locals.started_counts (own : Locals) (n : Nat) (r : Ref .list) (size : Nat) :
    (own.started n r size).Counts n r size 0 := by
  have differ : hiddenName "iter" n ≠ hiddenName "idx" n := hiddenName_ne (by decide) n
  have differ' : hiddenName "iter" n ≠ hiddenName "len" n := hiddenName_ne (by decide) n
  have differ'' : hiddenName "len" n ≠ hiddenName "idx" n := hiddenName_ne (by decide) n
  constructor <;> simp [started, Locals.get?_put, differ, differ', differ'']

/-- The next round. -/
theorem Locals.Counts.next {own : Locals} {n size i : Nat} {r : Ref .list} (counts : own.Counts n r size i) :
    (own.put (hiddenName "idx" n) (Method.sizeValue (i + 1))).Counts n r size (i + 1) := by
  have differ : hiddenName "iter" n ≠ hiddenName "idx" n := hiddenName_ne (by decide) n
  have differ' : hiddenName "len" n ≠ hiddenName "idx" n := hiddenName_ne (by decide) n
  constructor <;> simp [Locals.get?_put, differ, differ', counts.container, counts.length]

section

open Machine Method

variable (host : Host) (calls : Calls) {f : Frame} {s : Store} {own : Locals} {σ : List Value} {n head entry back : Nat}
  {place namePlace : Position} {name : String} {body : List Instruction} {r : Ref .list} {size i : Nat}

namespace LoopAt

variable (loop : LoopAt f.procedure.code n place name namePlace body head entry back)
include loop

theorem opened {k : Nat} {i : Instruction}
    (there : (Fragment.forOpening n place name namePlace body.length)[k]? = some i) :
    ControlAt head entry back (head + k) ∧ f.procedure.code[head + k]? = some i := by
  have inside : k < 21 := (List.getElem?_eq_some_iff.mp there).1
  exact ⟨.inl ⟨Nat.le_add_right .., by rw [loop.entry_eq]; omega⟩, loop.opening.get there⟩

theorem closed {k : Nat} {i : Instruction} (there : (Fragment.forClosing n place body.length)[k]? = some i) :
    ControlAt head entry back (back + k) ∧ f.procedure.code[back + k]? = some i := by
  have inside : k < 6 := (List.getElem?_eq_some_iff.mp there).1
  exact ⟨.inr ⟨Nat.le_add_right .., by omega⟩, loop.closing.get there⟩

theorem back_le : back + 6 ≤ f.procedure.code.size := by
  have last := (Array.getElem?_eq_some_iff.mp (loop.closed (k := 5) rfl).2).1
  omega

/-- The loop assigns the list, its size and the first index. -/
theorem starts (room : σ.length + 2 ≤ f.maxStack)
    (keeps : ∀ name, isHidden name = true → { f with locals := own }.Keeps s name) :
    Brings host calls (ControlAt head entry back) f s own head (.list r :: .string (hiddenName "iter" n) :: σ)
      (own.started n r (s.list r).size) (head + 8) σ := by
  have kept {role : String} := keeps (hiddenName role n) (isHidden_hiddenName role n)
  have wide : σ.length < f.maxStack ∧ σ.length + 1 < f.maxStack := by omega
  unfold Locals.started
  rw [sizeValue_zero]
  refine .trans (Brings.assign (loop.opened (k := 0) rfl) (isHidden_hiddenName ..) kept) ?_
  refine .trans (Brings.value (loop.opened (k := 1) rfl) wide.1) ?_
  refine .trans (Brings.load (loop.opened (k := 2) rfl) (v := .list r) ?_ wide.2) ?_
  · rw [Locals.get?_put, if_pos rfl]
  refine .trans (Brings.send [] (loop.opened (k := 3) rfl) rfl (isBuiltin_list (.inl rfl)) list_size wide.2) ?_
  refine .trans (Brings.assign (loop.opened (k := 4) rfl) (isHidden_hiddenName ..) (kept.put _)) ?_
  refine .trans (Brings.value (loop.opened (k := 5) rfl) wide.1) ?_
  refine .trans (Brings.value (loop.opened (k := 6) rfl) wide.2) ?_
  exact Brings.assign (loop.opened (k := 7) rfl) (isHidden_hiddenName ..) ((kept.put _).put _)

/-- The loop is over at once if the list was empty. -/
theorem checks (counts : own.Counts n r size i) (small : size < 2 ^ 31) (room : σ.length + 2 ≤ f.maxStack) :
    Brings host calls (ControlAt head entry back) f s own (head + 8) σ own
      (if size = 0 then back + 6 else head + 12) σ := by
  have wide : σ.length < f.maxStack ∧ σ.length + 1 < f.maxStack := by omega
  have lands : landing? (head + 11) (.relative (body.length + 16)) f.procedure.code.size = some (.index (back + 6)) :=
    landing?_relative (by rw [loop.back_eq, loop.entry_eq]; omega) loop.back_le
  refine .trans (Brings.load (loop.opened (k := 8) rfl) counts.length wide.1) ?_
  refine .trans (Brings.value (loop.opened (k := 9) rfl) wide.2) ?_
  rw [← sizeValue_zero]
  refine .trans (Brings.send [sizeValue 0] (loop.opened (k := 10) rfl) rfl (isBuiltin_sizeValue (.inl rfl))
    (number_eq_zero small) wide.1) ?_
  exact Brings.test (loop.opened (k := 11) rfl) (by decide) lands (by simp)

/-- The loop goes on as long as the index is below the size. -/
theorem asks (counts : own.Counts n r size i) (small : size < 2 ^ 31) (bound : i ≤ size)
    (room : σ.length + 2 ≤ f.maxStack) :
    Brings host calls (ControlAt head entry back) f s own (head + 12) σ own
      (if i < size then head + 16 else back + 6) σ := by
  have wide : σ.length < f.maxStack ∧ σ.length + 1 < f.maxStack := by omega
  have lands : landing? (head + 15) (.relative (body.length + 12)) f.procedure.code.size = some (.index (back + 6)) :=
    landing?_relative (by rw [loop.back_eq, loop.entry_eq]; omega) loop.back_le
  refine .trans (Brings.load (loop.opened (k := 12) rfl) counts.index wide.1) ?_
  refine .trans (Brings.load (loop.opened (k := 13) rfl) counts.length wide.2) ?_
  refine .trans (Brings.send [sizeValue size] (loop.opened (k := 14) rfl) rfl (isBuiltin_sizeValue (.inr (.inl rfl)))
    (number_lt (by omega) small) wide.1) ?_
  exact Brings.test (loop.opened (k := 15) rfl) (by decide) lands (by by_cases less : i < size <;> simp [less])

/-- From its container on, the loop comes to its first round, or to its end. -/
theorem comes (small : (s.list r).size < 2 ^ 31) (room : σ.length + 2 ≤ f.maxStack)
    (keeps : ∀ name, isHidden name = true → { f with locals := own }.Keeps s name) :
    Brings host calls (ControlAt head entry back) f s own head (.list r :: .string (hiddenName "iter" n) :: σ)
      (own.started n r (s.list r).size) (if 0 < (s.list r).size then head + 16 else back + 6) σ := by
  have counts := own.started_counts n r (s.list r).size
  have starts := (loop.starts host calls room keeps).trans (loop.checks host calls counts small room)
  by_cases empty : (s.list r).size = 0
  · rw [if_pos empty] at starts
    rw [if_neg (by omega)]
    exact starts
  · rw [if_neg empty] at starts
    exact starts.trans (loop.asks host calls counts small (Nat.zero_le _) room)

/-- The loop gets the list ready, above the name of its variable. -/
theorem names (counts : own.Counts n r size i) (room : σ.length + 2 ≤ f.maxStack) :
    Brings host calls (ControlAt head entry back) f s own (head + 16) σ own (head + 18)
      (.list r :: .string name :: σ) := by
  have wide : σ.length < f.maxStack ∧ σ.length + 1 < f.maxStack := by omega
  refine .trans (Brings.value (loop.opened (k := 16) rfl) wide.1) ?_
  exact Brings.load (loop.opened (k := 17) rfl) counts.container wide.2

/-- The loop gets the index ready as well, for which there must be room. -/
theorem takes (counts : own.Counts n r size i) (room : σ.length + 3 ≤ f.maxStack) :
    Brings host calls (ControlAt head entry back) f s own (head + 16) σ own (head + 19)
      (sizeValue i :: .list r :: .string name :: σ) :=
  have wide : σ.length + 2 < f.maxStack := by omega
  (loop.names host calls counts (by omega)).trans (Brings.load (loop.opened (k := 18) rfl) counts.index wide)

/-- It reads the element if there is one. -/
theorem reads (small : i < 2 ^ 31) {v : Value} (there : (s.list r)[i]? = some v) (room : σ.length + 3 ≤ f.maxStack) :
    Brings host calls (ControlAt head entry back) f s own (head + 19) (sizeValue i :: .list r :: .string name :: σ) own
      (head + 20) (v :: .string name :: σ) :=
  Brings.send [sizeValue i] (loop.opened (k := 19) rfl) rfl (isBuiltin_list (.inr rfl)) (list_index_ok small there)
    (by simp; omega)

/-- Behind the body, the loop adds one to the index. -/
theorem advances (counts : own.Counts n r size i) (small : i < 2 ^ 31) (room : σ.length + 3 ≤ f.maxStack) :
    Brings host calls (ControlAt head entry back) f s own back σ
      (own.put (hiddenName "idx" n) (sizeValue (i + 1))) (head + 12) σ := by
  have wide : σ.length < f.maxStack ∧ σ.length + 1 < f.maxStack ∧ σ.length + 2 < f.maxStack := by omega
  have lands :
      landing? (back + 5) (.relative (-(body.length + 14))) f.procedure.code.size = some (.index (head + 12)) :=
    landing?_relative (by rw [loop.back_eq, loop.entry_eq]; omega)
      (by have := loop.back_le; rw [loop.back_eq, loop.entry_eq] at this; omega)
  have kept : { f with locals := own }.Keeps s (hiddenName "idx" n) := by
    rintro table rfl fresh
    have bound : table.get? (hiddenName "idx" n) = some _ := counts.index
    rw [Table.contains, bound] at fresh
    cases fresh
  refine .trans (Brings.value (loop.closed (k := 0) rfl) wide.1) ?_
  refine .trans (Brings.load (loop.closed (k := 1) rfl) counts.index wide.2.1) ?_
  refine .trans (Brings.value (loop.closed (k := 2) rfl) wide.2.2) ?_
  rw [← sizeValue_one]
  refine .trans (Brings.send [sizeValue 1] (loop.closed (k := 3) rfl) rfl (isBuiltin_sizeValue (.inr (.inr rfl)))
    (sizeValue_add (by omega)) wide.2.1) ?_
  refine .trans (Brings.assign (loop.closed (k := 4) rfl) (isHidden_hiddenName ..) kept) ?_
  exact Brings.jump (loop.closed (k := 5) rfl) lands

end LoopAt

end

namespace ForLoop

variable (ℓ : ForLoop) (o : LoweringOptions) (lo : Nat)

/-- The instructions that evaluate the container of a loop, below which the name of its variable is put. -/
def InItems (pc : Nat) : Prop := lo ≤ pc ∧ pc < ℓ.head lo

/-- The instructions of the loop itself: those behind the container, but not those of the body. -/
def InControl (pc : Nat) : Prop := ControlAt (ℓ.head lo) (ℓ.entry lo) (ℓ.back o lo) pc

/-- The instructions of the body of a loop. -/
def InBody (pc : Nat) : Prop := ℓ.entry lo ≤ pc ∧ pc < ℓ.back o lo

variable (host : Host) (calls : Calls) (r : Ref .list)

/-- A round of a loop over a list begins: the loop goes through its own instructions up to where it assigns its
variable, which gets the element that is at the index of the round in the list then; and the loop is at its body. -/
inductive Begins (i : Nat) (m m' : Machine) : Prop
  | binds {binding : Machine} {v : Value} (passes : Machine.Passes host calls (ℓ.InControl o lo) m binding)
    (still : binding.state.store = m.state.store) (element : (m.state.store.list r)[i]? = some v)
    (write : binding.write? = some (ℓ.name, v)) (turned : Machine.turn host calls binding = .inl m')
    (bound : binding.frame.IsAnchored binding.state.store → m'.frame.lookup m'.state.store ℓ.name = some v)
    (enters : m'.frame.pc = ℓ.entry lo)

variable {ℓ o lo host calls r} in
/-- A round begins where the body does. -/
theorem Begins.enters {i : Nat} {m m' : Machine} (begins : Begins ℓ o lo host calls r i m m') :
    Machine.Reaches host calls m m' ∧ m'.frame.pc = ℓ.entry lo := by
  cases begins with
  | binds passes _ _ _ turned _ enters => exact ⟨passes.reaches.snoc turned, enters⟩

/-- So many rounds of a loop over a list lead from one machine to another, the first with index zero: each begins, and
then the body runs to its end. -/
inductive Rounds (m : Machine) : Nat → Machine → Prop
  | none : Rounds m 0 m
  | more {i : Nat} {m₁ m₂ m₃ : Machine} : Rounds m i m₁ → Begins ℓ o lo host calls r i m₁ m₂ →
    Machine.Passes host calls (ℓ.InBody o lo) m₂ m₃ → m₃.frame.pc = ℓ.back o lo → Rounds m (i + 1) m₃

/-- What becomes of a loop over a list that has some size when the loop starts: it takes as many rounds as that and then
ends; or after fewer rounds the list is too short for the next one, and the loop fails where it reads the element; or
the body of a round never gets to its end. -/
inductive Iterates (size : Nat) (m : Machine) : Prop
  | completes {m₁ m₂ : Machine} (rounds : Rounds ℓ o lo host calls r m size m₁)
    (passes : Machine.Passes host calls (ℓ.InControl o lo) m₁ m₂) (ends : m₂.frame.pc = ℓ.stop o lo)
  | outgrows {i : Nat} {m₁ m₂ broken : Machine} (less : i < size) (rounds : Rounds ℓ o lo host calls r m i m₁)
    (short : (m₁.state.store.list r).size ≤ i) (passes : Machine.Passes host calls (ℓ.InControl o lo) m₁ m₂)
    (reads : m₂.frame.procedure.code[m₂.frame.pc]? = some (.send (.positional "__index__" 1 ℓ.place)))
    (fails : Machine.step host calls (.send (.positional "__index__" 1 ℓ.place)) m₂ = .error (.failed
      (.located m.frame.file ℓ.place (.indexOutOfBounds i (m₁.state.store.list r).size))) broken)
  | abandons {i : Nat} {m₁ m₂ : Machine} (less : i < size) (rounds : Rounds ℓ o lo host calls r m i m₁)
    (begins : Begins ℓ o lo host calls r i m₁ m₂) (never : Machine.Abandons host calls (ℓ.InBody o lo) m₂)

/-- A loop comes by its own instructions to where it reads the index of its first round, and fails there because the
stack is full. -/
inductive Overflows (m : Machine) : Prop
  | fails {m' broken : Machine} {i : Instruction} (passes : Machine.Passes host calls (ℓ.InControl o lo) m m')
    (here : m'.frame.pc = ℓ.head lo + 18) (found : m'.frame.procedure.code[m'.frame.pc]? = some i)
    (full : Machine.step host calls i m' = .error (.failed
      (.located m.frame.file ℓ.place (.stackOverflow m.frame.maxStack))) broken)

variable {ℓ o lo host calls r}

/-- Rounds start with the first one. -/
theorem Rounds.first {n : Nat} {m m' : Machine} (rounds : Rounds ℓ o lo host calls r m (n + 1) m') :
    ∃ m₁, Begins ℓ o lo host calls r 0 m m₁ := by
  induction n generalizing m' with
  | zero =>
    obtain _ | ⟨before, begins, _, _⟩ := rounds
    cases before
    exact ⟨_, begins⟩
  | succ n ih =>
    obtain _ | ⟨before, _, _, _⟩ := rounds
    exact ih before

/-- Over a list with elements, a loop that is carried out begins its first round. -/
theorem Iterates.begins {size : Nat} {m : Machine} (iterates : Iterates ℓ o lo host calls r size m) (some : 0 < size)
    (long : 0 < (m.state.store.list r).size) : ∃ m₁, Begins ℓ o lo host calls r 0 m m₁ := by
  cases iterates with
  | completes rounds =>
    obtain ⟨n, rfl⟩ := Nat.exists_eq_add_one_of_ne_zero (Nat.ne_of_gt some)
    exact rounds.first
  | @outgrows i _ _ _ _ rounds short =>
    cases i with
    | zero =>
      cases rounds
      omega
    | succ i => exact rounds.first
  | @abandons i _ _ _ rounds begins =>
    cases i with
    | zero =>
      cases rounds
      exact ⟨_, begins⟩
    | succ i => exact rounds.first

end ForLoop

theorem Frame.lookup_congr {f g : Frame} (locals : g.locals = f.locals) (owner : g.owner = f.owner)
    (program : g.program = f.program) (s : Store) (name : String) : g.lookup s name = f.lookup s name := by
  simp only [lookup, static?, locals, owner, program]

/-- A write changes no other variable of a frame. -/
theorem Frame.get?_written {f : Frame} {s : Store} {write : Option (String × Value)} {name : String}
    (other : ∀ v, write ≠ some (name, v)) : (f.written s write).get? name = f.locals.get? name := by
  rcases write with _ | ⟨entry, v⟩
  · rfl
  · exact get?_assign_other fun same => other v (same ▸ rfl)

namespace Machine

variable {f : Frame} {s : Store} {own : Locals} {pc : Nat} {σ : List Value} {m : Machine} {name : String} {v : Value}
  {place : Position}

/-- The turn in which a frame assigns a name. -/
theorem Rests.binds (host : Host) (calls : Calls) (rests : Rests f s own pc (v :: .string name :: σ) m)
    (found : f.procedure.code[pc]? = some (.call (.positional "set" 2 place))) :
    ∃ m', Machine.turn host calls m = .inl m' ∧ m.write? = some (name, v) ∧
      (m.frame.IsAnchored m.state.store → m'.frame.lookup m'.state.store name = some v) ∧
      Rests f m'.state.store m'.frame.locals (pc + 1) σ m' := by
  obtain ⟨run, write, below⟩ := rests.assigns host calls place
  obtain ⟨m', turned, there⟩ := rests.goesOn found run rfl
  refine ⟨m', turned, ?_, fun anchored => ?_, there.call, rfl, rfl, there.stack.trans below⟩
  · rw [write?, rests.found found]
    exact write
  · have before : ((m.placed place).dropped 2).frame.IsAnchored m.state.store := ⟨anchored.loaded, anchored.owns⟩
    obtain ⟨written, admits⟩ := Frame.assign_eq_write before name v
    obtain ⟨locals, same⟩ := ((m.placed place).dropped 2).frame.assign_eq m.state.store name v
    have kept : SameCall m.frame (m.assigned place name v).frame := by
      change SameCall m.frame (((m.placed place).dropped 2).frame.assign m.state.store name v).1
      rw [same]
      exact ⟨rfl, rfl, rfl, rfl, rfl, rfl⟩
    have owner := there.call.owner.trans (kept.owner.trans rests.call.owner).symm
    have program := there.call.program.trans (kept.program.trans rests.call.program).symm
    rw [Frame.lookup_congr there.locals owner program, there.store]
    change (((m.placed place).dropped 2).frame.assign m.state.store name v).1.lookup
      (((m.placed place).dropped 2).frame.assign m.state.store name v).2 name = some v
    rw [written, Frame.lookup_write admits, if_pos rfl]

end Machine

namespace ForLoop

open Machine

variable {ℓ : ForLoop} {o : LoweringOptions} {lo : Nat} {p : Procedure} {host : Host} {calls : Calls} {r : Ref .list}
  {size i : Nat} {f : Frame} {start m m' : Machine}

/-- A frame is about to ask whether a loop over a list has a round with some index: by instructions of the loop alone it
comes to that round, or to the end of the loop. -/
def IsPoised (ℓ : ForLoop) (o : LoweringOptions) (lo : Nat) (host : Host) (calls : Calls) (r : Ref .list) (size : Nat)
    (f : Frame) (i : Nat) (m : Machine) : Prop :=
  ∃ own σ m', own.Counts ℓ.number r size i ∧ σ.length + 3 ≤ f.maxStack ∧
    Passes host calls (ℓ.InControl o lo) m m' ∧
    Rests f m.state.store own (if i < size then ℓ.head lo + 16 else ℓ.stop o lo) σ m'

namespace StandsIn

variable (stands : ℓ.StandsIn o lo p)
include stands

/-- A loop starts at its first round, or at its end. -/
theorem poised_start {own : Locals} {σ : List Value} {s : Store} (procedure : f.procedure = p)
    (rests : Rests f s own (ℓ.head lo) (.list r :: .string (hiddenName "iter" ℓ.number) :: σ) m)
    (size : (s.list r).size < 2 ^ 31) (room : σ.length + 3 ≤ f.maxStack)
    (keeps : ∀ name, isHidden name = true → { f with locals := own }.Keeps s name) :
    ℓ.IsPoised o lo host calls r (s.list r).size f 0 m := by
  have loop := stands.loop
  rw [← procedure] at loop
  have counts := own.started_counts ℓ.number r (s.list r).size
  obtain ⟨m', passes, there⟩ := loop.comes host calls size (by omega) keeps m rests
  exact ⟨_, σ, m', counts, room, passes, rests.store ▸ there⟩

/-- Behind its body, a loop goes on to the next round, or to its end. -/
theorem poised_next {own : Locals} {σ : List Value} {s : Store} (procedure : f.procedure = p)
    (rests : Rests f s own (ℓ.back o lo) σ m) (counts : own.Counts ℓ.number r size i) (less : i < size)
    (small : size < 2 ^ 31) (room : σ.length + 3 ≤ f.maxStack) : ℓ.IsPoised o lo host calls r size f (i + 1) m := by
  have loop := stands.loop
  rw [← procedure] at loop
  have arrives := (loop.advances host calls (s := s) counts (by omega) room).trans
    (loop.asks host calls counts.next small less (by omega))
  obtain ⟨m', passes, there⟩ := arrives m rests
  exact ⟨_, σ, m', counts.next, room, passes, rests.store ▸ there⟩

/-- The body of a loop leaves the variables of the loop as they are. -/
theorem body_counts (fresh : start.frame.IsFresh p) (reached : Reaches host calls start m)
    (passes : Passes host calls (ℓ.InBody o lo) m m') (counts : m.frame.locals.Counts ℓ.number r size i) :
    m'.frame.locals.Counts ℓ.number r size i := by
  have kept : Reaches host calls start m' ∧ ∀ role,
      m'.frame.locals.get? (hiddenName role ℓ.number) = m.frame.locals.get? (hiddenName role ℓ.number) := by
    refine passes.invariant (I := fun m' => Reaches host calls start m' ∧ ∀ role,
      m'.frame.locals.get? (hiddenName role ℓ.number) = m.frame.locals.get? (hiddenName role ℓ.number))
      ⟨reached, fun _ => rfl⟩ ?_
    rintro a b ⟨above, below⟩ ⟨before, same⟩ turned
    refine ⟨before.snoc turned, fun role => ?_⟩
    rw [(turn_inl turned).locals, Frame.get?_written (stands.hidden fresh before above below role), same role]
  exact counts.of_get? kept.2

/-- A round of a loop that is due: the list is too short for it, or it begins, and if its body runs to the end, then the
loop is about to ask for the next one. -/
theorem round (fresh : start.frame.IsFresh p) (procedure : f.procedure = p) (less : i < size) (small : size < 2 ^ 31)
    (reached : Reaches host calls start m) (poised : ℓ.IsPoised o lo host calls r size f i m) :
    ((m.state.store.list r).size ≤ i ∧ ∃ m' broken, Passes host calls (ℓ.InControl o lo) m m' ∧
        m'.frame.procedure.code[m'.frame.pc]? = some (.send (.positional "__index__" 1 ℓ.place)) ∧
        step host calls (.send (.positional "__index__" 1 ℓ.place)) m' = .error (.failed
          (.located f.file ℓ.place (.indexOutOfBounds i (m.state.store.list r).size))) broken) ∨
      ∃ m', Begins ℓ o lo host calls r i m m' ∧ ∀ m'', Passes host calls (ℓ.InBody o lo) m' m'' →
        m''.frame.pc = ℓ.back o lo → ℓ.IsPoised o lo host calls r size f (i + 1) m'' := by
  have loop := stands.loop
  rw [← procedure] at loop
  obtain ⟨own, σ, m₁, counts, room, passes, rests⟩ := poised
  rw [if_pos less] at rests
  obtain ⟨m₂, onward, ready⟩ := loop.takes host calls counts room m₁ rests
  cases there : (m.state.store.list r)[i]? with
  | none =>
    have short := Array.getElem?_eq_none_iff.mp there
    obtain ⟨broken, fails⟩ : ∃ broken, step host calls (.send (.positional "__index__" 1 ℓ.place)) m₂ = .error (.failed
        (.located f.file ℓ.place (.indexOutOfBounds i (m.state.store.list r).size))) broken :=
      ready.send_fails [Method.sizeValue i] rfl (Method.isBuiltin_list (.inr rfl))
        (Method.list_index_error (by omega) short)
    exact .inl ⟨short, m₂, broken, passes.trans onward, ready.found (loop.opened (k := 19) rfl).2, fails⟩
  | some v =>
    obtain ⟨m₃, reads, has⟩ := loop.reads host calls (by omega) there room m₂ ready
    obtain ⟨m₄, turned, write, bound, inside⟩ := has.binds host calls (loop.opened (k := 20) rfl).2
    have comes := (passes.trans onward).trans reads
    refine .inr ⟨m₄, .binds comes has.store there write turned bound inside.call.pc, fun m₅ body ends => ?_⟩
    have entered := (reached.trans comes.reaches).snoc turned
    have bound : m₄.frame.locals.Counts ℓ.number r size i := by
      refine counts.of_get? fun role => ?_
      rw [(turn_inl turned).locals, Frame.get?_written fun w same => ?_, has.locals]
      have named : ℓ.name = hiddenName role ℓ.number := congrArg Prod.fst (Option.some.inj (write.symm.trans same))
      exact absurd (named ▸ stands.plain) (by simp)
    -- The stack is as high behind the body as it was before the round.
    obtain ⟨height, level⟩ := stands.level
    have before := level fresh (reached.trans passes.reaches) (.inl rests.call.pc)
    have behind := level fresh (entered.trans body.reaches) (.inr ends)
    rw [rests.height] at before
    rw [m₅.frame.stack.height_eq, ← before] at behind
    have call := (sameCall_at inside.call m₅.frame.pc).trans body.reaches.sameCall
    rw [ends] at call
    exact stands.poised_next procedure ⟨call, rfl, rfl, rfl⟩ (stands.body_counts fresh entered body bound) less small
      (behind ▸ room)

/-- What becomes of a loop over a list whose container has been evaluated. -/
theorem iterates (fresh : start.frame.IsFresh p) (reached : Reaches host calls start m)
    (here : m.frame.pc = ℓ.head lo) (top : m.frame.stack.top? = some (.list r))
    (small : (m.state.store.list r).size < 2 ^ 31) (room : m.frame.stack.height < m.frame.maxStack)
    (keeps : ∀ name, isHidden name = true → m.frame.Keeps m.state.store name) :
    Iterates ℓ o lo host calls r (m.state.store.list r).size m := by
  have procedure : m.frame.procedure = p := reached.sameCall.procedure.trans fresh.procedure
  obtain ⟨v, σ, items⟩ := stands.named fresh reached here
  obtain rfl : v = .list r := by simpa [Stack.top?, items] using top
  have starts : ℓ.IsPoised o lo host calls r (m.state.store.list r).size m.frame 0 m := by
    refine stands.poised_start procedure ⟨here ▸ .refl m.frame, rfl, rfl, items⟩ small ?_ keeps
    rw [m.frame.stack.height_eq, items] at room
    exact room
  generalize counted : (m.state.store.list r).size = size at small starts ⊢
  -- As many rounds are still to come as are left of the size.
  have goes (left : Nat) : ∀ i m₁, i + left = size → Rounds ℓ o lo host calls r m i m₁ → Reaches host calls start m₁ →
      ℓ.IsPoised o lo host calls r size m.frame i m₁ → Iterates ℓ o lo host calls r size m := by
    induction left with
    | zero =>
      rintro i m₁ rfl rounds _ ⟨own, σ, m₂, _, _, passes, ends⟩
      rw [if_neg (by omega)] at ends
      exact .completes rounds passes ends.call.pc
    | succ left ih =>
      intro i m₁ sum rounds reached poised
      have less : i < size := by omega
      rcases stands.round fresh procedure less small reached poised with
        ⟨short, m₂, broken, passes, reads, fails⟩ | ⟨m₂, begins, onward⟩
      · exact .outgrows less rounds short passes reads fails
      · obtain ⟨onto, enters⟩ := begins.enters
        have entered := reached.trans onto
        have code : m₂.frame.procedure.code = p.code :=
          congrArg Procedure.code (entered.sameCall.procedure.trans fresh.procedure)
        rcases passes_or_abandons stands.loop.inner stands.body code (by omega) fun _ => .rfl with
          ⟨m₃, body, ends⟩ | never
        · exact ih (i + 1) m₃ (by omega) (.more rounds begins body ends) (entered.trans body.reaches)
            (onward m₃ body ends)
        · exact .abandons less rounds begins never
  exact goes size 0 m (Nat.zero_add size) .none reached starts

/-- A loop over a list with elements needs room for one operand more than there are when its container has been
evaluated: if there is none, it fails where it reads the index in the first round. -/
theorem overflows (fresh : start.frame.IsFresh p) (reached : Reaches host calls start m)
    (here : m.frame.pc = ℓ.head lo) (top : m.frame.stack.top? = some (.list r))
    (small : (m.state.store.list r).size < 2 ^ 31) (some : 0 < (m.state.store.list r).size)
    (full : m.frame.stack.height = m.frame.maxStack)
    (keeps : ∀ name, isHidden name = true → m.frame.Keeps m.state.store name) :
    Overflows ℓ o lo host calls m := by
  have procedure : m.frame.procedure = p := reached.sameCall.procedure.trans fresh.procedure
  have loop := stands.loop
  rw [← procedure] at loop
  obtain ⟨v, σ, items⟩ := stands.named fresh reached here
  obtain rfl : v = .list r := by simpa [Stack.top?, items] using top
  rw [m.frame.stack.height_eq, items] at full
  have room : σ.length + 2 = m.frame.maxStack := full
  have counts := m.frame.locals.started_counts ℓ.number r (m.state.store.list r).size
  have goes := loop.comes host calls small (Nat.le_of_eq room) keeps
  rw [if_pos some] at goes
  obtain ⟨m', passes, there⟩ := goes.trans (loop.names host calls counts (Nat.le_of_eq room)) m
    ⟨here ▸ .refl m.frame, rfl, rfl, items⟩
  obtain ⟨broken, fails⟩ := there.load_fails host calls counts.index (Nat.le_of_eq room.symm) ℓ.place
  exact .fails passes there.call.pc (there.found (loop.opened (k := 18) rfl).2) fails

end StandsIn

end ForLoop

/-- What a loop over elements does, in a program whose source does not call `set` by name. Its code stands at one place
of its procedure. A frame that comes there evaluates the container once, or abandons that, and does not come back to it
in the loop. If the container is a list, the loop takes as many rounds as the list has elements then, whatever runs
meanwhile: each binds the variable to the element that is at the index of the round at that time. It ends earlier only
if the list has become too short, which is an error, or if a body never gets to its end. For that the frame must keep
what it assigns to hidden names, and have room for one more operand: without it, the loop over a list with elements
fails in its first round. -/
theorem Program.ofSource_iterates {source : String} (file : String) {o : LoweringOptions} {t : ModuleTree}
    (parsed : ModuleTree.ofSource source = .ok t) (none : ∀ c ∈ t.calls, ¬ c.Assigns) {d : Definition}
    (member : d ∈ t.definitions o.program) {ℓ : ForLoop} (among : ℓ ∈ d.forLoops) :
    d.procedure o ∈ (Program.ofSource source file o).procedures ∧
      ∃ lo, Segment (d.procedure o).code lo (ℓ.emit o) ∧
        (∀ pc, ℓ.InItems lo pc → ¬ ℓ.InControl o lo pc ∧ ¬ ℓ.InBody o lo pc) ∧
        ∀ (host : Host) (calls : Calls) (start m : Machine), start.frame.IsFresh (d.procedure o) →
          Machine.Reaches host calls start m →
            (m.frame.pc = lo → Machine.Abandons host calls (ℓ.InItems lo) m ∨
              ∃ m' v, Machine.Passes host calls (ℓ.InItems lo) m m' ∧ m'.frame.pc = ℓ.head lo ∧
                m'.frame.stack.top? = some v) ∧
            ∀ r, m.frame.pc = ℓ.head lo → m.frame.stack.top? = some (.list r) →
              (m.state.store.list r).size < 2 ^ 31 →
                (∀ name, isHidden name = true → m.frame.Keeps m.state.store name) →
                  (m.frame.stack.height < m.frame.maxStack →
                    ℓ.Iterates o lo host calls r (m.state.store.list r).size m) ∧
                  (m.frame.stack.height = m.frame.maxStack → 0 < (m.state.store.list r).size →
                    ℓ.Overflows o lo host calls m) := by
  obtain ⟨compiled, lo, stands⟩ := ForLoop.standsIn file parsed none member among
  have order : ℓ.head lo ≤ ℓ.entry lo ∧ ℓ.entry lo ≤ ℓ.back o lo := ⟨Nat.le_add_right .., Nat.le_add_right ..⟩
  refine ⟨compiled, lo, stands.code, ?_, fun host calls start m fresh reached => ⟨fun here => ?_, fun r => ?_⟩⟩
  · rintro pc ⟨_, before⟩
    refine ⟨?_, fun ⟨above, _⟩ => by omega⟩
    rintro (⟨above, _⟩ | ⟨above, _⟩) <;> omega
  · have code : m.frame.procedure.code = (d.procedure o).code :=
      congrArg Procedure.code (reached.sameCall.procedure.trans fresh.procedure)
    rcases Machine.passes_or_abandons stands.starts stands.container code (by omega) fun _ => .rfl with
      ⟨m', passes, ends⟩ | never
    · obtain ⟨v, σ, items⟩ := stands.named fresh (reached.trans passes.reaches) ends
      exact .inr ⟨m', v, passes, ends, by rw [Stack.top?, items]; rfl⟩
    · exact .inl never
  · exact fun here top small keeps => ⟨fun room => stands.iterates fresh reached here top small room keeps,
      fun full some => stands.overflows fresh reached here top small some full keeps⟩

namespace ForLoop

/-- A text with a loop over what a procedure is given, which gets as many elements again. -/
def overElements : String := "def f(a) { for (x : a) { a.append(x); } }"

/-- The loop of the text. -/
def overElementsLoop : ForLoop :=
  ⟨.start, ⟨1, 12⟩, "x", ⟨1, 17⟩, .variable "a" ⟨1, 21⟩,
    [.eval ⟨1, 1⟩ (.send (.variable "a" ⟨1, 26⟩) "append" [none] [.variable "x" ⟨1, 35⟩] ⟨1, 28⟩)]⟩

@[match_pattern]
def overElementsTree : ModuleTree where
  items := [.function ⟨⟨1, 1⟩, "f", [⟨"a", none⟩], [.forLoop overElementsLoop.place overElementsLoop.name
    overElementsLoop.namePlace overElementsLoop.items overElementsLoop.body]⟩]
  stop := ⟨1, 42⟩

/-- Whether a text was read as that tree. -/
def isOverElements : Except Fault ModuleTree → Bool
  | .ok overElementsTree => true
  | _ => false

theorem overElements_parsed :
    ModuleTree.ofSource overElements = .ok overElementsTree ∧ ∀ c ∈ overElementsTree.calls, ¬ c.Assigns := by
  have read : isOverElements (ModuleTree.ofSource overElements) = true := by decide +kernel
  unfold isOverElements at read
  split at read
  · next same => exact ⟨same, by decide⟩
  · cases read

/-- The procedure of the text. -/
def overElementsDefinition : Definition :=
  ⟨"f", [⟨"a", none⟩], none, 1, [.block .start [.forLoop overElementsLoop.place overElementsLoop.name
    overElementsLoop.namePlace overElementsLoop.items overElementsLoop.body]]⟩

theorem overElements_member : overElementsDefinition ∈ overElementsTree.definitions 0 ∧
    overElementsLoop ∈ overElementsDefinition.forLoops := ⟨List.mem_cons_self, List.mem_cons_self⟩

/-- The procedure before its first instruction, given a list with two elements, with room for so many operands. -/
def overElementsEntered (maxStack : Nat) : Machine where
  frame := ⟨overElementsDefinition.procedure ⟨0, false⟩, none, 0, "demo", .procedure (Table.empty.set "a" (.list ⟨0⟩)),
    .empty, [], 0, ⟨1, 1⟩, maxStack⟩
  state := { State.start with store := { Store.empty with lists := #[#[.null, .bool true]] } }

/-- What is known where the loop has evaluated its container. -/
structure IsAtElements (maxStack : Nat) (m : Machine) : Prop where
  pc : m.frame.pc = 2
  top : m.frame.stack.top? = some (.list ⟨0⟩)
  height : m.frame.stack.height = 2
  room : m.frame.maxStack = maxStack
  size : (m.state.store.list ⟨0⟩).size = 2
  keeps : ∀ name, isHidden name = true → m.frame.Keeps m.state.store name

theorem overElements_comes (host : Host) (calls : Calls) {maxStack : Nat} (room : 2 ≤ maxStack) :
    ∃ m, Machine.Reaches host calls (overElementsEntered maxStack) m ∧ IsAtElements maxStack m := by
  let start := overElementsEntered maxStack
  have goes : Machine.Brings host calls (fun _ => True) start.frame start.state.store start.frame.locals 0 []
      start.frame.locals 2 [.list ⟨0⟩, .string (hiddenName "iter" 0)] := by
    refine .trans (Machine.Brings.value ⟨trivial, rfl⟩ (Nat.lt_of_succ_lt room)) ?_
    exact Machine.Brings.load ⟨trivial, rfl⟩ rfl room
  obtain ⟨m, passes, there⟩ := goes start ⟨.refl _, rfl, rfl, rfl⟩
  refine ⟨m, passes.reaches, there.call.pc, ?_, there.height, there.call.maxStack, there.store ▸ rfl, fun name _ => ?_⟩
  · rw [Stack.top?, there.stack]
    rfl
  · exact there.keeps fun _ _ _ => ⟨rfl, rfl⟩

/-- Where the code of the procedure is that of the loop. -/
theorem overElements_lo {lo : Nat}
    (stands : Segment (overElementsDefinition.procedure ⟨0, false⟩).code lo (overElementsLoop.emit ⟨0, false⟩)) :
    lo = 0 := by
  have long : (overElementsDefinition.procedure ⟨0, false⟩).code.size = (overElementsLoop.emit ⟨0, false⟩).length := rfl
  have inside := stands.inside
  omega

/-- With room for a few operands, the loop is carried out. -/
theorem overElements_iterates :
    ModuleTree.ofSource overElements = .ok overElementsTree ∧ (∀ c ∈ overElementsTree.calls, ¬ c.Assigns) ∧
      overElementsDefinition ∈ overElementsTree.definitions 0 ∧ overElementsLoop ∈ overElementsDefinition.forLoops ∧
      ∃ m, Machine.Reaches .none (.nested .none 0 0) (overElementsEntered 8) m ∧ IsAtElements 8 m ∧
        overElementsLoop.Iterates ⟨0, false⟩ 0 .none (.nested .none 0 0) ⟨0⟩ 2 m := by
  obtain ⟨parsed, none⟩ := overElements_parsed
  obtain ⟨member, among⟩ := overElements_member
  obtain ⟨m, reached, here⟩ := overElements_comes .none (.nested .none 0 0) (show 2 ≤ 8 by decide)
  obtain ⟨_, lo, stands, _, iterates⟩ := Program.ofSource_iterates "demo" (o := ⟨0, false⟩) parsed none member among
  obtain rfl := overElements_lo stands
  refine ⟨parsed, none, member, among, m, reached, here, ?_⟩
  have room : m.frame.stack.height < m.frame.maxStack := by
    rw [here.height, here.room]
    decide
  have carried := ((iterates .none (.nested .none 0 0) (overElementsEntered 8) m ⟨rfl, rfl, rfl, rfl⟩ reached).2 ⟨0⟩
    here.pc here.top (by rw [here.size]; decide) here.keeps).1 room
  rwa [here.size] at carried

/-- Each of the two elements that were there at the start was appended once. -/
example : (finalState (Machine.execute .none (.nested .none 0 0) 200 (overElementsEntered 8))).state.store.lists.map
    Array.size = #[4] := by
  decide +kernel

/-- Without room for one more operand it fails before its first round. -/
theorem overElements_overflows :
    ModuleTree.ofSource overElements = .ok overElementsTree ∧ (∀ c ∈ overElementsTree.calls, ¬ c.Assigns) ∧
      overElementsDefinition ∈ overElementsTree.definitions 0 ∧ overElementsLoop ∈ overElementsDefinition.forLoops ∧
      Segment (overElementsDefinition.procedure ⟨0, false⟩).code 0 (overElementsLoop.emit ⟨0, false⟩) ∧
      ∃ m, Machine.Reaches .none (.nested .none 0 0) (overElementsEntered 2) m ∧ IsAtElements 2 m ∧
        ¬ overElementsLoop.Iterates ⟨0, false⟩ 0 .none (.nested .none 0 0) ⟨0⟩ 2 m := by
  obtain ⟨parsed, none⟩ := overElements_parsed
  obtain ⟨member, among⟩ := overElements_member
  obtain ⟨m, reached, here⟩ := overElements_comes .none (.nested .none 0 0) (Nat.le_refl 2)
  obtain ⟨_, lo, stands⟩ := standsIn "demo" (o := ⟨0, false⟩) parsed none member among
  obtain rfl := overElements_lo stands.code
  refine ⟨parsed, none, member, among, stands.code, m, reached, here, fun iterates => ?_⟩
  have some : 0 < (m.state.store.list ⟨0⟩).size := by
    rw [here.size]
    decide
  obtain ⟨passes, stuck, found, fails⟩ := stands.overflows ⟨rfl, rfl, rfl, rfl⟩ reached here.pc here.top
    (by rw [here.size]; decide) some (here.height.trans here.room.symm) here.keeps
  have unguarded := (reached.trans passes.reaches).unguarded (by decide) rfl
  obtain ⟨ending, ended⟩ := Machine.turn_fails found fails unguarded
  -- Whatever becomes of the loop, its first round would have to begin.
  obtain ⟨m₂, begins⟩ := iterates.begins Nat.two_pos some
  obtain ⟨onto, enters⟩ := begins.enters
  have entry : overElementsLoop.entry 0 = 23 := rfl
  have back : overElementsLoop.back ⟨0, false⟩ 0 = 27 := rfl
  have head : overElementsLoop.head 0 = 2 := rfl
  rcases passes.among ended onto with (⟨_, below⟩ | ⟨above, _⟩) | rfl <;> omega

end ForLoop

end ScriptEngine
