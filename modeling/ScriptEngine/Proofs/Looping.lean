import Mathlib.Tactic.IntervalCases
import ScriptEngine.Proofs.Loops
import ScriptEngine.Proofs.Stretches

/-! # The code of a loop

A loop over elements has instructions of its own before those of its body and behind them. Nothing in its body writes
its variables, however the body is written: whatever assigns a variable of the loop has an instruction that reads one
close by, and in the body there is none. And where the body ends, as much is on the operand stack as where the loop asks
for the next round.
-/

namespace ScriptEngine

namespace Fragment

/-- The instructions of a loop between those of its container and those of its body, of which there are so many. -/
def forOpening (n : Nat) (place : Position) (name : String) (namePlace : Position) (size : Nat) : List Instruction :=
  let container : Instruction := .load (hiddenName "iter" n) place
  let length : Instruction := .load (hiddenName "len" n) place
  let index : Instruction := .load (hiddenName "idx" n) place
  let send (method : String) (count : Nat) : Instruction := .send (.positional method count place)
  let set (place : Position) : Instruction := .call (.positional "set" 2 place)
  [set place,
    .value (.string (hiddenName "len" n)), container, send "size" 0, set place,
    .value (.string (hiddenName "idx" n)), .value (.number 0), set place,
    length, .value (.number 0), send "__eq__" 1, .branch .ifTrue (.relative (size + 16)),
    index, length, send "__lt__" 1, .branch .ifFalse (.relative (size + 12)),
    .value (.string name), container, index, send "__index__" 1, set namePlace]

/-- The instructions of a loop behind those of its body. -/
def forClosing (n : Nat) (place : Position) (size : Nat) : List Instruction :=
  [.value (.string (hiddenName "idx" n)), .load (hiddenName "idx" n) place, .value (.number 1),
    .send (.positional "__add__" 1 place), .call (.positional "set" 2 place),
    .branch .always (.relative (-(size + 14)))]

theorem forLoop_parts (n : Nat) (place : Position) (name : String) (namePlace : Position)
    (items body : List Instruction) :
    forLoop n place name namePlace items body =
      (.value (.string (hiddenName "iter" n)) :: items) ++ (forOpening n place name namePlace body.length ++
        (body ++ forClosing n place body.length)) := by
  simp [forLoop, assign, skipIf, whileLoop, forOpening, forClosing]
  omega

end Fragment

/-- The code of a loop stands in a code: at `head` it goes on behind its container, at `entry` its body begins, and at
`back` its body ends. -/
structure LoopAt (code : Array Instruction) (n : Nat) (place : Position) (name : String) (namePlace : Position)
    (body : List Instruction) (head entry back : Nat) : Prop where
  entry_eq : entry = head + 21
  back_eq : back = entry + body.length
  opening : Segment code head (Fragment.forOpening n place name namePlace body.length)
  inner : Segment code entry body
  closing : Segment code back (Fragment.forClosing n place body.length)

section

variable {code : Array Instruction} {n lo pc head entry back : Nat} {place namePlace : Position} {name : String}
  {items body : List Instruction} {i : Instruction}

theorem Segment.loopAt (seg : Segment code lo (Fragment.forLoop n place name namePlace items body)) :
    LoopAt code n place name namePlace body (lo + items.length + 1) (lo + items.length + 22)
      (lo + items.length + 22 + body.length) := by
  rw [Fragment.forLoop_parts] at seg
  have opening := seg.right.left.cast (show _ = lo + items.length + 1 by simp; omega)
  have inner := seg.right.right.cast (show _ = lo + items.length + 22 by simp [Fragment.forOpening]; omega)
  exact ⟨rfl, rfl, opening, inner.left, inner.right⟩

/-- Instructions that can write a variable. -/
def Instruction.isWriter : Instruction → Bool
  | .call _ | .caught _ => true
  | _ => false

theorem Machine.write?_isWriter {m : Machine} {v : Value} (found : m.frame.procedure.code[m.frame.pc]? = some i)
    (write : m.write? = some (name, v)) : i.isWriter = true := by
  rw [write?, found] at write
  cases i with
  | call | caught => rfl
  | _ => cases write

/-- Close to an instruction of a loop that writes a variable, there is one that reads a variable of the loop. -/
inductive Adjoins (code : Array Instruction) (n pc : Nat) : Prop
  | after {d : Nat} {role : String} {place : Position} (near : d = 1 ∨ d = 2) (other : role ≠ "idx")
    (load : code[pc + d]? = some (.load (hiddenName role n) place))
  | before {at_ d : Nat} {role : String} {place : Position} (near : d = 2 ∨ d = 3) (same : pc = at_ + d)
    (load : code[at_]? = some (.load (hiddenName role n) place))
    (unlike : d = 3 → role ≠ "idx" ∨ code[at_ + 1]? = some (.value (.number 1)))

theorem OwnAt.adjoins (own : OwnAt code n lo pc) (found : code[pc]? = some i) (writes : i.isWriter = true) :
    Adjoins code n pc := by
  obtain ⟨place, name, namePlace, items, body, seg, above, below, outside, outside'⟩ := own
  obtain ⟨_, _, opening, _, closing⟩ := seg.loopAt
  rw [Fragment.length_forLoop] at below
  rw [Fragment.bodyStart] at outside'
  have names : "iter" ≠ "idx" ∧ "len" ≠ "idx" := by decide
  by_cases first : pc = lo
  · rw [Fragment.forLoop_parts] at seg
    rw [first, seg.head] at found
    cases found
    cases writes
  by_cases early : pc < lo + items.length + 22
  · obtain ⟨x, rfl⟩ : ∃ x, pc = lo + items.length + 1 + x := ⟨pc - (lo + items.length + 1), by omega⟩
    have small : x < 21 := by omega
    have here := opening.get
      (List.getElem?_eq_getElem (l := Fragment.forOpening n place name namePlace body.length) small)
    rw [found] at here
    cases here
    interval_cases x <;> try cases writes
    · exact .after (.inr rfl) names.1 (opening.get (k := 2) rfl)
    · exact .before (.inl rfl) rfl (opening.get (k := 2) rfl) fun far => absurd far (by decide)
    · exact .after (.inl rfl) names.2 (opening.get (k := 8) rfl)
    · exact .before (.inr rfl) rfl (opening.get (k := 17) rfl) fun _ => .inl names.1
  · obtain ⟨y, rfl⟩ : ∃ y, pc = lo + items.length + 22 + body.length + y :=
      ⟨pc - (lo + items.length + 22 + body.length), by omega⟩
    have small : y < 6 := by omega
    have here := closing.get (List.getElem?_eq_getElem (l := Fragment.forClosing n place body.length) small)
    rw [found] at here
    cases here
    interval_cases y <;> try cases writes
    exact .before (.inr rfl) rfl (closing.get (k := 1) rfl) fun _ => .inr (closing.get (k := 2) rfl)

/-- An instruction of the body of a loop that reads no variable of the loop is not close to one that does. -/
theorem LoopAt.not_adjoins (loop : LoopAt code n place name namePlace body head entry back)
    (free : ∀ role place, .load (hiddenName role n) place ∉ body) (above : entry ≤ pc) (below : pc < back) :
    ¬ Adjoins code n pc := by
  have entered := loop.entry_eq
  have left := loop.back_eq
  have outside {role : String} {place : Position} {at_ : Nat}
      (load : code[at_]? = some (.load (hiddenName role n) place)) :
      at_ < entry ∨ back ≤ at_ := by
    by_contra inside
    obtain ⟨k, rfl⟩ : ∃ k, at_ = entry + k := ⟨at_ - entry, by omega⟩
    have within : k < body.length := by omega
    have here := loop.inner.get (List.getElem?_eq_getElem within)
    rw [load] at here
    exact free role place (Option.some.inj here ▸ List.getElem_mem within)
  have opened {x : Nat} {i : Instruction}
      (there : (Fragment.forOpening n place name namePlace body.length)[x]? = some i) {at_ : Nat}
      (same : at_ = head + x) : code[at_]? = some i := same ▸ loop.opening.get there
  have closed {y : Nat} {i : Instruction} (there : (Fragment.forClosing n place body.length)[y]? = some i)
      {at_ : Nat} (same : at_ = back + y) : code[at_]? = some i := same ▸ loop.closing.get there
  rintro (⟨near, other, load⟩ | @⟨at_, d, role, _, near, rfl, load, unlike⟩)
  · rename_i d role _
    rcases outside load with early | late
    · omega
    · obtain first | second : pc + d = back + 0 ∨ pc + d = back + 1 := by omega
      · cases load.symm.trans (closed (y := 0) rfl first)
      · have same := load.symm.trans (closed (y := 1) rfl second)
        injection same with same
        injection same with same
        exact other (hiddenName_inj same).1
  · rcases outside load with early | late
    · obtain third | second | first : at_ = head + 18 ∧ d = 3 ∨ at_ = head + 19 ∨ at_ = head + 20 := by omega
      · have same := load.symm.trans (opened (x := 18) rfl third.1)
        injection same with same
        injection same with same
        rcases unlike third.2 with other | number
        · exact other (hiddenName_inj same).1
        · cases number.symm.trans (opened (x := 19) rfl (by omega))
      · cases load.symm.trans (opened (x := 19) rfl second)
      · cases load.symm.trans (opened (x := 20) rfl first)
    · omega

/-- Code with charts reads only the hidden variables of its own loops. -/
theorem Charts.reads {a b : Nat} {is : List Instruction} (charts : Charts a b is)
    (load : .load name place ∈ is) (hidden : isHidden name = true) : ∃ role n, name = hiddenName role n ∧ a ≤ n := by
  obtain ⟨home, all⟩ := charts is.toArray 0 (.whole _)
  obtain ⟨c, _, marks⟩ := all [] _ [] rfl
  obtain ⟨k, inside, found⟩ := List.mem_iff_getElem.mp load
  obtain ⟨_, i, next, marked⟩ := marks k (Nat.zero_le k) (by omega)
  have here : is.toArray[k]? = some (.load name place) := by
    rw [List.getElem?_toArray, List.getElem?_eq_getElem (by omega), found]
  obtain ⟨role, n, named, above, _⟩ := marked.uses name hidden (.reads (Option.some.inj (marked.found.symm.trans here)))
  exact ⟨role, n, named, above⟩

end

section

variable {size pc : Nat} {i : Instruction} {σ : Sketch} {next : List (Nat × Sketch)} {x : Nat × Sketch}

/-- Below what an instruction puts on the stack is what it leaves there. -/
theorem Draws.names (draws : Draws size i pc σ next) (among : x ∈ next) :
    ∃ ks, ks.length = i.pushes ∧ x.2.names = ks ++ σ.names.drop i.pops := by
  cases draws with
  | name s =>
    rw [List.mem_singleton.mp among]
    exact ⟨[some s], rfl, rfl⟩
  | next plain =>
    rw [List.mem_singleton.mp among]
    exact ⟨_, List.length_replicate, rfl⟩
  | assign named two =>
    rw [List.mem_singleton.mp among]
    exact ⟨[], by simp [Instruction.pushes, named], by simp [Instruction.pops, two]⟩
  | jump lands =>
    obtain ⟨⟨n, rfl⟩, _⟩ := landing?_index lands
    rw [List.mem_singleton.mp among]
    exact ⟨[], rfl, rfl⟩
  | test conditional =>
    refine ⟨[], rfl, ?_⟩
    rw [Instruction.pops_test conditional]
    rcases List.mem_pair.mp among with rfl | rfl <;> rfl
  | ret => cases among
  | enterTry | leaveTry =>
    rw [List.mem_singleton.mp among]
    exact ⟨[], rfl, rfl⟩

theorem Draws.onward (draws : Draws size i pc σ next) (goes : ∀ offset, i ≠ .branch .always offset) :
    ∃ x ∈ next, x.1 = pc + 1 := by
  cases draws with
  | jump | ret => exact absurd rfl (goes _)
  | _ => exact ⟨_, List.mem_cons_self, rfl⟩

theorem Draws.target {offset : Offset} {target : Nat} (draws : Draws size (.branch .always offset) pc σ next)
    (lands : landing? pc offset size = some (.index target)) : ∃ x ∈ next, x.1 = target := by
  cases draws with
  | next plain => cases plain
  | jump lands' =>
    rw [lands] at lands'
    cases lands'
    exact ⟨_, List.mem_singleton_self _, rfl⟩
  | test conditional => exact absurd rfl conditional
  | ret => cases lands

end

namespace Chart.Maps

variable {c : Chart} {own : String → Nat → Prop} {code : Array Instruction} {pc : Nat} {i : Instruction}

/-- A chart of a whole code at an index that is led to. -/
theorem sketch_eq {x : Nat × Sketch} {more : String → Prop}
    (leads : c.Leads 0 code.size [(code.size, ⟨[], []⟩)] pc more x) (inside : x.1 < code.size) :
    c.sketch x.1 = x.2 := by
  rcases leads with ⟨_, _, same, _⟩ | ended
  · exact same
  · rw [List.mem_singleton.mp ended] at inside
    omega

/-- What is known of the stack behind an instruction. -/
theorem names_next (maps : c.Maps own code) (found : code[pc]? = some i) (goes : ∀ offset, i ≠ .branch .always offset)
    (inside : pc + 1 < code.size) :
    ∃ ks, ks.length = i.pushes ∧ (c.sketch (pc + 1)).names = ks ++ (c.sketch pc).names.drop i.pops := by
  obtain ⟨j, next, marks⟩ := maps pc (by omega)
  obtain rfl : i = j := Option.some.inj (found.symm.trans marks.found)
  obtain ⟨x, among, here⟩ := marks.draws.onward goes
  have same := sketch_eq (marks.onward x among) (here ▸ inside)
  rw [← here, same]
  exact marks.draws.names among

theorem height_next (maps : c.Maps own code) (found : code[pc]? = some i) (goes : ∀ offset, i ≠ .branch .always offset)
    (inside : pc + 1 < code.size) :
    (c.sketch (pc + 1)).names.length = i.pushes + ((c.sketch pc).names.length - i.pops) := by
  obtain ⟨ks, count, same⟩ := maps.names_next found goes inside
  rw [same, List.length_append, List.length_drop, count]

/-- A jump leaves the stack as it is. -/
theorem names_jump {offset : Offset} {target : Nat} (maps : c.Maps own code)
    (found : code[pc]? = some (.branch .always offset))
    (lands : landing? pc offset code.size = some (.index target)) (inside : target < code.size) :
    (c.sketch target).names = (c.sketch pc).names := by
  obtain ⟨j, next, marks⟩ := maps pc (Array.getElem?_eq_some_iff.mp found).1
  obtain rfl : _ = j := Option.some.inj (found.symm.trans marks.found)
  obtain ⟨x, among, here⟩ := marks.draws.target lands
  have same := sketch_eq (marks.onward x among) (here ▸ inside)
  obtain ⟨ks, none, names⟩ := marks.draws.names among
  obtain ⟨⟨n, rfl⟩, _⟩ := landing?_index lands
  rw [← here, same, names, List.eq_nil_of_length_eq_zero none]
  rfl

/-- Operand code leaves on the stack what was there, with so many values above it. -/
theorem names_pushes {C : Instruction → Prop} (maps : c.Maps own code) (calls : CallsOnly C) {n lo : Nat}
    {is : List Instruction} (h : Pushes C n is) (seg : Segment code lo is) (inside : lo + is.length < code.size) :
    ∃ ks, ks.length = n ∧ (c.sketch (lo + is.length)).names = ks ++ (c.sketch lo).names := by
  induction h generalizing lo with
  | nil => exact ⟨[], rfl, rfl⟩
  | append _ _ first second =>
    rw [List.length_append, ← Nat.add_assoc] at inside ⊢
    obtain ⟨ks, count, below⟩ := first seg.left (by omega)
    obtain ⟨ks', count', above⟩ := second seg.right inside
    exact ⟨ks' ++ ks, by rw [List.length_append, count, count', Nat.add_comm], by rw [above, below, List.append_assoc]⟩
  | value => exact maps.names_next seg.head (by simp) inside
  | load => exact maps.names_next seg.head (by simp) inside
  | @call site a known _ operands =>
    rw [List.length_append] at inside
    obtain ⟨ks, count, below⟩ := operands seg.left (by omega)
    obtain ⟨ks', one, above⟩ := maps.names_next seg.right.head (by simp) inside
    rw [Instruction.pushes, if_neg (calls site known)] at one
    refine ⟨ks', one, ?_⟩
    rw [List.length_append]
    refine above.trans ?_
    rw [below, Instruction.pops, List.drop_left' count]
  | send _ _ operands =>
    rw [List.length_append] at inside
    obtain ⟨ks, count, below⟩ := operands seg.left (by omega)
    obtain ⟨ks', one, above⟩ := maps.names_next seg.right.head (by simp) inside
    refine ⟨ks', one, ?_⟩
    rw [List.length_append]
    refine above.trans ?_
    rw [below, Instruction.pops, List.drop_left' count]
  | @shortCircuit kind decided left right conditional _ _ first second =>
    have size : (Fragment.shortCircuit kind decided left right).length = left.length + 1 + right.length + 2 := by
      simp [Fragment.shortCircuit]
      omega
    rw [size] at inside ⊢
    have asked := seg.left.right
    have last := seg.right.cast (show _ = lo + left.length + 1 + right.length by simp; omega)
    -- The way through both operands; the other one meets it at the end.
    obtain ⟨ks, one, below⟩ := first seg.left.left (by omega)
    obtain ⟨ks', none, tested⟩ :=
      maps.names_next asked.head (by simpa using fun same => absurd same conditional) (by omega)
    obtain ⟨ks'', one', above⟩ := second asked.tail (by omega)
    have skip : landing? (lo + left.length + 1 + right.length) (.relative 2) code.size =
        some (.index (lo + (left.length + 1 + right.length + 2))) := landing?_relative (by omega) (by omega)
    refine ⟨ks'', one', ?_⟩
    rw [maps.names_jump last.head skip (by omega), above, tested, below, Instruction.pops_test conditional,
      List.drop_left' one, List.eq_nil_of_length_eq_zero none, List.nil_append]

end Chart.Maps

namespace ForLoop

variable (ℓ : ForLoop) (o : LoweringOptions) (lo : Nat)

/-- Where a loop whose code starts at an index assigns what it has for its container. -/
def head : Nat := lo + ℓ.items.emit.length + 1

/-- Where the body of the loop begins. -/
def entry : Nat := ℓ.head lo + 21

/-- Where the body of the loop ends. -/
def back : Nat := ℓ.entry lo + (ℓ.bodyCode o).length

/-- Where the loop ends. -/
def stop : Nat := ℓ.back o lo + 6

/-- A procedure in which a loop stands, and what its runs keep to: when the loop starts, its container is on the operand
stack above the name of the variable that it is for; there is as much on the stack at the end of the body as there is
when a round begins; and no variable of the loop is written in the body. -/
structure StandsIn (p : Procedure) : Prop where
  code : Segment p.code lo (ℓ.emit o)
  plain : isHidden ℓ.name = false
  container : Targets 0 0 (.value (.string (hiddenName "iter" ℓ.number)) :: ℓ.items.emit)
  body : Targets 0 0 (ℓ.bodyCode o)
  named : ∀ {host calls start m}, start.frame.IsFresh p → Machine.Reaches host calls start m →
    m.frame.pc = ℓ.head lo → ∃ v σ, m.frame.stack.items = v :: .string (hiddenName "iter" ℓ.number) :: σ
  level : ∃ height, ∀ {host calls start m}, start.frame.IsFresh p → Machine.Reaches host calls start m →
    m.frame.pc = ℓ.head lo + 16 ∨ m.frame.pc = ℓ.back o lo → m.frame.stack.height = height
  hidden : ∀ {host calls start m}, start.frame.IsFresh p → Machine.Reaches host calls start m →
    ℓ.entry lo ≤ m.frame.pc → m.frame.pc < ℓ.back o lo → ∀ role v, m.write? ≠ some (hiddenName role ℓ.number, v)

namespace StandsIn

variable {ℓ o lo} {p : Procedure} (stands : ℓ.StandsIn o lo p)
include stands

theorem starts : Segment p.code lo (.value (.string (hiddenName "iter" ℓ.number)) :: ℓ.items.emit) := by
  have code := stands.code
  rw [emit, Fragment.forLoop_parts] at code
  exact code.left

theorem loop :
    LoopAt p.code ℓ.number ℓ.place ℓ.name ℓ.namePlace (ℓ.bodyCode o) (ℓ.head lo) (ℓ.entry lo) (ℓ.back o lo) :=
  stands.code.loopAt

end StandsIn

end ForLoop

section

variable {code : Array Instruction} {n lo head entry back : Nat} {place namePlace : Position} {name : String}
  {items body : List Instruction} {c : Chart} {own : String → Nat → Prop}

/-- A string that is charted as a name is that name. -/
theorem Draws.value_named {size pc : Nat} {s : String} {σ : Sketch} {next : List (Nat × Sketch)} {x : Nat × Sketch}
    (draws : Draws size (.value (.string s)) pc σ next) (among : x ∈ next) {rest : List (Option String)}
    (top : x.2.names = some name :: rest) : name = s := by
  cases draws with
  | name =>
    rw [List.mem_singleton.mp among] at top
    exact (Option.some.inj (List.cons.inj top).1).symm
  | next =>
    rw [List.mem_singleton.mp among] at top
    cases top

/-- Where a chart has an assignment, it has a name below a value. -/
theorem Draws.assign_named {size pc : Nat} {site : CallSite} {σ : Sketch} {next : List (Nat × Sketch)}
    (draws : Draws size (.call site) pc σ next) (named : site.name = "set") :
    ∃ k name rest, σ.names = k :: some name :: rest := by
  cases draws with
  | next plain => exact absurd named (by simpa [Instruction.goesOn] using plain)
  | assign _ _ k name _ σ η => exact ⟨k, name, σ, rfl⟩

/-- So is one that stands below what is charted for operand code. -/
theorem Chart.Maps.operand_named {C : Instruction → Prop} (maps : c.Maps own code) (calls : CallsOnly C) {s : String}
    (value : Pushes C 1 items) (seg : Segment code lo (.value (.string s) :: items))
    (inside : lo + items.length + 1 < code.size) {k : Option String} {rest : List (Option String)}
    (above : (c.sketch (lo + items.length + 1)).names = k :: some name :: rest) : name = s := by
  obtain ⟨ks, one, below⟩ := maps.names_pushes calls value seg.tail (by omega)
  obtain ⟨k', rfl⟩ := List.length_eq_one_iff.mp one
  rw [Nat.add_right_comm, above] at below
  have top := (List.cons.inj below).2.symm
  obtain ⟨i, next, marks⟩ := maps lo (by omega)
  obtain rfl := Option.some.inj (seg.head.symm.trans marks.found)
  obtain ⟨x, among, here⟩ := marks.draws.onward (by simp)
  rw [← here, sketch_eq (marks.onward x among) (by omega)] at top
  exact marks.draws.value_named among top

/-- When a loop starts, the name of the variable for its container is charted below a value. -/
theorem LoopAt.names_head (loop : LoopAt code n place name namePlace body (lo + items.length + 1) entry back)
    (maps : c.Maps own code) (starts : Segment code lo (.value (.string (hiddenName "iter" n)) :: items))
    (container : Pushes Instruction.IsNoAssignment 1 items) :
    ∃ k rest, (c.sketch (lo + items.length + 1)).names = k :: some (hiddenName "iter" n) :: rest := by
  have assigns := loop.opening.get (k := 0) rfl
  have inside := (Array.getElem?_eq_some_iff.mp assigns).1
  obtain ⟨i, next, marks⟩ := maps _ inside
  obtain rfl := Option.some.inj (assigns.symm.trans marks.found)
  obtain ⟨k, name, rest, same⟩ := marks.draws.assign_named rfl
  rw [← maps.operand_named callsOnly_isNoAssignment container starts (by omega) same]
  exact ⟨k, rest, same⟩

/-- There is as much on the operand stack at the end of the body as there is when a round begins. -/
theorem LoopAt.height_back (loop : LoopAt code n place name namePlace body head entry back) (maps : c.Maps own code) :
    (c.sketch back).names.length = (c.sketch (head + 16)).names.length := by
  let height (pc : Nat) : Nat := (c.sketch pc).names.length
  have last := (Array.getElem?_eq_some_iff.mp (loop.closing.get (k := 5) rfl)).1
  have order : head + 21 ≤ back := by
    rw [loop.back_eq, loop.entry_eq]
    exact Nat.le_add_right ..
  have lands : landing? (back + 5) (.relative (-(body.length + 14))) code.size = some (.index (head + 12)) :=
    landing?_relative (by rw [loop.back_eq, loop.entry_eq]; omega) (by omega)
  have jumps : height (head + 12) = height (back + 5) :=
    congrArg List.length (maps.names_jump (loop.closing.get (k := 5) rfl) lands (by omega))
  -- Behind the body: the name, the index, one, their sum, and the assignment that takes it.
  have name : height (back + 1) = 1 + (height back - 0) :=
    maps.height_next (loop.closing.get (k := 0) rfl) (by simp) (by omega)
  have index : height (back + 2) = 1 + (height (back + 1) - 0) :=
    maps.height_next (loop.closing.get (k := 1) rfl) (by simp) (by omega)
  have one : height (back + 3) = 1 + (height (back + 2) - 0) :=
    maps.height_next (loop.closing.get (k := 2) rfl) (by simp) (by omega)
  have sum : height (back + 4) = 1 + (height (back + 3) - 2) :=
    maps.height_next (loop.closing.get (k := 3) rfl) (by simp) (by omega)
  have set : height (back + 5) = 0 + (height (back + 4) - 2) :=
    maps.height_next (loop.closing.get (k := 4) rfl) (by simp) (by omega)
  -- Before a round: the index, the size, whether it is less, and the branch that asks.
  have index' : height (head + 13) = 1 + (height (head + 12) - 0) :=
    maps.height_next (loop.opening.get (k := 12) rfl) (by simp) (by omega)
  have size : height (head + 14) = 1 + (height (head + 13) - 0) :=
    maps.height_next (loop.opening.get (k := 13) rfl) (by simp) (by omega)
  have less : height (head + 15) = 1 + (height (head + 14) - 2) :=
    maps.height_next (loop.opening.get (k := 14) rfl) (by simp) (by omega)
  have asked : height (head + 16) = 0 + (height (head + 15) - 1) :=
    maps.height_next (loop.opening.get (k := 15) rfl) (by simp) (by omega)
  change height back = height (head + 16)
  omega

end

/-- Loops stand in the procedures of their program, if no call of the source assigns. -/
theorem ForLoop.standsIn {source : String} (file : String) {o : LoweringOptions} {t : ModuleTree}
    (parsed : ModuleTree.ofSource source = .ok t) (none : ∀ c ∈ t.calls, ¬ c.Assigns) {d : Definition}
    (member : d ∈ t.definitions o.program) {ℓ : ForLoop} (among : ℓ ∈ d.forLoops) :
    d.procedure o ∈ (Program.ofSource source file o).procedures ∧ ∃ lo, ℓ.StandsIn o lo (d.procedure o) := by
  have compiled : d.procedure o ∈ (Program.ofSource source file o).procedures := by
    obtain ⟨parts, same, lowered⟩ := Program.ofSource_eq file o parsed
    rw [same]
    exact lowered.mem_procedures_iff.mpr ⟨d, member, rfl⟩
  obtain ⟨⟨lo, seg⟩, plain, known⟩ := ModuleTree.forLoop_known parsed none member among
  obtain ⟨named, bodies⟩ := (allPlain_cons _ _).mp plain
  obtain ⟨home, a, b, c, entry, marks⟩ := Program.ofSource_charted parsed none compiled
  have maps : c.Maps (Own (d.procedure o).code home a b) (d.procedure o).code :=
    fun pc below => (marks pc (Nat.zero_le pc) below).2
  have loop := seg.loopAt
  have starts := seg
  rw [ForLoop.emit, Fragment.forLoop_parts] at starts
  have container := ℓ.items.pushes known.left
  have inChart {host : Host} {calls : Calls} {start m : Machine} (fresh : start.frame.IsFresh (d.procedure o))
      (reached : Machine.Reaches host calls start m) : Machine.InChart c (d.procedure o).code host calls start m :=
    (Machine.InChart.entered fresh start.state (entry.imp_right And.left)).reached maps reached
  have placed {host : Host} {calls : Calls} {start m : Machine} (fresh : start.frame.IsFresh (d.procedure o))
      (reached : Machine.Reaches host calls start m) (inside : m.frame.pc < (d.procedure o).code.size) :
      c.Places host calls start m := ((inChart fresh reached).2.resolve_right (by omega)).2
  refine ⟨compiled, lo, seg, named, ?_, (blockBalanced o _ ℓ.body known.right).targets, ?_, ?_, ?_⟩
  · exact .cons (.anywhere (.plain (by simp))) container.targets.anywhere
  · intro host calls start m fresh reached here
    obtain ⟨k, rest, names⟩ := loop.names_head maps starts.left container
    have inside := (Array.getElem?_eq_some_iff.mp (loop.opening.get (k := 0) rfl)).1
    have fit := (placed fresh reached (here ▸ inside)).names
    rw [here, ForLoop.head, names] at fit
    generalize m.frame.stack.items = values at fit ⊢
    rcases fit with _ | @⟨_, v, _, _, _, _ | @⟨_, w, _, σ, below, _⟩⟩
    exact ⟨v, σ, by rw [below _ rfl]⟩
  · refine ⟨(c.sketch (ℓ.back o lo)).names.length, fun {_ _ _ m} fresh reached here => ?_⟩
    have opening := (Array.getElem?_eq_some_iff.mp (loop.opening.get (k := 16) rfl)).1
    have closing := (Array.getElem?_eq_some_iff.mp (loop.closing.get (k := 0) rfl)).1
    have inside : m.frame.pc < (d.procedure o).code.size := here.elim (· ▸ opening) (· ▸ closing)
    have level := loop.height_back maps
    rw [m.frame.stack.height_eq, ← (placed fresh reached inside).names.length_eq]
    rcases here with top | bottom
    · rw [top]
      exact level.symm
    · rw [bottom]
  · intro host calls start m fresh reached above below role v write
    obtain ⟨_, _, same, _, _, own⟩ :=
      (inChart fresh reached).writes maps write (isHidden_hiddenName role ℓ.number)
    obtain ⟨rfl, rfl⟩ := hiddenName_inj same
    obtain ⟨code, _⟩ := inChart fresh reached
    obtain ⟨i, found, _⟩ := Option.bind_eq_some_iff.mp write
    refine loop.not_adjoins (fun role place load => ?_) above below
      (own.adjoins (code ▸ found) (Machine.write?_isWriter found write))
    obtain ⟨_, _, same, least⟩ := (blockPlotted callsOnly_isNoAssignment ℓ.ν.mark.loop ℓ.body bodies
      known.right).code.reads load (isHidden_hiddenName role ℓ.number)
    obtain ⟨_, rfl⟩ := hiddenName_inj same
    exact Nat.not_succ_le_self _ least

end ScriptEngine
