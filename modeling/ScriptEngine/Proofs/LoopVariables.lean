import ScriptEngine.Proofs.Charting
import ScriptEngine.Proofs.WellFormed

/-! # The variables of loops

Every loop over elements has a number of its own, so every procedure of a module has a chart in which the hidden
variables belong to the loops that they were made up for, each at one place in the code. This is shown in one walk
over the tree: the loops of a part have the numbers from that before it up to that after it.
-/

namespace ScriptEngine

/-- An instruction is one of the loop that a hidden variable belongs to. The loop has a number from `a` up to `b`, and
its code is where it is at home. -/
def Own (code : Array Instruction) (home : Nat → Nat) (a b : Nat) (name : String) (pc : Nat) : Prop :=
  ∃ role n, name = hiddenName role n ∧ a ≤ n ∧ n < b ∧ OwnAt code n (home n) pc

/-- Wherever code stands, its loops are at home somewhere, and it has charts. -/
def Charts (a b : Nat) (is : List Instruction) : Prop :=
  ∀ code lo, Segment code lo is → ∃ home, ∀ names, ChartsAt (Own code home a b) code names lo is

/-- Code that reads no hidden variables. -/
def Unhidden (is : List Instruction) : Prop := ∀ name place, .load name place ∈ is → isHidden name = false

variable {code : Array Instruction} {home home' : Nat → Nat} {a b c n pc : Nat} {name : String}
  {is js condition body rest handler : List Instruction} {C : Instruction → Prop} {program : ProgramId}

theorem Own.mono {a' b' : Nat} (own : Own code home a b name pc) (low : a' ≤ a) (high : b ≤ b')
    (same : ∀ n, a ≤ n → n < b → home' n = home n) : Own code home' a' b' name pc := by
  obtain ⟨role, n, named, above, below, here⟩ := own
  exact ⟨role, n, named, by omega, by omega, by rwa [same n above below]⟩

namespace Charts

theorem widen {a' b' : Nat} (charts : Charts a b is) (low : a' ≤ a) (high : b ≤ b') : Charts a' b' is := by
  intro code lo seg
  obtain ⟨home, all⟩ := charts code lo seg
  exact ⟨home, fun names => (all names).mono fun _ _ own => own.mono low high fun _ _ _ => rfl⟩

/-- Code without loops. -/
theorem of_loopless (charts : ∀ own code lo, Segment code lo is → ∀ names, ChartsAt own code names lo is) :
    Charts a b is :=
  fun code lo seg => ⟨fun _ => 0, charts _ code lo seg⟩

/-- The loops of two stretches are at home at the same time. -/
theorem both (low : a ≤ b) (high : b ≤ c) (first : Charts a b is) (second : Charts b c js) {lo lo' : Nat}
    (seg : Segment code lo is) (seg' : Segment code lo' js) :
    ∃ home, ∀ names,
      ChartsAt (Own code home a c) code names lo is ∧ ChartsAt (Own code home a c) code names lo' js := by
  obtain ⟨left, charts⟩ := first code lo seg
  obtain ⟨right, charts'⟩ := second code lo' seg'
  refine ⟨fun n => if n < b then left n else right n, fun names => ⟨(charts names).mono fun _ _ own => ?_,
    (charts' names).mono fun _ _ own => ?_⟩⟩
  · exact own.mono (Nat.le_refl _) high fun n _ below => if_pos below
  · exact own.mono low (Nat.le_refl _) fun n above _ => if_neg (Nat.not_lt.mpr above)

theorem append (low : a ≤ b) (high : b ≤ c) (first : Charts a b is) (second : Charts b c js) :
    Charts a c (is ++ js) := by
  intro code lo seg
  obtain ⟨home, all⟩ := both low high first second seg.left seg.right
  exact ⟨home, fun names => (all names).1.append (all names).2⟩

theorem nil : Charts a b [] := of_loopless fun _ _ _ _ _ => .nil

theorem mark (o : LoweringOptions) (ν : Numbering) (lines : Lines) : Charts a b (o.emitMark ν lines) := by
  unfold LoweringOptions.emitMark
  split
  · exact of_loopless fun _ _ _ seg _ => .stop seg
  · exact nil

/-- Code with a marker before it. -/
theorem marked {o : LoweringOptions} {ν : Numbering} {lines : Lines} (le : a ≤ b) (charts : Charts a b is) :
    Charts a b (o.emitMark ν lines ++ is) := (mark o ν lines).append (Nat.le_refl a) le charts

section

variable (calls : CallsOnly C)
include calls

theorem drop (value : Pushes C 1 is) (plain : Unhidden is) : Charts a b (is ++ [.discard]) :=
  of_loopless fun _ _ _ seg _ => .drop calls value seg (.of_none plain)

theorem ret (value : Pushes C 1 is) (plain : Unhidden is) : Charts a b (is ++ [.branch .always .exit]) :=
  of_loopless fun _ _ _ seg _ => .ret calls value seg (.of_none plain)

theorem assign {place : Position} (value : Pushes C 1 is) (plain : Unhidden is) (named : isHidden name = false) :
    Charts a b (Fragment.assign name is place) :=
  of_loopless fun _ _ _ seg _ => .assign calls value seg (.of_none plain) fun hidden =>
    absurd (named.symm.trans hidden) (by simp)

theorem skipIf {kind : BranchKind} (conditional : kind ≠ .always) (value : Pushes C 1 condition)
    (plain : Unhidden condition) (inner : Charts a b body) : Charts a b (Fragment.skipIf kind condition body) := by
  intro code lo seg
  obtain ⟨home, charts⟩ := inner code _ seg.right.tail
  exact ⟨home, fun names => .skipIf calls conditional value seg (.of_none plain) (charts names)⟩

theorem choose (low : a ≤ b) (high : b ≤ c) (value : Pushes C 1 condition) (plain : Unhidden condition)
    (inner : Charts a b body) (other : Charts b c rest) : Charts a c (Fragment.choose condition body rest) := by
  intro code lo seg
  obtain ⟨home, charts⟩ := both low high inner other seg.left.right.tail seg.right.tail
  exact ⟨home, fun names => .choose calls value seg (.of_none plain) (charts names).1
    ((charts names).2.cast (by simp; omega))⟩

theorem conditional {otherwise : Option (List Instruction)} (low : a ≤ b) (high : b ≤ c) (value : Pushes C 1 condition)
    (plain : Unhidden condition) (inner : Charts a b body) (other : ∀ is, otherwise = some is → Charts b c is) :
    Charts a c (Fragment.conditional condition body otherwise) := by
  cases otherwise with
  | none => exact (skipIf calls (by simp) value plain inner).widen (Nat.le_refl _) high
  | some rest => exact choose calls low high value plain inner (other rest rfl)

theorem whileLoop (value : Pushes C 1 condition) (plain : Unhidden condition) (inner : Charts a b body) :
    Charts a b (Fragment.whileLoop condition body) := by
  intro code lo seg
  obtain ⟨home, charts⟩ := inner code _ seg.left.right.tail
  exact ⟨home, fun names => .whileLoop calls value seg (.of_none plain) (charts names)⟩

/-- The number of a loop is none of those in its body. -/
theorem forLoop {spelled : List SpelledCall} (known : Admits program C spelled) {place namePlace : Position}
    {items : List Instruction} (low : n + 1 ≤ b) (container : Pushes C 1 items) (plain : Unhidden items)
    (named : isHidden name = false) (inner : Charts (n + 1) b body) :
    Charts n b (Fragment.forLoop n place name namePlace items body) := by
  intro code lo seg
  have inside : Segment code (lo + Fragment.bodyStart items) body := by
    rw [Fragment.forLoop_eq] at seg
    refine (seg.right.right.right.right.tail.left.right.tail.right.left).cast ?_
    simp only [Fragment.assign, Fragment.bodyStart, List.length_append, List.length_cons, List.length_nil]
    omega
  obtain ⟨home, charts⟩ := inner code _ inside
  let homes (k : Nat) := if k = n then lo else home k
  have others {k : Nat} (above : n + 1 ≤ k) : homes k = home k := if_neg (by omega)
  refine ⟨homes, fun names => .forLoop known calls seg (fun role pc here => ?_) named container (.of_none plain)
    ((charts _).mono fun _ _ own => own.mono (Nat.le_succ n) (Nat.le_refl b) fun _ above _ => others above)⟩
  exact ⟨role, n, rfl, Nat.le_refl n, low, by rwa [show homes n = lo from if_pos rfl]⟩

end

theorem guarded {binding : Option String} (low : a ≤ b) (high : b ≤ c) (plain : ∀ name ∈ binding, isHidden name = false)
    (inner : Charts a b body) (other : Charts b c handler) : Charts a c (Fragment.guarded body binding handler) := by
  intro code lo seg
  obtain ⟨home, charts⟩ := both low high inner other seg.left.tail seg.right.tail.tail.tail
  exact ⟨home, fun names => .guarded seg plain (charts names).1 ((charts names).2.cast (by simp; omega))⟩

end Charts

@[simp] theorem unhidden_nil : Unhidden [] := by simp [Unhidden]

@[simp] theorem unhidden_cons {i : Instruction} :
    Unhidden (i :: is) ↔ (∀ name place, i = .load name place → isHidden name = false) ∧ Unhidden is := by
  simp only [Unhidden, List.mem_cons]
  exact ⟨fun all => ⟨fun name place here => all name place (.inl here.symm), fun name place here =>
    all name place (.inr here)⟩, fun both name place here =>
      here.elim (fun same => both.1 name place same.symm) (both.2 name place)⟩

@[simp] theorem unhidden_append : Unhidden (is ++ js) ↔ Unhidden is ∧ Unhidden js := by
  induction is with
  | nil => simp
  | cons i rest ih => simp [ih, and_assoc]

mutual

theorem Expr.unhidden (e : Expr) (plain : AllPlain e.names) : Unhidden e.emit := by
  cases e with
  | literal => simp [Expr.emit]
  | «variable» name place =>
    have named : isHidden name = false := plain name List.mem_cons_self
    simp [Expr.emit, named]
  | member receiver => simp [Expr.emit, receiver.unhidden plain]
  | index receiver key =>
    obtain ⟨receivers, keys⟩ := (allPlain_append _ _).mp plain
    simp [Expr.emit, receiver.unhidden receivers, key.unhidden keys]
  | call name keywords args => simp [Expr.emit, unhiddenAll args plain]
  | send receiver name keywords args =>
    obtain ⟨receivers, others⟩ := (allPlain_append _ _).mp plain
    simp [Expr.emit, receiver.unhidden receivers, unhiddenAll args others]
  | unary op operand => simp [Expr.emit, operand.unhidden plain]
  | binary op left right | pair left right =>
    obtain ⟨lefts, rights⟩ := (allPlain_append _ _).mp plain
    simp [Expr.emit, left.unhidden lefts, right.unhidden rights]
  | both left right | either left right =>
    obtain ⟨lefts, rights⟩ := (allPlain_append _ _).mp plain
    simp [Expr.emit, Fragment.shortCircuit, left.unhidden lefts, right.unhidden rights]
  | list items | map items => simp [Expr.emit, unhiddenAll items plain]
  | group inner => exact inner.unhidden plain

theorem unhiddenAll (es : List Expr) (plain : AllPlain (namesAll es)) : Unhidden (emitAll es) := by
  cases es with
  | nil => simp [emitAll]
  | cons e rest =>
    obtain ⟨first, others⟩ := (allPlain_append _ _).mp plain
    simp [emitAll, e.unhidden first, unhiddenAll rest others]

end

theorem Target.charts (calls : CallsOnly C) (t : Target) {value : List Instruction} (place : Position)
    (plain : AllPlain t.names) (known : Admits program C t.calls) (values : Pushes C 1 value)
    (unhidden : Unhidden value) : Charts a b (t.emit value place) := by
  cases t with
  | «variable» name here => exact .assign calls values unhidden (plain name List.mem_cons_self)
  | member receiver name here =>
    have operands := ((receiver.pushes known).append (known.plain (v := .string name) rfl)).append values
    have whole : Charts a b _ := .drop calls (operands.made_send (known.made _ (.setMember here)))
      (by simp [receiver.unhidden plain, unhidden])
    simpa [Target.emit] using whole
  | index receiver key here =>
    obtain ⟨receivers, keys⟩ := (allPlain_append _ _).mp plain
    have operands := ((receiver.pushes known.left).append (key.pushes known.right)).append values
    have whole : Charts a b _ := .drop calls (operands.made_send (known.made _ (.setItem here)))
      (by simp [receiver.unhidden receivers, key.unhidden keys, unhidden])
    simpa [Target.emit] using whole

mutual

theorem Stmt.loops_le (ν : Numbering) (s : Stmt) : ν.loops ≤ (s.after ν).loops := by
  cases s with
  | eval | assign | ret => exact Nat.le_refl _
  | branch line condition body otherwise => exact Nat.le_trans (blockAfter_loops_le ν.mark body) (otherwise.loops_le _)
  | whileLoop line condition body => exact blockAfter_loops_le ν.mark body
  | forLoop place name namePlace items body => exact Nat.le_of_succ_le (blockAfter_loops_le ν.mark.loop body)
  | guarded line body binding handler =>
    exact Nat.le_trans (blockAfter_loops_le ν.mark body) (blockAfter_loops_le _ handler)
  | define place name params body => exact blockAfter_loops_le ν.mark body

theorem blockAfter_loops_le (ν : Numbering) (body : List Stmt) : ν.loops ≤ (blockAfter ν body).loops := by
  cases body with
  | nil => exact Nat.le_refl _
  | cons s rest => exact Nat.le_trans (s.loops_le ν) (blockAfter_loops_le _ rest)

theorem Otherwise.loops_le (ν : Numbering) (otherwise : Otherwise) : ν.loops ≤ (otherwise.after ν).loops := by
  cases otherwise with
  | nothing => exact Nat.le_refl _
  | block body => exact blockAfter_loops_le ν body
  | branch condition body otherwise => exact Nat.le_trans (blockAfter_loops_le ν body) (otherwise.loops_le _)

end

/-- A definition whose code has charts. -/
def Definition.IsCharted (o : LoweringOptions) (d : Definition) : Prop := ∃ a b, Charts a b (emitPieces o d.body)

/-- Code and definitions that have charts. -/
structure Plotted (o : LoweringOptions) (a b : Nat) (is : List Instruction) (ds : List Definition) : Prop where
  code : Charts a b is
  definitions : ∀ d ∈ ds, d.IsCharted o

variable {o : LoweringOptions}

theorem Definition.isCharted_block {name : String} {params : List ParamTree} {owner : Option ClassId} {line : Nat}
    {ν : Numbering} {body : List Stmt} (charts : Charts a b (emitBlock o ν body)) :
    (⟨name, params, owner, line, [.block ν body]⟩ : Definition).IsCharted o :=
  ⟨a, b, by simpa [emitPieces, Piece.emit] using charts⟩

mutual

/-- The loops of a statement have the numbers that it takes. -/
theorem Stmt.plotted (calls : CallsOnly C) (ν : Numbering) (s : Stmt) (plain : AllPlain s.names)
    (known : Admits o.program C s.calls) : Plotted o ν.loops (s.after ν).loops (s.emit o ν) (s.definitions ν) := by
  cases s with
  | eval lines value =>
    exact ⟨.marked (Nat.le_refl _) (.drop calls (value.pushes known) (value.unhidden plain)), List.forall_mem_nil _⟩
  | assign lines target value place =>
    obtain ⟨targets, values⟩ := (allPlain_append _ _).mp plain
    exact ⟨.marked (Nat.le_refl _) (target.charts calls place targets known.left (value.pushes known.right)
      (value.unhidden values)), List.forall_mem_nil _⟩
  | ret lines value =>
    refine ⟨.marked (Nat.le_refl _) ?_, List.forall_mem_nil _⟩
    cases value with
    | none => exact .ret calls (known.plain rfl) (by simp)
    | some value => exact .ret calls (value.pushes known) (value.unhidden plain)
  | branch line condition body otherwise =>
    obtain ⟨conditions, bodies, rests⟩ : AllPlain condition.names ∧ AllPlain (blockNames body) ∧
        AllPlain otherwise.names := by simpa [Stmt.names, and_assoc] using plain
    have first := blockPlotted calls ν.mark body bodies known.left.right
    have second := otherwise.plotted calls (blockAfter ν.mark body) rests known.right
    refine ⟨.marked (Stmt.loops_le ν (.branch line condition body otherwise)) (.conditional calls
      (blockAfter_loops_le ν.mark body) (otherwise.loops_le _) (condition.pushes known.left.left)
      (condition.unhidden conditions) first.code second.1), List.forall_mem_append.mpr ⟨first.definitions, second.2⟩⟩
  | whileLoop line condition body =>
    obtain ⟨conditions, bodies⟩ := (allPlain_append _ _).mp plain
    have inner := blockPlotted calls ν.mark body bodies known.right
    exact ⟨.marked (blockAfter_loops_le ν.mark body) (.whileLoop calls (condition.pushes known.left)
      (condition.unhidden conditions) inner.code), inner.definitions⟩
  | forLoop place name namePlace items body =>
    obtain ⟨named, container, bodies⟩ : isHidden name = false ∧ AllPlain items.names ∧ AllPlain (blockNames body) := by
      simpa [Stmt.names] using plain
    have inner := blockPlotted calls ν.mark.loop body bodies known.right
    exact ⟨.marked (Stmt.loops_le ν (.forLoop place name namePlace items body)) (.forLoop calls known
      (blockAfter_loops_le ν.mark.loop body) (items.pushes known.left) (items.unhidden container) named inner.code),
      inner.definitions⟩
  | guarded line body binding handler =>
    obtain ⟨bodies, bound, handlers⟩ : AllPlain (blockNames body) ∧ AllPlain binding.toList ∧
        AllPlain (blockNames handler) := by simpa [Stmt.names, and_assoc] using plain
    have first := blockPlotted calls ν.mark body bodies known.left
    have second := blockPlotted calls (blockAfter ν.mark body) handler handlers known.right
    refine ⟨.marked (Stmt.loops_le ν (.guarded line body binding handler)) (.guarded
      (blockAfter_loops_le ν.mark body) (blockAfter_loops_le _ handler)
      (fun name here => bound name (Option.mem_toList.mpr here)) first.code second.code),
      List.forall_mem_append.mpr ⟨first.definitions, second.definitions⟩⟩
  | define place name params body =>
    obtain ⟨named, bodies⟩ := (allPlain_cons _ _).mp plain
    have inner := blockPlotted calls ν.mark body bodies known
    refine ⟨.marked (blockAfter_loops_le ν.mark body) (.assign calls
      (.value (known.constant _ (Value.procedure_isOf rfl))) (by simp) named), List.forall_mem_append.mpr
        ⟨inner.definitions, List.forall_mem_singleton.mpr (Definition.isCharted_block inner.code)⟩⟩

theorem blockPlotted (calls : CallsOnly C) (ν : Numbering) (body : List Stmt) (plain : AllPlain (blockNames body))
    (known : Admits o.program C (blockCalls body)) :
    Plotted o ν.loops (blockAfter ν body).loops (emitBlock o ν body) (blockDefinitions ν body) := by
  cases body with
  | nil => exact ⟨.nil, List.forall_mem_nil _⟩
  | cons s rest =>
    obtain ⟨here, others⟩ := (allPlain_append _ _).mp plain
    have first := s.plotted calls ν here known.left
    have second := blockPlotted calls (s.after ν) rest others known.right
    exact ⟨first.code.append (s.loops_le ν) (blockAfter_loops_le _ rest) second.code,
      List.forall_mem_append.mpr ⟨first.definitions, second.definitions⟩⟩

theorem Otherwise.plotted (calls : CallsOnly C) (ν : Numbering) (otherwise : Otherwise)
    (plain : AllPlain otherwise.names) (known : Admits o.program C otherwise.calls) :
    (∀ is, otherwise.emit o ν = some is → Charts ν.loops (otherwise.after ν).loops is) ∧
      ∀ d ∈ otherwise.definitions ν, d.IsCharted o := by
  cases otherwise with
  | nothing => exact ⟨nofun, List.forall_mem_nil _⟩
  | block body =>
    have inner := blockPlotted calls ν body plain known
    refine ⟨?_, inner.definitions⟩
    rintro is ⟨⟩
    exact inner.code
  | branch condition body otherwise =>
    obtain ⟨conditions, bodies, rests⟩ : AllPlain condition.names ∧ AllPlain (blockNames body) ∧
        AllPlain otherwise.names := by simpa [Otherwise.names, and_assoc] using plain
    have first := blockPlotted calls ν body bodies known.left.right
    have second := otherwise.plotted calls (blockAfter ν body) rests known.right
    refine ⟨?_, List.forall_mem_append.mpr ⟨first.definitions, second.2⟩⟩
    rintro is ⟨⟩
    exact .conditional calls (blockAfter_loops_le ν body) (otherwise.loops_le _) (condition.pushes known.left.left)
      (condition.unhidden conditions) first.code second.1

end

section

variable (calls : CallsOnly C)
include calls

theorem FunctionTree.definitions_isCharted (f : FunctionTree) (name : String) (owner : Option ClassId) (ν : Numbering)
    (plain : AllPlain (blockNames f.body)) (known : Admits o.program C (blockCalls f.body)) :
    ∀ d ∈ f.definitions name owner ν, d.IsCharted o := by
  have inner := blockPlotted calls ν f.body plain known
  exact List.forall_mem_append.mpr
    ⟨inner.definitions, List.forall_mem_singleton.mpr (Definition.isCharted_block inner.code)⟩

omit calls in
theorem MemberTree.loops_le (ν : Numbering) (t : MemberTree) : ν.loops ≤ (t.after ν).loops := by
  cases t with
  | method f | staticMethod f => exact blockAfter_loops_le ν f.body
  | staticField => exact Nat.le_refl _

/-- The members of a class so far have charts. -/
structure MemberSummary.IsCharted (o : LoweringOptions) (s : MemberSummary) : Prop where
  definitions : ∀ d ∈ s.definitions, d.IsCharted o
  fields : Charts 0 s.after.loops (emitPieces o s.fields)

theorem MemberSummary.isCharted_add {s : MemberSummary} (charted : s.IsCharted o) (className : String) {owner : ClassId}
    (owned : owner.program = o.program) (t : MemberTree) (plain : AllPlain t.names)
    (known : Admits o.program C t.calls) : (s.add className owner t).IsCharted o := by
  have fields := charted.fields.widen (Nat.le_refl 0) (t.loops_le s.after)
  cases t with
  | method f | staticMethod f =>
    refine ⟨List.forall_mem_append.mpr ⟨charted.definitions, f.definitions_isCharted calls _ _ _ plain known⟩, ?_⟩
    simpa [MemberSummary.add, MemberTree.fields] using fields
  | staticField lines field place value =>
    refine ⟨by simpa [MemberSummary.add, MemberTree.definitions] using charted.definitions, ?_⟩
    have operands := ((Pushes.value (known.constant _ (Value.classRef_isOf owned))).append
      (known.plain (v := .string field) rfl)).append (value.pushes known)
    have last : Charts s.after.loops s.after.loops (o.emitMark s.after lines ++ _) := .marked (Nat.le_refl _)
      (.drop calls (operands.made_send (known.made _ (.setMember place))) (by simp [value.unhidden plain]))
    have both := charted.fields.append (Nat.zero_le _) (Nat.le_refl _) last
    simpa [MemberSummary.add, MemberTree.fields, MemberTree.after, Numbering.mark, emitPieces, Piece.emit] using both

theorem ClassTree.summary_isCharted (c : ClassTree) (ν : Numbering) (plain : AllPlain c.names)
    (known : Admits o.program C c.calls) :
    (c.summary o.program ν).IsCharted o ∧ ν.loops ≤ (c.summary o.program ν).after.loops := by
  have fold (members : List MemberTree) (s : MemberSummary) (charted : s.IsCharted o)
      (each : ∀ t ∈ members, AllPlain t.names ∧ Admits o.program C t.calls) :
      (members.foldl (MemberSummary.add c.name (id o.program ν)) s).IsCharted o ∧
        s.after.loops ≤ (members.foldl (MemberSummary.add c.name (id o.program ν)) s).after.loops := by
    induction members generalizing s with
    | nil => exact ⟨charted, Nat.le_refl _⟩
    | cons t rest ih =>
      obtain ⟨here, others⟩ := List.forall_mem_cons.mp each
      obtain ⟨folded, le⟩ := ih (s.add c.name (id o.program ν) t)
        (MemberSummary.isCharted_add calls charted _ rfl t here.1 here.2) others
      exact ⟨folded, Nat.le_trans (t.loops_le s.after) le⟩
  refine fold c.members ⟨ν, [], .empty, .empty, []⟩ ⟨List.forall_mem_nil _, .nil⟩ fun t among => ⟨?_, ?_⟩
  · exact fun name here => plain name (List.mem_flatMap_of_mem among here)
  · exact known.mono fun _ here => List.mem_flatMap_of_mem among here

theorem ClassTree.definitions_isCharted (c : ClassTree) (ν : Numbering) (plain : AllPlain c.names)
    (known : Admits o.program C c.calls) : ∀ d ∈ c.definitions o.program ν, d.IsCharted o := by
  obtain ⟨charted, _⟩ := c.summary_isCharted calls ν plain known
  refine List.forall_mem_append.mpr ⟨charted.definitions, fun d member => ?_⟩
  unfold ClassTree.setup at member
  split at member
  · cases member
  · rw [List.mem_singleton.mp member]
    exact ⟨_, _, charted.fields⟩

/-- The items of a module so far have charts. -/
structure ItemSummary.IsCharted (o : LoweringOptions) (s : ItemSummary) : Prop where
  definitions : ∀ d ∈ s.definitions, d.IsCharted o
  body : Charts 0 s.after.loops (emitPieces o s.body)

theorem ItemSummary.isCharted_add {s : ItemSummary} (charted : s.IsCharted o) (item : Item)
    (plain : AllPlain item.names) (known : Admits o.program C item.calls) : (s.add o.program item).IsCharted o := by
  cases item with
  | function f =>
    have bodies := ((allPlain_cons _ _).mp plain).2
    exact ⟨List.forall_mem_append.mpr ⟨charted.definitions, f.definitions_isCharted calls _ _ _ bodies known⟩,
      charted.body.widen (Nat.le_refl 0) (blockAfter_loops_le _ f.body)⟩
  | classDef c =>
    have members := ((allPlain_cons _ _).mp plain).2
    exact ⟨List.forall_mem_append.mpr ⟨charted.definitions, c.definitions_isCharted calls _ members known⟩,
      charted.body.widen (Nat.le_refl 0) (c.summary_isCharted calls _ members known).2⟩
  | statement t =>
    have plotted := t.plotted calls s.after plain known
    refine ⟨List.forall_mem_append.mpr ⟨charted.definitions, plotted.definitions⟩, ?_⟩
    have both := charted.body.append (Nat.zero_le _) (t.loops_le s.after) plotted.code
    simpa [ItemSummary.add, emitPieces, Piece.emit, emitBlock] using both

theorem ModuleTree.definitions_isCharted (t : ModuleTree) (plain : AllPlain t.names)
    (known : Admits o.program C t.calls) : ∀ d ∈ t.definitions o.program, d.IsCharted o := by
  have fold (items : List Item) (s : ItemSummary) (charted : s.IsCharted o)
      (each : ∀ item ∈ items, AllPlain item.names ∧ Admits o.program C item.calls) :
      (items.foldl (ItemSummary.add o.program) s).IsCharted o := by
    induction items generalizing s with
    | nil => exact charted
    | cons item rest ih =>
      obtain ⟨here, others⟩ := List.forall_mem_cons.mp each
      exact ih _ (ItemSummary.isCharted_add calls charted item here.1 here.2) others
  have charted : (t.summary o.program).IsCharted o := by
    refine fold t.items _ ⟨List.forall_mem_nil _, .nil⟩ fun item among => ⟨?_, ?_⟩
    · exact fun name here => plain name (List.mem_flatMap_of_mem among here)
    · exact known.mono fun _ here => List.mem_flatMap_of_mem among here
  exact List.forall_mem_append.mpr ⟨charted.definitions, List.forall_mem_singleton.mpr ⟨_, _, charted.body⟩⟩

end

/-- Every procedure of a program that does not assign by a call has a chart. In it only the loop that a hidden
variable belongs to has to do with it, and nothing is bound at the start. -/
theorem Program.ofSource_charted {source file : String} {o : LoweringOptions} {t : ModuleTree}
    (parsed : ModuleTree.ofSource source = .ok t) (none : ∀ c ∈ t.calls, ¬ c.Assigns) {p : Procedure}
    (member : p ∈ (Program.ofSource source file o).procedures) :
    ∃ home a b, Charted (Own p.code home a b) p.code 0 p.code.size [] ⟨[], []⟩ [(p.code.size, ⟨[], []⟩)] := by
  have tagged := ModuleTree.ofSource_gives source
  rw [parsed] at tagged
  obtain ⟨parts, same, lowered⟩ := Program.ofSource_eq file o parsed
  rw [same] at member
  obtain ⟨d, among, rfl⟩ := lowered.mem_procedures_iff.mp member
  obtain ⟨a, b, charts⟩ := t.definitions_isCharted callsOnly_isNoAssignment (ModuleTree.ofSource_plain parsed)
    (admits_isNoAssignment tagged none) d among
  obtain ⟨home, all⟩ := charts (d.procedure o).code 0 (.whole _)
  exact ⟨home, a, b, all [] _ [] (by simp [Definition.procedure])⟩

end ScriptEngine
