import ScriptEngine.Proofs.Definitions

/-! # Code without its markers

A marker in the middle of code moves everything behind it, and every branch across it is longer by one. So code
with markers and code without are compared by deleting the markers and leading every branch and every guarded
region to where its target has gone. What comes out of the code of a tree is the code that the tree has without
markers. `Unmarks` says so of a stretch wherever it stands: it is put together from the parts of a fragment, and no
part has to know what stands around it.
-/

namespace ScriptEngine

/-- An offset at index `k` when the indices are renumbered by `f`: it leads to where its target has gone. -/
def Offset.renumber (f : Nat → Nat) (k : Nat) : Offset → Offset
  | .exit => .exit
  | .relative n => .relative (f (k + n).toNat - f k)

def Instruction.renumber (f : Nat → Nat) (k : Nat) : Instruction → Instruction
  | .branch kind offset => .branch kind (offset.renumber f k)
  | .enterTry offset => .enterTry (offset.renumber f k)
  | i => i

/-- What stays of a stretch from index `k` on when its markers are deleted and the indices renumbered by `f`. -/
def unmarkAt (f : Nat → Nat) (k : Nat) : List Instruction → List Instruction
  | [] => []
  | i :: rest => if i.isStop then unmarkAt f (k + 1) rest else i.renumber f k :: unmarkAt f (k + 1) rest

/-- A list without its markers. An index goes to the number of instructions before it that stay. -/
def unmark (is : List Instruction) : List Instruction := unmarkAt (fun k => paces (is.take k)) 0 is

/-- `f` renumbers the indices of a stretch from `k` on as deleting its markers does. -/
def Renumbers (f : Nat → Nat) : Nat → List Instruction → Prop
  | _, [] => True
  | k, i :: rest => f (k + 1) = (f k + if i.isStop then 0 else 1) ∧ Renumbers f (k + 1) rest

variable {f : Nat → Nat} {k : Nat}

@[simp] theorem renumbers_nil : Renumbers f k [] := trivial

@[simp] theorem renumbers_cons {i : Instruction} {rest : List Instruction} :
    Renumbers f k (i :: rest) ↔ f (k + 1) = (f k + if i.isStop then 0 else 1) ∧ Renumbers f (k + 1) rest :=
  Iff.rfl

@[simp] theorem renumbers_append {a b : List Instruction} :
    Renumbers f k (a ++ b) ↔ Renumbers f k a ∧ Renumbers f (k + a.length) b := by
  induction a generalizing k with
  | nil => simp
  | cons i rest ih => simp [ih, and_assoc, Nat.add_right_comm, Nat.add_assoc]

theorem Renumbers.last {is : List Instruction} (numbers : Renumbers f k is) :
    f (k + is.length) = f k + paces is := by
  induction is generalizing k with
  | nil => rfl
  | cons i rest ih =>
    have here := numbers.1
    have further := ih numbers.2
    rw [paces_cons, List.length_cons, ← Nat.add_assoc, Nat.add_right_comm, further]
    omega

/-- Counting what stays renumbers a list, also behind others. -/
theorem renumbers_take (before is : List Instruction) :
    Renumbers (fun k => paces ((before ++ is).take k)) before.length is := by
  induction is generalizing before with
  | nil => trivial
  | cons i rest ih =>
    refine ⟨?_, ?_⟩
    · simp [List.take_append, List.take_of_length_le]
    · simpa using ih (before ++ [i])

@[simp] theorem unmarkAt_nil : unmarkAt f k [] = [] := rfl

theorem unmarkAt_append (a b : List Instruction) :
    unmarkAt f k (a ++ b) = unmarkAt f k a ++ unmarkAt f (k + a.length) b := by
  induction a generalizing k with
  | nil => rfl
  | cons i rest ih =>
    simp only [List.cons_append, unmarkAt, ih, List.length_cons, Nat.add_assoc, Nat.add_comm 1]
    split <;> rfl

@[simp] theorem length_unmarkAt (is : List Instruction) : (unmarkAt f k is).length = paces is := by
  induction is generalizing k with
  | nil => rfl
  | cons i rest ih =>
    rw [unmarkAt, paces_cons]
    split <;> simp [ih]

/-- Wherever the first stretch stands, the second is what stays of it. -/
def Unmarks (a b : List Instruction) : Prop := ∀ f k, Renumbers f k a → unmarkAt f k a = b

/-- A branch among what stays, if the distance to its target is known. -/
theorem unmarkAt_branch {kind : BranchKind} {n m : Int} (rest : List Instruction) (t : Nat)
    (there : (t : Int) = k + n) (gone : (f t : Int) = f k + m) :
    unmarkAt f k (.branch kind (.relative n) :: rest) = .branch kind (.relative m) :: unmarkAt f (k + 1) rest := by
  have target : ((k : Int) + n).toNat = t := by omega
  have moved : (f t : Int) - f k = m := by omega
  simp [unmarkAt, Instruction.isStop, Instruction.renumber, Offset.renumber, target, moved]

/-- A guarded region among what stays, if the distance to its handler is known. -/
theorem unmarkAt_enterTry {n m : Int} (rest : List Instruction) (t : Nat) (there : (t : Int) = k + n)
    (gone : (f t : Int) = f k + m) :
    unmarkAt f k (.enterTry (.relative n) :: rest) = .enterTry (.relative m) :: unmarkAt f (k + 1) rest := by
  have target : ((k : Int) + n).toNat = t := by omega
  have moved : (f t : Int) - f k = m := by omega
  simp [unmarkAt, Instruction.isStop, Instruction.renumber, Offset.renumber, target, moved]

/-- Whether an instruction stays and is the same wherever it stands. -/
def Instruction.isStill : Instruction → Bool
  | .stop .. | .branch _ (.relative _) | .enterTry (.relative _) => false
  | _ => true

theorem unmarkAt_still {i : Instruction} (still : i.isStill = true) (rest : List Instruction) :
    unmarkAt f k (i :: rest) = i :: unmarkAt f (k + 1) rest := by
  cases i with
  | stop index lines => cases still
  | branch kind offset => cases offset <;> first | rfl | cases still
  | enterTry offset => cases offset <;> first | rfl | cases still
  | _ => rfl

namespace Unmarks

variable {a a' b b' condition condition' body body' rest rest' : List Instruction}

theorem paces_eq (h : Unmarks a b) : paces a = b.length := by
  rw [← h _ _ (renumbers_take [] a), length_unmarkAt]

/-- A stretch ends where what stays of it ends. -/
theorem last (h : Unmarks a b) (numbers : Renumbers f k a) : f (k + a.length) = f k + b.length := by
  rw [numbers.last, h.paces_eq]

theorem unmark_eq (h : Unmarks a b) : unmark a = b := h _ _ (renumbers_take [] a)

theorem nil : Unmarks [] [] := fun _ _ _ => rfl

theorem append (first : Unmarks a b) (second : Unmarks a' b') : Unmarks (a ++ a') (b ++ b') := by
  intro f k numbers
  obtain ⟨left, right⟩ := renumbers_append.mp numbers
  rw [unmarkAt_append, first f k left, second f _ right]

theorem stop (index : Nat) (lines : Lines) : Unmarks [.stop index lines] [] := fun _ _ _ => rfl

theorem still {i : Instruction} (h : i.isStill = true) : Unmarks [i] [i] := fun _ _ _ => unmarkAt_still h []

theorem cons {i : Instruction} (h : i.isStill = true) (second : Unmarks a b) : Unmarks (i :: a) (i :: b) :=
  .append (.still h) second

theorem of_still (h : a.all Instruction.isStill = true) : Unmarks a a := by
  induction a with
  | nil => exact .nil
  | cons i rest ih =>
    obtain ⟨here, further⟩ := Bool.and_eq_true_iff.mp (List.all_cons ▸ h)
    exact .cons here (ih further)

theorem snoc {i : Instruction} (first : Unmarks a b) (h : i.isStill = true) : Unmarks (a ++ [i]) (b ++ [i]) :=
  .append first (.still h)

theorem assign (name : String) (place : Position) (value : Unmarks a b) :
    Unmarks (Fragment.assign name a place) (Fragment.assign name b place) :=
  .snoc (.cons rfl value) rfl

theorem shortCircuit (kind : BranchKind) (decided : Bool) (left : Unmarks a a') (right : Unmarks b b') :
    Unmarks (Fragment.shortCircuit kind decided a b) (Fragment.shortCircuit kind decided a' b') := by
  intro f k numbers
  unfold Fragment.shortCircuit at numbers ⊢
  rw [List.append_assoc, List.cons_append] at numbers ⊢
  obtain ⟨first, ⟨test, both⟩⟩ := renumbers_append.mp numbers
  obtain ⟨second, skip, value, -⟩ := renumbers_append.mp both
  have past := right.last second
  simp only [Instruction.isStop, Bool.false_eq_true, if_false] at test skip value
  rw [unmarkAt_append, left f k first,
    unmarkAt_branch (b ++ _) (k + a.length + 1 + b.length + 1) (m := b'.length + 2) (by omega) (by omega),
    unmarkAt_append, right f _ second,
    unmarkAt_branch _ (k + a.length + 1 + b.length + 1 + 1) (m := 2) (by omega) (by omega),
    unmarkAt_still rfl]
  simp

theorem skipIf (kind : BranchKind) (asks : Unmarks condition condition') (inner : Unmarks body body') :
    Unmarks (Fragment.skipIf kind condition body) (Fragment.skipIf kind condition' body') := by
  intro f k numbers
  unfold Fragment.skipIf at numbers ⊢
  obtain ⟨first, test, second⟩ := renumbers_append.mp numbers
  have past := inner.last second
  simp only [Instruction.isStop, Bool.false_eq_true, if_false] at test
  rw [unmarkAt_append, asks f k first,
    unmarkAt_branch body (k + condition.length + 1 + body.length) (m := body'.length + 1) (by omega) (by omega),
    inner f _ second]

theorem choose (asks : Unmarks condition condition') (inner : Unmarks body body') (other : Unmarks rest rest') :
    Unmarks (Fragment.choose condition body rest) (Fragment.choose condition' body' rest') := by
  intro f k numbers
  unfold Fragment.choose at numbers ⊢
  rw [List.append_assoc, List.cons_append] at numbers ⊢
  obtain ⟨first, test, both⟩ := renumbers_append.mp numbers
  obtain ⟨second, skip, third⟩ := renumbers_append.mp both
  have chosen := inner.last second
  have past := other.last third
  simp only [Instruction.isStop, Bool.false_eq_true, if_false] at test skip
  rw [unmarkAt_append, asks f k first,
    unmarkAt_branch (body ++ _) (k + condition.length + 1 + body.length + 1) (m := body'.length + 2)
      (by omega) (by omega),
    unmarkAt_append, inner f _ second,
    unmarkAt_branch rest (k + condition.length + 1 + body.length + 1 + rest.length) (m := rest'.length + 1)
      (by omega) (by omega),
    other f _ third, List.append_assoc, List.cons_append]

theorem whileLoop (asks : Unmarks condition condition') (inner : Unmarks body body') :
    Unmarks (Fragment.whileLoop condition body) (Fragment.whileLoop condition' body') := by
  intro f k numbers
  unfold Fragment.whileLoop at numbers ⊢
  rw [List.append_assoc, List.cons_append] at numbers ⊢
  obtain ⟨first, test, both⟩ := renumbers_append.mp numbers
  obtain ⟨second, back, -⟩ := renumbers_append.mp both
  have asked := asks.last first
  have past := inner.last second
  simp only [Instruction.isStop, Bool.false_eq_true, if_false] at test back
  rw [unmarkAt_append, asks f k first,
    unmarkAt_branch (body ++ _) (k + condition.length + 1 + body.length + 1) (m := body'.length + 2)
      (by omega) (by omega),
    unmarkAt_append, inner f _ second,
    unmarkAt_branch _ k (m := -(condition'.length + 1 + body'.length)) (by omega) (by omega)]
  simp

theorem guarded (binding : Option String) (inner : Unmarks body body') (other : Unmarks rest rest') :
    Unmarks (Fragment.guarded body binding rest) (Fragment.guarded body' binding rest') := by
  intro f k numbers
  unfold Fragment.guarded at numbers ⊢
  obtain ⟨enter, both⟩ := numbers
  obtain ⟨first, leave, skip, caught, second⟩ := renumbers_append.mp both
  have done := inner.last first
  have past := other.last second
  simp only [Instruction.isStop, Bool.false_eq_true, if_false] at enter leave skip caught
  rw [List.cons_append,
    unmarkAt_enterTry (body ++ _) (k + 1 + body.length + 1 + 1) (m := body'.length + 3) (by omega) (by omega),
    unmarkAt_append, inner f _ first, unmarkAt_still rfl,
    unmarkAt_branch _ (k + 1 + body.length + 1 + 1 + 1 + rest.length) (m := rest'.length + 2)
      (by omega) (by omega),
    unmarkAt_still rfl, other f _ second]
  rfl

/-- A loop over elements is three assignments before a guarded index loop. -/
theorem forLoop (n : Nat) (place : Position) (name : String) (namePlace : Position) (container : Unmarks a a')
    (inner : Unmarks body body') :
    Unmarks (Fragment.forLoop n place name namePlace a body) (Fragment.forLoop n place name namePlace a' body') := by
  refine .append (.append (.append (.assign _ _ container) (.assign _ _ (.of_still rfl)))
    (.assign _ _ (.of_still rfl))) (.skipIf _ (.of_still rfl) (.whileLoop (.of_still rfl) ?_))
  exact .append (.append (.assign _ _ (.of_still rfl)) inner) (.assign _ _ (.of_still rfl))

theorem conditional {other other' : Option (List Instruction)} (asks : Unmarks condition condition')
    (inner : Unmarks body body') (others : Option.Rel Unmarks other other') :
    Unmarks (Fragment.conditional condition body other) (Fragment.conditional condition' body' other') := by
  cases others with
  | none => exact .skipIf _ asks inner
  | some rest => exact .choose asks inner rest

end Unmarks

/-- Without the marker in its body, both branches of a loop are shorter. -/
example (test : Position) :
    unmark (Fragment.whileLoop [.load "more" test] [.stop 1 ⟨2, 2⟩, .load "x" test, .discard]) =
      Fragment.whileLoop [.load "more" test] [.load "x" test, .discard] := rfl

mutual

/-- The code of an expression holds no markers. -/
theorem Expr.unmarks (e : Expr) : Unmarks e.emit e.emit := by
  cases e with
  | literal | «variable» => exact .of_still rfl
  | member receiver name place => exact .append receiver.unmarks (.of_still rfl)
  | index receiver key place => exact .snoc (.append receiver.unmarks key.unmarks) rfl
  | call name keywords args place => exact .snoc (unmarksAll args) rfl
  | send receiver name keywords args place => exact .snoc (.append receiver.unmarks (unmarksAll args)) rfl
  | unary op operand place => exact .snoc operand.unmarks rfl
  | binary op left right place => exact .snoc (.append left.unmarks right.unmarks) rfl
  | both left right => exact .shortCircuit _ _ left.unmarks right.unmarks
  | either left right => exact .shortCircuit _ _ left.unmarks right.unmarks
  | pair first second place => exact .snoc (.append first.unmarks second.unmarks) rfl
  | list items place => exact .snoc (unmarksAll items) rfl
  | map entries place => exact .snoc (unmarksAll entries) rfl
  | group inner => exact inner.unmarks

theorem unmarksAll (es : List Expr) : Unmarks (emitAll es) (emitAll es) := by
  cases es with
  | nil => exact .nil
  | cons e rest => exact .append e.unmarks (unmarksAll rest)

end

theorem Target.unmarks (t : Target) (place : Position) {a b : List Instruction} (value : Unmarks a b) :
    Unmarks (t.emit a place) (t.emit b place) := by
  cases t with
  | «variable» name here => exact .assign name place value
  | member receiver name here =>
    exact .append (.append receiver.unmarks (.cons rfl value)) (.of_still rfl)
  | index receiver key here =>
    exact .append (.append (.append receiver.unmarks key.unmarks) value) (.of_still rfl)

/-- The same without markers. -/
def LoweringOptions.quiet (o : LoweringOptions) : LoweringOptions := { o with breakpoints := false }

theorem LoweringOptions.unmarks_emitMark (o : LoweringOptions) (ν : Numbering) (lines : Lines) :
    Unmarks (o.emitMark ν lines) (o.quiet.emitMark ν lines) := by
  unfold emitMark
  split
  · exact .stop _ _
  · exact .nil

mutual

theorem Stmt.unmarks (o : LoweringOptions) (ν : Numbering) (s : Stmt) :
    Unmarks (s.emit o ν) (s.emit o.quiet ν) := by
  cases s with
  | eval lines value => exact .append (o.unmarks_emitMark ν lines) (.snoc value.unmarks rfl)
  | assign lines target value place =>
    exact .append (o.unmarks_emitMark ν lines) (target.unmarks place value.unmarks)
  | ret lines value =>
    refine .append (o.unmarks_emitMark ν lines) (.snoc ?_ rfl)
    cases value with
    | none => exact .of_still rfl
    | some value => exact value.unmarks
  | branch line condition body otherwise =>
    exact .append (o.unmarks_emitMark ν _)
      (.conditional condition.unmarks (blockUnmarks o ν.mark body) (otherwise.unmarks o _))
  | whileLoop line condition body =>
    exact .append (o.unmarks_emitMark ν _) (.whileLoop condition.unmarks (blockUnmarks o ν.mark body))
  | forLoop place name namePlace items body =>
    exact .append (o.unmarks_emitMark ν _) (.forLoop _ _ _ _ items.unmarks (blockUnmarks o ν.mark.loop body))
  | guarded line body binding handler =>
    exact .append (o.unmarks_emitMark ν _)
      (.guarded binding (blockUnmarks o ν.mark body) (blockUnmarks o _ handler))
  | define place name params body =>
    -- Procedures are numbered alike with markers and without, so the constant is the same.
    exact .append (o.unmarks_emitMark ν _) (.assign _ _ (.of_still rfl))

theorem blockUnmarks (o : LoweringOptions) (ν : Numbering) (body : List Stmt) :
    Unmarks (emitBlock o ν body) (emitBlock o.quiet ν body) := by
  cases body with
  | nil => exact .nil
  | cons s rest => exact .append (s.unmarks o ν) (blockUnmarks o _ rest)

theorem Otherwise.unmarks (o : LoweringOptions) (ν : Numbering) (otherwise : Otherwise) :
    Option.Rel Unmarks (otherwise.emit o ν) (otherwise.emit o.quiet ν) := by
  cases otherwise with
  | nothing => exact .none
  | block body => exact .some (blockUnmarks o ν body)
  | branch condition body otherwise =>
    exact .some (.conditional condition.unmarks (blockUnmarks o ν body) (otherwise.unmarks o _))

end

theorem Piece.unmarks (o : LoweringOptions) (p : Piece) : Unmarks (p.emit o) (p.emit o.quiet) := by
  cases p with
  | block ν body => exact blockUnmarks o ν body
  | field ν owner lines name place value =>
    exact .append (o.unmarks_emitMark ν lines)
      (.append (.cons rfl (.cons rfl value.unmarks)) (.of_still rfl))

theorem emitPieces_unmarks (o : LoweringOptions) (body : List Piece) :
    Unmarks (emitPieces o body) (emitPieces o.quiet body) := by
  induction body with
  | nil => exact .nil
  | cons p rest ih => exact .append (p.unmarks o) ih

def Procedure.withoutMarkers (p : Procedure) : Procedure := { p with code := (unmark p.code.toList).toArray }

theorem Definition.withoutMarkers_procedure (o : LoweringOptions) (d : Definition) :
    (d.procedure o).withoutMarkers = d.procedure o.quiet := by
  rw [Procedure.withoutMarkers, Definition.procedure, (emitPieces_unmarks o d.body).unmark_eq, Definition.procedure]

end ScriptEngine
