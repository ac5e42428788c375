import ScriptEngine.Proofs.Origins

/-! # The grammar of compiled code

Compiled code is not any list of instructions. It is built from operand code, which leaves so many values on
the stack, and statement code, which leaves the stack as it was, by the closed forms of fragments. `Pushes`
and `Balanced` are these two kinds of lists; the code of every tree is of them. What is said about all compiled code
is proved by induction on them, so that the trees are gone through only once.

The grammar has a parameter: what is known of each constant, each call by name and each send. Some calls are
spelled out in the source, the others are those that operators, brackets and loops are made of.
-/

namespace ScriptEngine

/-- The calls and sends that no source text spells out. -/
inductive MadeCall : Instruction → Prop
  | pair (place : Position) : MadeCall (.call (.positional "__pair__" 2 place))
  | list (count : Nat) (place : Position) : MadeCall (.call (.positional "__list__" count place))
  | map (count : Nat) (place : Position) : MadeCall (.call (.positional "__map__" count place))
  | getMember (place : Position) : MadeCall (.send (.positional "getMember" 1 place))
  | setMember (place : Position) : MadeCall (.send (.positional "setMember" 2 place))
  | getItem (place : Position) : MadeCall (.send (.positional "__getitem__" 1 place))
  | setItem (place : Position) : MadeCall (.send (.positional "__setitem__" 2 place))
  | unary (op : UnaryOp) (place : Position) : MadeCall (.send (.positional op.method 0 place))
  | binary (op : BinaryOp) (place : Position) : MadeCall (.send (.positional op.method 1 place))
  | size (place : Position) : MadeCall (.send (.positional "size" 0 place))
  | element (place : Position) : MadeCall (.send (.positional "__index__" 1 place))

/-- The instruction that a spelled call becomes at a place. -/
def SpelledCall.instruction (c : SpelledCall) (place : Position) : Instruction :=
  if c.isMethod then .send ⟨c.name, c.keywords, place⟩ else .call ⟨c.name, c.keywords, place⟩

@[simp] theorem CallSite.argc_positional (name : String) (count : Nat) (place : Position) :
    (CallSite.positional name count place).argc = count := by
  simp [CallSite.argc, CallSite.positional]

/-- Code that leaves so many values on the stack. -/
inductive Pushes (C : Instruction → Prop) : Nat → List Instruction → Prop
  | nil : Pushes C 0 []
  | append {m n : Nat} {a b : List Instruction} :
    Pushes C m a → Pushes C n b → Pushes C (m + n) (a ++ b)
  | value {v : Value} : C (.value v) → Pushes C 1 [.value v]
  | load (name : String) (place : Position) : Pushes C 1 [.load name place]
  | call {site : CallSite} {a : List Instruction} :
    C (.call site) → Pushes C site.argc a → Pushes C 1 (a ++ [.call site])
  | send {site : CallSite} {a : List Instruction} :
    C (.send site) → Pushes C (site.argc + 1) a → Pushes C 1 (a ++ [.send site])
  | shortCircuit {kind : BranchKind} (decided : Bool) {left right : List Instruction} :
    kind ≠ .always → Pushes C 1 left → Pushes C 1 right →
      Pushes C 1 (Fragment.shortCircuit kind decided left right)

/-- Code that leaves the stack as it was, if it does not leave the procedure. -/
inductive Balanced (C : Instruction → Prop) : List Instruction → Prop
  | nil : Balanced C []
  | append {a b : List Instruction} : Balanced C a → Balanced C b → Balanced C (a ++ b)
  | stop (index : Nat) (lines : Lines) : Balanced C [.stop index lines]
  | drop {a : List Instruction} : Pushes C 1 a → Balanced C (a ++ [.discard])
  | assign (name : String) (place : Position) {a : List Instruction} :
    Pushes C 1 a → Balanced C (Fragment.assign name a place)
  | ret {a : List Instruction} : Pushes C 1 a → Balanced C (a ++ [.branch .always .exit])
  | skipIf {kind : BranchKind} {condition body : List Instruction} :
    kind ≠ .always → Pushes C 1 condition → Balanced C body →
      Balanced C (Fragment.skipIf kind condition body)
  | choose {condition body rest : List Instruction} :
    Pushes C 1 condition → Balanced C body → Balanced C rest →
      Balanced C (Fragment.choose condition body rest)
  | whileLoop {condition body : List Instruction} :
    Pushes C 1 condition → Balanced C body → Balanced C (Fragment.whileLoop condition body)
  | guarded (binding : Option String) {body handler : List Instruction} :
    Balanced C body → Balanced C handler → Balanced C (Fragment.guarded body binding handler)

/-- What is known of constants holds of those that refer to one program, and what is known of calls holds of
those that the compiler makes and of some spelled ones, which have one tag for each argument. -/
structure Admits (program : ProgramId) (C : Instruction → Prop) (calls : List SpelledCall) : Prop where
  constant : ∀ v : Value, v.IsOf program → C (.value v)
  made : ∀ i, MadeCall i → C i
  spelled : ∀ c ∈ calls, ∀ place, C (c.instruction place)
  tagged : ∀ c ∈ calls, c.IsTagged

variable {program : ProgramId} {C : Instruction → Prop}

theorem Admits.mono {calls fewer : List SpelledCall} (known : Admits program C calls)
    (among : ∀ c ∈ fewer, c ∈ calls) : Admits program C fewer :=
  ⟨known.constant, known.made, fun c member => known.spelled c (among c member),
    fun c member => known.tagged c (among c member)⟩

theorem Admits.left {a b : List SpelledCall} (known : Admits program C (a ++ b)) : Admits program C a :=
  known.mono fun _ member => List.mem_append_left _ member

theorem Admits.right {a b : List SpelledCall} (known : Admits program C (a ++ b)) : Admits program C b :=
  known.mono fun _ member => List.mem_append_right _ member

/-- A constant without references is one of every program. -/
theorem Admits.plain {calls : List SpelledCall} (known : Admits program C calls) {v : Value}
    (none : v.holders = []) : Pushes C 1 [.value v] :=
  .value (known.constant v (Value.isOf_of_holders none))

/-- A send with positional arguments. -/
theorem Pushes.made_send {name : String} {count : Nat} {place : Position} {a : List Instruction}
    (known : C (.send (.positional name count place))) (operands : Pushes C (count + 1) a) :
    Pushes C 1 (a ++ [.send (.positional name count place)]) :=
  .send known (by rwa [CallSite.argc_positional])

/-- A call with positional arguments. -/
theorem Pushes.made_call {name : String} {count : Nat} {place : Position} {a : List Instruction}
    (known : C (.call (.positional name count place))) (operands : Pushes C count a) :
    Pushes C 1 (a ++ [.call (.positional name count place)]) :=
  .call known (by rwa [CallSite.argc_positional])

mutual

theorem Expr.pushes (e : Expr) (known : Admits program C e.calls) : Pushes C 1 e.emit := by
  cases e with
  | literal value => exact .value (known.constant _ value.toValue_isOf)
  | «variable» name place => exact .load _ _
  | member receiver name place =>
    have operands := (receiver.pushes known).append (known.plain (v := .string name) rfl)
    have whole := operands.made_send (known.made _ (.getMember place))
    simpa [Expr.emit] using whole
  | index receiver key place =>
    have operands := (receiver.pushes known.left).append (key.pushes known.right)
    exact operands.made_send (known.made _ (.getItem place))
  | call name keywords args place =>
    have tagged : keywords.length = args.length := known.tagged _ List.mem_concat_self
    refine .call (known.spelled ⟨false, name, keywords, args.length⟩ List.mem_concat_self place) ?_
    rw [CallSite.argc, tagged]
    exact pushesAll args known.left
  | send receiver name keywords args place =>
    have tagged : keywords.length = args.length := known.tagged _ List.mem_concat_self
    refine .send (known.spelled ⟨true, name, keywords, args.length⟩ List.mem_concat_self place) ?_
    rw [CallSite.argc, tagged, Nat.add_comm]
    exact (receiver.pushes known.left.left).append (pushesAll args known.left.right)
  | unary op operand place => exact (operand.pushes known).made_send (known.made _ (.unary op place))
  | binary op left right place =>
    have operands := (left.pushes known.left).append (right.pushes known.right)
    exact operands.made_send (known.made _ (.binary op place))
  | both left right =>
    exact .shortCircuit _ (by simp) (left.pushes known.left) (right.pushes known.right)
  | either left right =>
    exact .shortCircuit _ (by simp) (left.pushes known.left) (right.pushes known.right)
  | pair first second place =>
    have operands := (first.pushes known.left).append (second.pushes known.right)
    exact operands.made_call (known.made _ (.pair place))
  | list items place => exact (pushesAll items known).made_call (known.made _ (.list _ place))
  | map entries place => exact (pushesAll entries known).made_call (known.made _ (.map _ place))
  | group inner => exact inner.pushes known

theorem pushesAll (es : List Expr) (known : Admits program C (callsAll es)) :
    Pushes C es.length (emitAll es) := by
  cases es with
  | nil => exact .nil
  | cons e rest =>
    rw [List.length_cons, Nat.add_comm]
    exact (e.pushes known.left).append (pushesAll rest known.right)

end

theorem Target.balanced (t : Target) {value : List Instruction} (place : Position)
    (known : Admits program C t.calls) (values : Pushes C 1 value) : Balanced C (t.emit value place) := by
  cases t with
  | «variable» name here => exact .assign name place values
  | member receiver name here =>
    have operands := ((receiver.pushes known).append (known.plain (v := .string name) rfl)).append values
    have whole := Balanced.drop (operands.made_send (known.made _ (.setMember here)))
    simpa [Target.emit] using whole
  | index receiver key here =>
    have operands := ((receiver.pushes known.left).append (key.pushes known.right)).append values
    have whole := Balanced.drop (operands.made_send (known.made _ (.setItem here)))
    simpa [Target.emit] using whole

theorem LoweringOptions.balanced_emitMark (o : LoweringOptions) (ν : Numbering) (lines : Lines) :
    Balanced C (o.emitMark ν lines) := by
  unfold LoweringOptions.emitMark
  split
  · exact .stop _ _
  · exact .nil

/-- A loop over elements is three assignments before a guarded index loop. -/
theorem Balanced.forLoop (n : Nat) (place : Position) (name : String) (namePlace : Position)
    {items body : List Instruction} {calls : List SpelledCall} (known : Admits program C calls)
    (container : Pushes C 1 items) (bodies : Balanced C body) :
    Balanced C (Fragment.forLoop n place name namePlace items body) := by
  have load (role : String) : Pushes C 1 [.load (hiddenName role n) place] := .load _ _
  have number (x : Float) : Pushes C 1 [.value (.number x)] := known.plain rfl
  have size := (load "len").append (number 0) |>.made_send (known.made _ (.binary .equal place))
  have below := (load "idx").append (load "len") |>.made_send (known.made _ (.binary .less place))
  have element := (load "iter").append (load "idx") |>.made_send (known.made _ (.element place))
  have advance := (load "idx").append (number 1) |>.made_send (known.made _ (.binary .add place))
  refine ((Balanced.assign _ _ container).append (.assign _ _ ?_)).append (.assign _ _ (number 0))
    |>.append (.skipIf (by simp) size (.whileLoop below
      (((Balanced.assign _ _ element).append bodies).append (.assign _ _ advance))))
  exact (load "iter").made_send (known.made _ (.size place))

theorem Balanced.conditional {condition body : List Instruction} {rest : Option (List Instruction)}
    (conditions : Pushes C 1 condition) (bodies : Balanced C body)
    (rests : ∀ is, rest = some is → Balanced C is) :
    Balanced C (Fragment.conditional condition body rest) := by
  cases rest with
  | none => exact .skipIf (by simp) conditions bodies
  | some rest => exact .choose conditions bodies (rests rest rfl)

mutual

theorem Stmt.balanced (o : LoweringOptions) (ν : Numbering) (s : Stmt) (known : Admits o.program C s.calls) :
    Balanced C (s.emit o ν) := by
  cases s with
  | eval lines value => exact (o.balanced_emitMark ν lines).append (.drop (value.pushes known))
  | assign lines target value place =>
    exact (o.balanced_emitMark ν lines).append
      (target.balanced place known.left (value.pushes known.right))
  | ret lines value =>
    refine (o.balanced_emitMark ν lines).append (.ret ?_)
    cases value with
    | none => exact known.plain rfl
    | some value => exact value.pushes known
  | branch line condition body otherwise =>
    exact (o.balanced_emitMark ν _).append (.conditional (condition.pushes known.left.left)
      (blockBalanced o ν.mark body known.left.right) (otherwise.balanced o _ known.right))
  | whileLoop line condition body =>
    exact (o.balanced_emitMark ν _).append
      (.whileLoop (condition.pushes known.left) (blockBalanced o ν.mark body known.right))
  | forLoop place name namePlace items body =>
    exact (o.balanced_emitMark ν _).append
      (.forLoop _ _ _ _ known (items.pushes known.left) (blockBalanced o ν.mark.loop body known.right))
  | guarded line body binding handler =>
    exact (o.balanced_emitMark ν _).append
      (.guarded binding (blockBalanced o ν.mark body known.left) (blockBalanced o _ handler known.right))
  | define place name params body =>
    exact (o.balanced_emitMark ν _).append
      (.assign _ _ (.value (known.constant _ (Value.procedure_isOf rfl))))

theorem blockBalanced (o : LoweringOptions) (ν : Numbering) (body : List Stmt)
    (known : Admits o.program C (blockCalls body)) : Balanced C (emitBlock o ν body) := by
  cases body with
  | nil => exact .nil
  | cons s rest => exact (s.balanced o ν known.left).append (blockBalanced o _ rest known.right)

theorem Otherwise.balanced (o : LoweringOptions) (ν : Numbering) (otherwise : Otherwise)
    (known : Admits o.program C otherwise.calls) :
    ∀ is, otherwise.emit o ν = some is → Balanced C is := by
  cases otherwise with
  | nothing => simp [Otherwise.emit]
  | block body =>
    rintro is ⟨⟩
    exact blockBalanced o ν body known
  | branch condition body otherwise =>
    rintro is ⟨⟩
    exact .conditional (condition.pushes known.left.left) (blockBalanced o ν body known.left.right)
      (otherwise.balanced o _ known.right)

end

theorem Piece.balanced (o : LoweringOptions) (p : Piece) {calls : List SpelledCall}
    (known : Admits o.program C calls) (within : p.Within o.program calls) :
    Balanced C (p.emit o) := by
  have own := known.mono within.spells
  cases p with
  | block ν body => exact blockBalanced o ν body own
  | field ν owner lines name place value =>
    have owned : C (.value (.classRef owner)) :=
      known.constant _ (Value.classRef_isOf (within.owner _ _ _ _ _ _ rfl))
    have operands := ((Pushes.value owned).append (known.plain (v := .string name) rfl)).append
      (value.pushes own)
    have whole := (o.balanced_emitMark ν lines).append
      (.drop (operands.made_send (known.made _ (.setMember place))))
    simpa [Piece.emit] using whole

/-- The code of a definition is compiled code. -/
theorem Definition.balanced (o : LoweringOptions) (d : Definition) {calls : List SpelledCall}
    (known : Admits o.program C calls) (within : d.Within o.program calls) :
    Balanced C (emitPieces o d.body) := by
  have pieces := within.body
  unfold emitPieces
  generalize d.body = body at pieces
  induction body with
  | nil => exact .nil
  | cons piece rest ih =>
    obtain ⟨first, others⟩ := List.forall_mem_cons.mp pieces
    exact (piece.balanced o known first).append (ih others)

/-- The procedures of a module are compiled code. -/
theorem ModuleTree.balanced {m : ModuleTree} (o : LoweringOptions)
    (known : Admits o.program C m.calls) :
    ∀ d ∈ m.definitions o.program, Balanced C (d.procedure o).code.toList :=
  fun d member => d.balanced o known (m.definitions_within o.program d member)

end ScriptEngine
