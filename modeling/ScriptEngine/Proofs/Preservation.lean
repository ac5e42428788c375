import ScriptEngine.Proofs.Simulation

/-! # Compiling preserves meaning

The code of a tree does what the tree means: by induction on trees for expressions and statements, and by
induction on the number of rounds for loops.
-/

namespace ScriptEngine

open Machine

/-- No call assigns, and each has one tag for each argument. -/
def Plain (calls : List SpelledCall) : Prop := ∀ c ∈ calls, c.IsTagged ∧ ¬ c.Assigns

theorem Plain.left {a b : List SpelledCall} (plain : Plain (a ++ b)) : Plain a :=
  fun c member => plain c (List.mem_append_left _ member)

theorem Plain.right {a b : List SpelledCall} (plain : Plain (a ++ b)) : Plain b :=
  fun c member => plain c (List.mem_append_right _ member)

variable {host : Host} {calls : Calls} {rounds : Nat} {code : Array Instruction} {η : List Handler}
  {σ : List Value} {a : Activation} {m m' : Machine} {pc pc' : Nat} {α : Type}
  {post post' : α → Activation → Machine → Prop} {r : EStateM.Result (Halt ScriptError) Activation α}

theorem Machine.Stands.cast (stands : Stands host calls m code pc σ η a) (same : pc = pc') :
    Stands host calls m code pc' σ η a := same ▸ stands

/-- A simulation that goes on a little behind the evaluation. -/
theorem Machine.Simulates.andThen (simulates : Simulates host calls rounds code η m post r)
    (further : ∀ v b m', post v b m' → ∃ m'', Reaches host calls m' m'' ∧ post' v b m'') :
    Simulates host calls rounds code η m post' r := by
  rcases r with ⟨v, b⟩ | ⟨halt, b⟩
  · obtain ⟨m₁, reached, here⟩ := simulates
    obtain ⟨m₂, onward, there⟩ := further v b m₁ here
    exact ⟨m₂, reached.trans onward, there⟩
  · cases halt with
    | exhausted => exact simulates
    | failed e => cases e <;> exact simulates

theorem Machine.Simulates.mono (simulates : Simulates host calls rounds code η m post r)
    (weaker : ∀ v b m', post v b m' → post' v b m') :
    Simulates host calls rounds code η m post' r :=
  simulates.andThen fun v b m' here => ⟨m', .refl m', weaker v b m' here⟩

/-- Code that evaluates its right part only if the value of the left part does not decide. -/
theorem Machine.Stands.shortCircuit {kind : BranchKind} {decided : Bool} {left right : List Instruction}
    {first second : Evaluation Value} {next : Bool → Evaluation Value} (conditional : kind ≠ .always)
    (seg : Segment code pc (Fragment.shortCircuit kind decided left right))
    (lefts : Simulates host calls rounds code η m
      (fun v b m' => Stands host calls m' code (pc + left.length) (v :: σ) η b) (first a))
    (rights : ∀ b m', Stands host calls m' code (pc + left.length + 1) σ η b →
      Simulates host calls rounds code η m' (fun v b m' =>
        Stands host calls m' code (pc + left.length + 1 + right.length) (v :: σ) η b) (second b))
    (decides : ∀ b, (b == (kind == .ifTrue)) = true → next b = pure (.bool decided))
    (leaves : ∀ b, (b == (kind == .ifTrue)) = false → next b = second) :
    Simulates host calls rounds code η m
      (fun v b m' => Stands host calls m' code
        (pc + (Fragment.shortCircuit kind decided left right).length) (v :: σ) η b)
      ((first >>= fun v => Evaluation.truth v >>= next) a) := by
  have inside := seg.inside
  have length : (Fragment.shortCircuit kind decided left right).length =
      left.length + 1 + right.length + 2 := by
    simp [Fragment.shortCircuit]
    omega
  rw [length] at inside ⊢
  have test : landing? (pc + left.length) (.relative (right.length + 2)) code.size =
      some (.index (pc + left.length + 1 + right.length + 1)) :=
    landing?_relative (by omega) (by omega)
  have skip : landing? (pc + left.length + 1 + right.length) (.relative 2) code.size =
      some (.index (pc + left.length + 1 + right.length + 2)) :=
    landing?_relative (by omega) (by omega)
  have last := seg.right
  rw [List.length_append, List.length_cons, ← Nat.add_assoc, ← Nat.add_assoc,
    Nat.add_right_comm] at last
  refine lefts.bind fun v b m' stands => ?_
  refine (stands.test seg.left.right.head conditional test).bind fun b a' m' stands => ?_
  cases taken : b == (kind == .ifTrue) with
  | true =>
    rw [decides b taken]
    rw [if_pos taken] at stands
    obtain ⟨m'', reached, stands⟩ := stands.value last.tail.head
    exact .of_reaches reached (.here (stands.cast (by omega)))
  | false =>
    rw [leaves b taken]
    rw [if_neg (by simp [taken])] at stands
    refine (rights a' m' stands).andThen fun v b m' stands => ?_
    obtain ⟨m'', jumped, stands⟩ := stands.goto last.head skip
    exact ⟨m'', (Reaches.refl m').snoc jumped, stands.cast (by omega)⟩

mutual

theorem Expr.simulates (e : Expr) {pc : Nat} {σ : List Value} {a : Activation} {m : Machine}
    (plain : Plain e.calls) (seg : Segment code pc e.emit)
    (stands : Stands host calls m code pc σ η a) :
    Simulates host calls rounds code η m
      (fun v b m' => Stands host calls m' code (pc + e.emit.length) (v :: σ) η b)
      (e.eval host calls σ a) := by
  cases e with
  | literal value => exact stands.value seg.head
  | «variable» name place => exact stands.load seg.head
  | member receiver name place =>
    rw [Expr.emit] at seg
    rw [Expr.eval]
    refine (receiver.simulates plain seg.left stands).bind fun r b m' stands => ?_
    obtain ⟨m'', reached, stands⟩ := stands.value seg.right.head
    refine .of_reaches reached (.mono (stands.send [.string name] seg.right.tail.head
      (by simp)) fun v b m' stands => stands.cast ?_)
    simp [Expr.emit]
    omega
  | index receiver key place =>
    rw [Expr.emit] at seg
    rw [Expr.eval]
    refine (receiver.simulates plain.left seg.left.left stands).bind fun r b m' stands => ?_
    refine (key.simulates plain.right seg.left.right stands).bind fun k b m' stands => ?_
    have last := seg.right.head
    rw [List.length_append, ← Nat.add_assoc] at last
    refine .mono (stands.send [k] last (by simp)) fun v b m' stands => stands.cast ?_
    simp [Expr.emit]
    omega
  | call name keywords args place =>
    rw [Expr.emit] at seg
    rw [Expr.eval]
    have known := plain _ List.mem_concat_self
    have named : name ≠ "set" := fun same => known.2 ⟨rfl, same⟩
    refine (simulatesAll args plain.left seg.left stands).bind fun values b m' => ?_
    rintro ⟨count, stands⟩
    refine .mono (stands.call _ seg.right.head named (count.trans known.1.symm)) fun v b m' stands =>
      stands.cast ?_
    simp [Expr.emit]
    omega
  | send receiver name keywords args place =>
    rw [Expr.emit] at seg
    rw [Expr.eval]
    have known := plain _ List.mem_concat_self
    refine (receiver.simulates plain.left.left seg.left.left stands).bind fun r b m' stands => ?_
    refine (simulatesAll args plain.left.right seg.left.right stands).bind fun values b m' => ?_
    rintro ⟨count, stands⟩
    have last := seg.right.head
    rw [List.length_append, ← Nat.add_assoc] at last
    refine .mono (stands.send _ last (count.trans known.1.symm)) fun v b m' stands => stands.cast ?_
    simp [Expr.emit]
    omega
  | unary op operand place =>
    rw [Expr.emit] at seg
    rw [Expr.eval]
    refine (operand.simulates plain seg.left stands).bind fun v b m' stands => ?_
    refine .mono (stands.send [] seg.right.head (by simp)) fun v b m' stands =>
      stands.cast ?_
    simp [Expr.emit]
    omega
  | binary op left right place =>
    rw [Expr.emit] at seg
    rw [Expr.eval]
    refine (left.simulates plain.left seg.left.left stands).bind fun v b m' stands => ?_
    refine (right.simulates plain.right seg.left.right stands).bind fun w b m' stands => ?_
    have last := seg.right.head
    rw [List.length_append, ← Nat.add_assoc] at last
    refine .mono (stands.send [w] last (by simp)) fun v b m' stands => stands.cast ?_
    simp [Expr.emit]
    omega
  | both left right =>
    refine Stands.shortCircuit (by simp) seg (left.simulates plain.left seg.left.left stands)
      (fun b m' stands => right.simulates plain.right seg.left.right.tail stands) ?_ ?_
    · rintro (_ | _) taken
      · rfl
      · cases taken
    · rintro (_ | _) taken
      · cases taken
      · rfl
  | either left right =>
    refine Stands.shortCircuit (by simp) seg (left.simulates plain.left seg.left.left stands)
      (fun b m' stands => right.simulates plain.right seg.left.right.tail stands) ?_ ?_
    · rintro (_ | _) taken
      · cases taken
      · rfl
    · rintro (_ | _) taken
      · rfl
      · cases taken
  | pair first second place =>
    rw [Expr.emit] at seg
    rw [Expr.eval]
    refine (first.simulates plain.left seg.left.left stands).bind fun v b m' stands => ?_
    refine (second.simulates plain.right seg.left.right stands).bind fun w b m' stands => ?_
    have last := seg.right.head
    rw [List.length_append, ← Nat.add_assoc] at last
    refine .mono (stands.call [v, w] last (by simp [CallSite.positional]) (by simp)) fun v b m' stands =>
      stands.cast ?_
    simp [Expr.emit]
    omega
  | list items place =>
    rw [Expr.emit] at seg
    rw [Expr.eval]
    refine (simulatesAll items plain seg.left stands).bind fun values b m' => ?_
    rintro ⟨count, stands⟩
    refine .mono (stands.call _ seg.right.head (by simp [CallSite.positional]) (by simp [count])) fun v b m' stands =>
      stands.cast ?_
    simp [Expr.emit]
    omega
  | map entries place =>
    rw [Expr.emit] at seg
    rw [Expr.eval]
    refine (simulatesAll entries plain seg.left stands).bind fun values b m' => ?_
    rintro ⟨count, stands⟩
    refine .mono (stands.call _ seg.right.head (by simp [CallSite.positional]) (by simp [count])) fun v b m' stands =>
      stands.cast ?_
    simp [Expr.emit]
    omega
  | group inner => exact inner.simulates plain seg stands

theorem simulatesAll (es : List Expr) {pc : Nat} {σ : List Value} {a : Activation} {m : Machine}
    (plain : Plain (callsAll es)) (seg : Segment code pc (emitAll es))
    (stands : Stands host calls m code pc σ η a) :
    Simulates host calls rounds code η m
      (fun values b m' => values.length = es.length ∧
        Stands host calls m' code (pc + (emitAll es).length) (values.reverse ++ σ) η b)
      (evalAll host calls σ es a) := by
  cases es with
  | nil => exact .here ⟨rfl, stands⟩
  | cons e rest =>
    rw [emitAll] at seg
    rw [evalAll]
    refine (e.simulates plain.left seg.left stands).bind fun v b m' stands => ?_
    refine (simulatesAll rest plain.right seg.right stands).bind fun values b m' => ?_
    rintro ⟨count, stands⟩
    refine .here ⟨by simp [count], ?_⟩
    have length : (emitAll (e :: rest)).length = e.emit.length + (emitAll rest).length := by
      simp [emitAll]
    rw [length, ← Nat.add_assoc]
    simpa using stands

end

/-- A condition in front of the branch that asks for it. -/
theorem Expr.holds_simulates (e : Expr) {kind : BranchKind} {offset : Offset} {target : Nat}
    (plain : Plain e.calls) (seg : Segment code pc e.emit)
    (found : code[pc + e.emit.length]? = some (.branch kind offset)) (conditional : kind ≠ .always)
    (lands : landing? (pc + e.emit.length) offset code.size = some (.index target))
    (stands : Stands host calls m code pc [] η a) :
    Simulates host calls rounds code η m
      (fun b a' m' => Stands host calls m' code
        (if b == (kind == .ifTrue) then target else pc + e.emit.length + 1) [] η a')
      (e.holds host calls a) :=
  (e.simulates plain seg stands).bind fun _ _ _ stands => stands.test found conditional lands

/-- Where a machine is when a block has ended: behind its code, or at the end of its run. -/
def Completes (host : Host) (calls : Calls) (code : Array Instruction) (stop : Nat)
    (η : List Handler) : Evaluation.Completion → Activation → Machine → Prop
  | .normal, a, m => Stands host calls m code stop [] η a
  | .returned v, a, m => Ends host calls m (.ok v) η a

variable {stop mid : Nat} {first second : Evaluation Evaluation.Completion}
  {done : Evaluation.Completion}

theorem Completes.cast {stop' : Nat} (here : Completes host calls code stop η done a m)
    (same : stop = stop') : Completes host calls code stop' η done a m := same ▸ here

theorem Machine.Simulates.sequence
    (before : Simulates host calls rounds code η m (Completes host calls code mid η) (first a))
    (after : ∀ b m', Stands host calls m' code mid [] η b →
      Simulates host calls rounds code η m' (Completes host calls code stop η) (second b)) :
    Simulates host calls rounds code η m (Completes host calls code stop η)
      (Evaluation.sequence first second a) := by
  refine before.bind fun done b m' here => ?_
  cases done with
  | normal => exact after b m' here
  | returned v => exact .here here

theorem Machine.Spins.mono {more : Nat} (enough : rounds ≤ more) (spins : Spins host calls more m) :
    Spins host calls rounds m := by
  rcases spins with ⟨n, m', long, reached⟩ | used
  · exact .inl ⟨n, m', Nat.le_trans enough long, reached⟩
  · exact .inr used

theorem Machine.Spins.turn (here : turn host calls m = .inl m') (spins : Spins host calls rounds m') :
    Spins host calls (rounds + 1) m := by
  rcases spins with ⟨n, m₁, long, reached⟩ | ⟨m₁, m₂, reached, used⟩
  · exact .inl ⟨n + 1, m₁, Nat.succ_le_succ long, .turn here reached⟩
  · exact .inr ⟨m₁, m₂, ((Reaches.refl m).snoc here).trans reached, used⟩

/-- Fewer rounds are simulated as well. -/
theorem Machine.Simulates.fewer {more : Nat} (enough : rounds ≤ more)
    (simulates : Simulates host calls more code η m post r) :
    Simulates host calls rounds code η m post r := by
  rcases r with ⟨v, b⟩ | ⟨halt, b⟩
  · exact simulates
  · cases halt with
    | exhausted => exact Spins.mono enough simulates
    | failed e => cases e <;> exact simulates

/-- A turn makes up for a round. -/
theorem Machine.Simulates.turn (here : Machine.turn host calls m = .inl m')
    (simulates : Simulates host calls rounds code η m' post r) :
    Simulates host calls (rounds + 1) code η m post r := by
  have reached : Reaches host calls m m' := (Reaches.refl m).snoc here
  rcases r with ⟨v, b⟩ | ⟨halt, b⟩
  · exact Simulates.of_reaches reached simulates
  · cases halt with
    | exhausted => exact Spins.turn here simulates
    | failed e => cases e <;> exact Simulates.of_reaches reached simulates

/-- A loop whose rounds are simulated is simulated. -/
theorem Machine.Stands.repeats {top : Nat} (start : Nat) {condition : Evaluation Bool}
    {body : Evaluation Evaluation.Completion}
    (asks : ∀ b m', Stands host calls m' code top [] η b → Simulates host calls rounds code η m'
      (fun holds c m'' => Stands host calls m'' code (if holds then start else stop) [] η c)
      (condition b))
    (runs : ∀ b m', Stands host calls m' code start [] η b →
      Simulates host calls rounds code η m' (Completes host calls code mid η) (body b))
    (returns : ∀ b m', Stands host calls m' code mid [] η b →
      ∃ m'', Machine.turn host calls m' = .inl m'' ∧ Stands host calls m'' code top [] η b)
    (few : Nat) (enough : few ≤ rounds) {a : Activation} {m : Machine}
    (stands : Stands host calls m code top [] η a) :
    Simulates host calls few code η m (Completes host calls code stop η)
      (Evaluation.repeatWhile condition body few a) := by
  induction few generalizing a m with
  | zero => exact .inl ⟨0, m, Nat.le_refl 0, .refl m⟩
  | succ few ih =>
    refine ((asks a m stands).fewer enough).bind fun holds b m' stands => ?_
    cases holds with
    | false => exact .here stands
    | true =>
      refine ((runs b m' stands).fewer enough).sequence fun b m' stands => ?_
      obtain ⟨m'', back, stands⟩ := returns b m' stands
      exact (ih (by omega) stands).turn back

theorem Machine.Ends.outward {h : Handler} {result : Except ScriptError Value}
    (ends : Ends host calls m result (h :: η) a) : Ends host calls m result η (a.leaveTries 1) := by
  obtain ⟨m₁, m₂, inner, reached, ended, handlers, rfl⟩ := ends
  refine ⟨m₁, m₂, inner ++ [h], reached, ended, by simp [handlers], ?_⟩
  simp only [Activation.leaveTries, Activation.modifyControl, Control.leaveTries, List.length_append,
    List.length_singleton, Nat.sub_sub]

/-- A guarded block whose body and handler are simulated is simulated. -/
theorem Machine.Stands.guarded {body handler : List Instruction} {binding : Option String}
    {run : Evaluation Evaluation.Completion} {handle : Evaluation Evaluation.Completion}
    (seg : Segment code pc (Fragment.guarded body binding handler))
    (bodies : ∀ h b m', Stands host calls m' code (pc + 1) [] (h :: η) b →
      Simulates host calls rounds code (h :: η) m'
        (Completes host calls code (pc + 1 + body.length) (h :: η)) (run b))
    (handlers : ∀ b m', Stands host calls m' code (pc + body.length + 4) [] η b →
      Simulates host calls rounds code η m'
        (Completes host calls code (pc + body.length + 4 + handler.length) η) (handle b))
    (stands : Stands host calls m code pc [] η a) :
    Simulates host calls rounds code η m
      (Completes host calls code (pc + (Fragment.guarded body binding handler).length) η)
      (Evaluation.guarded run (fun message => Evaluation.takeMessage binding message >>= fun _ => handle)
        a) := by
  have inside := seg.inside
  have length : (Fragment.guarded body binding handler).length = body.length + 4 + handler.length := by
    simp [Fragment.guarded]
    omega
  rw [length] at inside ⊢
  have last := seg.right
  rw [List.length_cons, ← Nat.add_assoc, Nat.add_right_comm] at last
  have enter : landing? pc (.relative (body.length + 3)) code.size =
      some (.index (pc + 1 + body.length + 2)) := landing?_relative (by omega) (by omega)
  have skip : landing? (pc + 1 + body.length + 1) (.relative (handler.length + 2)) code.size =
      some (.index (pc + (body.length + 4 + handler.length))) :=
    landing?_relative (by omega) (by omega)
  obtain ⟨m₁, reached, opened⟩ := stands.enterTry seg.left.head enter
  have inner := bodies _ _ m₁ opened
  refine .of_reaches reached ?_
  unfold Evaluation.guarded
  generalize run a.enterTry = result at inner
  rcases result with ⟨done, b⟩ | ⟨halt, b⟩
  · obtain ⟨m₂, reached, here⟩ := inner
    refine .of_reaches reached ?_
    cases done with
    | returned v =>
      have ended : Ends host calls m₂ (.ok v) (_ :: η) b := here
      exact .here ended.outward
    | normal =>
      obtain ⟨m₃, reached, closed⟩ := Stands.leaveTry here last.head
      obtain ⟨m₄, jumped, there⟩ := closed.goto last.tail.head skip
      exact .of_reaches (reached.snoc jumped) (.here there)
  · cases halt with
    | exhausted => exact inner
    | failed e =>
      cases e with
      | runtime e =>
        obtain ⟨m₂, reached, there⟩ := Raises.handled inner
        refine .of_reaches reached ?_
        refine (there.caught last.tail.tail.head).bind fun _ c m₃ stands => ?_
        refine (handlers c m₃ (stands.cast (by omega))).mono fun done d m₄ here => ?_
        exact here.cast (by omega)
      | _ =>
        have ended : Ends host calls m₁ (.error _) (_ :: η) b := inner
        exact ended.outward

/-- A block behind a condition that may skip it. -/
theorem Machine.Stands.skipIf {kind : BranchKind} {e : Expr} {body : List Instruction}
    {next : Bool → Evaluation Evaluation.Completion} (conditional : kind ≠ .always)
    (plain : Plain e.calls) (seg : Segment code pc (Fragment.skipIf kind e.emit body))
    (stands : Stands host calls m code pc [] η a)
    (bodies : ∀ holds b m', (holds == (kind == .ifTrue)) = false →
      Stands host calls m' code (pc + e.emit.length + 1) [] η b →
        Simulates host calls rounds code η m'
          (Completes host calls code (pc + e.emit.length + 1 + body.length) η) (next holds b))
    (skips : ∀ holds, (holds == (kind == .ifTrue)) = true → next holds = pure .normal) :
    Simulates host calls rounds code η m
      (Completes host calls code (pc + (Fragment.skipIf kind e.emit body).length) η)
      ((e.holds host calls >>= next) a) := by
  have inside := seg.inside
  have length : (Fragment.skipIf kind e.emit body).length = e.emit.length + 1 + body.length := by
    simp [Fragment.skipIf]
    omega
  rw [length] at inside ⊢
  have test : landing? (pc + e.emit.length) (.relative (body.length + 1)) code.size =
      some (.index (pc + (e.emit.length + 1 + body.length))) :=
    landing?_relative (by omega) (by omega)
  refine (e.holds_simulates plain seg.left seg.right.head conditional test stands).bind
    fun b a' m' stands => ?_
  cases taken : b == (kind == .ifTrue) with
  | true =>
    rw [skips b taken]
    rw [if_pos taken] at stands
    exact .here stands
  | false =>
    rw [if_neg (by simp [taken])] at stands
    exact (bodies b a' m' taken stands).mono fun done c m'' here => here.cast (by omega)

/-- The arms of a conditional. -/
theorem Machine.Stands.conditional {e : Expr} {body : List Instruction}
    {rest : Option (List Instruction)} (plain : Plain e.calls)
    (seg : Segment code pc (Fragment.conditional e.emit body rest))
    (stands : Stands host calls m code pc [] η a)
    (bodies : Segment code (pc + e.emit.length + 1) body →
      ∀ b m', Stands host calls m' code (pc + e.emit.length + 1) [] η b →
        Simulates host calls rounds code η m'
          (Completes host calls code (pc + e.emit.length + 1 + body.length) η) (first b))
    (nothing : rest = none → second = pure .normal)
    (otherwise : ∀ is, rest = some is →
      Segment code (pc + e.emit.length + 1 + body.length + 1) is →
      ∀ b m', Stands host calls m' code (pc + e.emit.length + 1 + body.length + 1) [] η b →
        Simulates host calls rounds code η m'
          (Completes host calls code (pc + e.emit.length + 1 + body.length + 1 + is.length) η)
          (second b)) :
    Simulates host calls rounds code η m
      (Completes host calls code (pc + (Fragment.conditional e.emit body rest).length) η)
      ((e.holds host calls >>= fun holds => if holds then first else second) a) := by
  cases rest with
  | none =>
    refine Stands.skipIf (by simp) plain seg stands ?_ ?_
    · rintro (_ | _) b m' taken stands
      · cases taken
      · exact bodies seg.right.tail b m' stands
    · rintro (_ | _) taken
      · exact nothing rfl
      · cases taken
  | some is =>
    have inside := seg.inside
    have length : (Fragment.conditional e.emit body (some is)).length =
        e.emit.length + 1 + body.length + 1 + is.length := by
      simp [Fragment.conditional, Fragment.choose]
      omega
    rw [length] at inside ⊢
    rw [Fragment.conditional, Fragment.choose] at seg
    have test : landing? (pc + e.emit.length) (.relative (body.length + 2)) code.size =
        some (.index (pc + e.emit.length + 1 + body.length + 1)) :=
      landing?_relative (by omega) (by omega)
    have skip : landing? (pc + e.emit.length + 1 + body.length) (.relative (is.length + 1)) code.size =
        some (.index (pc + (e.emit.length + 1 + body.length + 1 + is.length))) :=
      landing?_relative (by omega) (by omega)
    have last := seg.right
    rw [List.length_append, List.length_cons, ← Nat.add_assoc, ← Nat.add_assoc,
      Nat.add_right_comm] at last
    refine (e.holds_simulates plain seg.left.left seg.left.right.head (by simp) test stands).bind
      fun b a' m' stands => ?_
    cases b with
    | false =>
      refine (otherwise is rfl last.tail a' m' stands).mono fun done c m'' here => ?_
      exact here.cast (by omega)
    | true =>
      refine (bodies seg.left.right.tail a' m' stands).andThen fun done c m'' here => ?_
      cases done with
      | returned v => exact ⟨m'', .refl m'', here⟩
      | normal =>
        obtain ⟨m₃, jumped, there⟩ := Stands.goto here last.head skip
        exact ⟨m₃, (Reaches.refl m'').snoc jumped, there⟩

theorem Machine.Stands.whileLoop {e : Expr} {body : List Instruction}
    {run : Evaluation Evaluation.Completion} (plain : Plain e.calls)
    (seg : Segment code pc (Fragment.whileLoop e.emit body))
    (stands : Stands host calls m code pc [] η a)
    (bodies : ∀ b m', Stands host calls m' code (pc + e.emit.length + 1) [] η b →
      Simulates host calls rounds code η m'
        (Completes host calls code (pc + e.emit.length + 1 + body.length) η) (run b)) :
    Simulates host calls rounds code η m
      (Completes host calls code (pc + (Fragment.whileLoop e.emit body).length) η)
      (Evaluation.repeatWhile (e.holds host calls) run rounds a) := by
  have inside := seg.inside
  have length : (Fragment.whileLoop e.emit body).length = e.emit.length + 1 + body.length + 1 := by
    simp [Fragment.whileLoop]
    omega
  rw [length] at inside ⊢
  rw [Fragment.whileLoop] at seg
  have test : landing? (pc + e.emit.length) (.relative (body.length + 2)) code.size =
      some (.index (pc + (e.emit.length + 1 + body.length + 1))) :=
    landing?_relative (by omega) (by omega)
  have back : landing? (pc + e.emit.length + 1 + body.length)
      (.relative (-(e.emit.length + 1 + body.length))) code.size = some (.index pc) :=
    landing?_relative (by omega) (by omega)
  have last := seg.right
  rw [List.length_append, List.length_cons, ← Nat.add_assoc, ← Nat.add_assoc,
    Nat.add_right_comm] at last
  refine Stands.repeats (pc + e.emit.length + 1) ?_ bodies ?_ rounds (Nat.le_refl _) stands
  · intro b m' stands
    refine (e.holds_simulates plain seg.left.left seg.left.right.head (by simp) test stands).mono
      fun holds c m'' here => ?_
    cases holds <;> exact here
  · intro b m' stands
    exact stands.goto last.head back

theorem assignValue_simulates {name : String} {e : Expr} {place : Position} (plain : Plain e.calls)
    (seg : Segment code pc (Fragment.assign name e.emit place))
    (stands : Stands host calls m code pc [] η a) :
    Simulates host calls rounds code η m
      (fun _ b m' => Stands host calls m' code (pc + (Fragment.assign name e.emit place).length) [] η b)
      (assignValue host calls name e place a) := by
  have last := seg.right
  rw [List.length_cons, ← Nat.add_assoc, Nat.add_right_comm] at last
  obtain ⟨m', reached, stands⟩ := stands.value seg.left.head
  refine .of_reaches reached ?_
  refine (e.simulates plain seg.left.tail stands).bind fun v b m'' stands => ?_
  refine (stands.assign last.head).mono fun _ c m₃ stands => stands.cast ?_
  simp [Fragment.assign]
  omega

theorem Target.simulates (t : Target) {e : Expr} {place : Position} (plain : Plain (t.calls ++ e.calls))
    (seg : Segment code pc (t.emit e.emit place)) (stands : Stands host calls m code pc [] η a) :
    Simulates host calls rounds code η m
      (fun _ b m' => Stands host calls m' code (pc + (t.emit e.emit place).length) [] η b)
      (t.assign host calls e place a) := by
  cases t with
  | «variable» name here => exact assignValue_simulates plain.right seg stands
  | member receiver name here =>
    rw [Target.emit] at seg
    rw [Target.assign]
    have last := seg.right
    rw [List.length_append, List.length_cons, ← Nat.add_assoc, ← Nat.add_assoc,
      Nat.add_right_comm] at last
    refine (receiver.simulates plain.left seg.left.left stands).bind fun r b m' stands => ?_
    obtain ⟨m'', reached, stands⟩ := stands.value seg.left.right.head
    refine .of_reaches reached ?_
    refine (e.simulates plain.right seg.left.right.tail stands).bind fun v b m' stands => ?_
    refine (stands.send [.string name, v] last.head (by simp)).bind
      fun _ b m' stands => ?_
    obtain ⟨m'', reached, stands⟩ := stands.discard last.tail.head
    refine .of_reaches reached (.here (stands.cast ?_))
    simp [Target.emit]
    omega
  | index receiver key here =>
    rw [Target.emit] at seg
    rw [Target.assign]
    have last := seg.right
    rw [List.length_append, List.length_append, ← Nat.add_assoc, ← Nat.add_assoc] at last
    have value := seg.left.right
    rw [List.length_append, ← Nat.add_assoc] at value
    refine (receiver.simulates plain.left.left seg.left.left.left stands).bind
      fun r b m' stands => ?_
    refine (key.simulates plain.left.right seg.left.left.right stands).bind fun k b m' stands => ?_
    refine (e.simulates plain.right value stands).bind fun v b m' stands => ?_
    refine (stands.send [k, v] last.head (by simp)).bind fun _ b m' stands => ?_
    obtain ⟨m'', reached, stands⟩ := stands.discard last.tail.head
    refine .of_reaches reached (.here (stands.cast ?_))
    simp [Target.emit]
    omega

/-- A loop over elements is three assignments before an index loop that may be skipped. -/
theorem Machine.Stands.forEach {n : Nat} {place namePlace : Position} {name : String} {items : Expr}
    {body : List Instruction} {run : Evaluation Evaluation.Completion} (plain : Plain items.calls)
    (seg : Segment code pc (Fragment.forLoop n place name namePlace items.emit body))
    (stands : Stands host calls m code pc [] η a)
    (bodies : ∀ lo b m', Segment code lo body → Stands host calls m' code lo [] η b →
      Simulates host calls rounds code η m' (Completes host calls code (lo + body.length) η) (run b)) :
    Simulates host calls rounds code η m
      (Completes host calls code
        (pc + (Fragment.forLoop n place name namePlace items.emit body).length) η)
      (ScriptEngine.forEach host calls n place name namePlace items run rounds a) := by
  unfold ScriptEngine.forEach
  generalize sized : Expr.send (.variable (hiddenName "iter" n) place) "size" [] [] place = size
  generalize zeroed : Expr.literal (.number 0) = zero
  generalize tested : Expr.binary .equal (.variable (hiddenName "len" n) place) zero place = isEmpty
  generalize compared : Expr.binary .less (.variable (hiddenName "idx" n) place)
    (.variable (hiddenName "len" n) place) place = isBelow
  generalize taken : Expr.send (.variable (hiddenName "iter" n) place) "__index__" [none]
    [.variable (hiddenName "idx" n) place] place = element
  generalize moved : Expr.binary .add (.variable (hiddenName "idx" n) place) (.literal (.number 1))
    place = advance
  have shape : Fragment.forLoop n place name namePlace items.emit body =
      Fragment.assign (hiddenName "iter" n) items.emit place ++
        Fragment.assign (hiddenName "len" n) size.emit place ++
        Fragment.assign (hiddenName "idx" n) zero.emit place ++
        Fragment.skipIf .ifTrue isEmpty.emit (Fragment.whileLoop isBelow.emit
          (Fragment.assign name element.emit namePlace ++ body ++
            Fragment.assign (hiddenName "idx" n) advance.emit place)) := by
    subst sized zeroed tested compared taken moved
    rfl
  have plain_size : Plain size.calls := by
    subst sized
    simp [Plain, Expr.calls, callsAll, SpelledCall.IsTagged, SpelledCall.Assigns]
  have plain_zero : Plain zero.calls := by
    subst zeroed
    simp [Plain, Expr.calls]
  have plain_isEmpty : Plain isEmpty.calls := by
    subst tested
    simpa [Expr.calls] using plain_zero
  have plain_isBelow : Plain isBelow.calls := by
    subst compared
    simp [Plain, Expr.calls]
  have plain_element : Plain element.calls := by
    subst taken
    simp [Plain, Expr.calls, callsAll, SpelledCall.IsTagged, SpelledCall.Assigns]
  have plain_advance : Plain advance.calls := by
    subst moved
    simp [Plain, Expr.calls]
  rw [shape] at seg ⊢
  have third := seg.left.right
  have loop := seg.right
  rw [List.length_append, ← Nat.add_assoc] at third
  rw [List.length_append, List.length_append, ← Nat.add_assoc, ← Nat.add_assoc] at loop
  refine (assignValue_simulates plain seg.left.left.left stands).bind fun _ b m' stands => ?_
  refine (assignValue_simulates plain_size seg.left.left.right stands).bind fun _ b m' stands => ?_
  refine (assignValue_simulates plain_zero third stands).bind fun _ b m' stands => ?_
  refine (Stands.skipIf (by simp) plain_isEmpty loop (stands.cast ?_) ?_ ?_).mono
    fun done c m'' here => here.cast ?_
  · rfl
  · rintro (_ | _) b m' taken stands
    · refine Stands.whileLoop plain_isBelow loop.right.tail stands fun b m' stands => ?_
      have inner := loop.right.tail.left.right.tail
      have last := inner.right
      rw [List.length_append, ← Nat.add_assoc] at last
      refine (assignValue_simulates plain_element inner.left.left stands).bind fun _ b m' stands => ?_
      refine (bodies _ b m' inner.left.right stands).sequence fun b m' stands => ?_
      refine (assignValue_simulates plain_advance last stands).bind fun _ b m' stands => ?_
      refine .here (stands.cast ?_)
      simp only [List.length_append]
      omega
    · cases taken
  · rintro (_ | _) taken
    · cases taken
    · rfl
  · simp only [List.length_append]
    omega

theorem Otherwise.run_of_emit_none (o : LoweringOptions) (ν : Numbering) (otherwise : Otherwise)
    (nothing : otherwise.emit o ν = none) :
    otherwise.run host calls o.program rounds ν = pure .normal := by
  cases otherwise with
  | nothing => rfl
  | block body => cases nothing
  | branch condition body otherwise => cases nothing

theorem LoweringOptions.emitMark_nil {o : LoweringOptions} (quiet : o.breakpoints = false)
    (ν : Numbering) (lines : Lines) : o.emitMark ν lines = [] := by
  simp [LoweringOptions.emitMark, quiet]

mutual

theorem Stmt.simulates {o : LoweringOptions} (quiet : o.breakpoints = false) (s : Stmt) {ν : Numbering}
    {η : List Handler} {pc : Nat} {a : Activation} {m : Machine} (plain : Plain s.calls)
    (seg : Segment code pc (s.emit o ν)) (stands : Stands host calls m code pc [] η a) :
    Simulates host calls rounds code η m (Completes host calls code (pc + (s.emit o ν).length) η)
      (s.run host calls o.program rounds ν a) := by
  cases s with
  | eval lines value =>
    rw [Stmt.emit, LoweringOptions.emitMark_nil quiet, List.nil_append] at seg ⊢
    rw [Stmt.run]
    refine (value.simulates plain seg.left stands).bind fun v b m' stands => ?_
    obtain ⟨m'', reached, stands⟩ := stands.discard seg.right.head
    refine .of_reaches reached (.here (stands.cast ?_))
    simp
    omega
  | assign lines target value place =>
    rw [Stmt.emit, LoweringOptions.emitMark_nil quiet, List.nil_append] at seg ⊢
    rw [Stmt.run]
    exact (target.simulates plain seg stands).bind fun _ b m' stands => .here stands
  | ret lines value =>
    cases value with
    | none =>
      simp only [Stmt.emit, LoweringOptions.emitMark_nil quiet, List.nil_append] at seg ⊢
      rw [Stmt.run]
      obtain ⟨m', reached, stands⟩ := stands.value seg.head
      exact .of_reaches reached (.here (stands.ret seg.tail.head))
    | some value =>
      simp only [Stmt.emit, LoweringOptions.emitMark_nil quiet, List.nil_append] at seg ⊢
      rw [Stmt.run]
      refine (value.simulates plain seg.left stands).bind fun v b m' stands => ?_
      exact .here (stands.ret seg.right.head)
  | branch line condition body otherwise =>
    rw [Stmt.emit, LoweringOptions.emitMark_nil quiet, List.nil_append] at seg ⊢
    rw [Stmt.run]
    refine Stands.conditional plain.left.left seg stands ?_
      (fun nothing => otherwise.run_of_emit_none o _ nothing) ?_
    · intro there b m' stands
      exact simulatesBlock quiet body plain.left.right there stands
    · intro is same there b m' stands
      exact otherwise.simulates quiet plain.right same there stands
  | whileLoop line condition body =>
    rw [Stmt.emit, LoweringOptions.emitMark_nil quiet, List.nil_append] at seg ⊢
    rw [Stmt.run]
    refine Stands.whileLoop plain.left seg stands fun b m' stands => ?_
    exact simulatesBlock quiet body plain.right seg.left.right.tail stands
  | forLoop place name namePlace items body =>
    rw [Stmt.emit, LoweringOptions.emitMark_nil quiet, List.nil_append] at seg ⊢
    rw [Stmt.run]
    refine Stands.forEach plain.left seg stands fun lo b m' seg stands => ?_
    exact simulatesBlock quiet body plain.right seg stands
  | guarded line body binding handler =>
    rw [Stmt.emit, LoweringOptions.emitMark_nil quiet, List.nil_append] at seg ⊢
    rw [Stmt.run]
    have last := seg.right.tail.tail.tail
    rw [List.length_cons, ← Nat.add_assoc] at last
    refine Stands.guarded seg ?_ ?_ stands
    · intro h b m' stands
      exact simulatesBlock quiet body plain.left seg.left.tail stands
    · intro b m' stands
      exact simulatesBlock quiet handler plain.right (last.cast (by omega)) stands
  | define place name params body =>
    rw [Stmt.emit, LoweringOptions.emitMark_nil quiet, List.nil_append] at seg ⊢
    rw [Stmt.run]
    obtain ⟨m', reached, stands⟩ := stands.value seg.left.head
    obtain ⟨m'', further, stands⟩ := stands.value seg.left.tail.head
    refine .of_reaches (reached.trans further) ?_
    refine (stands.assign seg.right.head).bind fun _ b m' stands => ?_
    exact .here (stands.cast (by simp [Fragment.assign]))

theorem simulatesBlock {o : LoweringOptions} (quiet : o.breakpoints = false) (body : List Stmt)
    {ν : Numbering} {η : List Handler} {pc : Nat} {a : Activation} {m : Machine}
    (plain : Plain (blockCalls body)) (seg : Segment code pc (emitBlock o ν body))
    (stands : Stands host calls m code pc [] η a) :
    Simulates host calls rounds code η m (Completes host calls code (pc + (emitBlock o ν body).length) η)
      (runBlock host calls o.program rounds ν body a) := by
  cases body with
  | nil => exact .here stands
  | cons s rest =>
    rw [emitBlock] at seg ⊢
    rw [runBlock]
    refine (s.simulates quiet plain.left seg.left stands).sequence fun b m' stands => ?_
    refine (simulatesBlock quiet rest plain.right seg.right stands).mono fun done c m'' here => ?_
    exact here.cast (by rw [List.length_append, Nat.add_assoc])

theorem Otherwise.simulates {o : LoweringOptions} (quiet : o.breakpoints = false) (otherwise : Otherwise)
    {ν : Numbering} {η : List Handler} {pc : Nat} {a : Activation} {m : Machine}
    {is : List Instruction} (plain : Plain otherwise.calls) (same : otherwise.emit o ν = some is)
    (seg : Segment code pc is) (stands : Stands host calls m code pc [] η a) :
    Simulates host calls rounds code η m (Completes host calls code (pc + is.length) η)
      (otherwise.run host calls o.program rounds ν a) := by
  cases otherwise with
  | nothing => cases same
  | block body =>
    cases same
    exact simulatesBlock quiet body plain seg stands
  | branch condition body otherwise =>
    cases same
    rw [Otherwise.run]
    refine Stands.conditional plain.left.left seg stands ?_
      (fun nothing => otherwise.run_of_emit_none o _ nothing) ?_
    · intro there b m' stands
      exact simulatesBlock quiet body plain.left.right there stands
    · intro is same there b m' stands
      exact otherwise.simulates quiet plain.right same there stands

end

end ScriptEngine
