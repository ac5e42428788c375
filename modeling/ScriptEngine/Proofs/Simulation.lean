import ScriptEngine.Proofs.Effects
import ScriptEngine.Proofs.Layout
import ScriptEngine.Proofs.Meaning

/-! # Machines that follow trees

What it means that a machine does what a tree means. A machine stands for an activation at an index of a
code, with known operands and open regions; it simulates an evaluation if its run gets to where the
evaluation ends, fails as it fails, or goes on as long. `Simulates.bind` is what sequences of evaluations
come to; the other statements are about single instructions.
-/

namespace ScriptEngine

/-- An error without the text of a broken invariant, which names an index of the list. -/
def ScriptError.untexted : ScriptError → ScriptError
  | internal _ => internal ""
  | e => e

namespace Machine

variable {α β : Type}

/-- The activation that a machine is running. -/
def activation (m : Machine) : Activation :=
  ⟨m.frame.program, m.frame.owner, m.frame.file, m.frame.locals, m.frame.place, m.state⟩

/-- A computation of a machine ends as an evaluation does, with some operands if it does not fail. -/
def Mirrors (m : Machine) (σ : List Value) (x : MachineM α) :
    EStateM.Result (Halt ScriptError) Activation α → Prop
  | .ok v a => ∃ m', x m = .ok v m' ∧ m'.activation = a ∧ m'.frame.stack.items = σ
  | .error (.failed e) a =>
    ∃ e' m', x m = .error (.failed e') m' ∧ e'.untexted = e.untexted ∧ m'.activation = a
  | .error .exhausted _ => ∃ m', x m = .error .exhausted m'

variable {m : Machine} {σ τ : List Value} {x : MachineM α} {f : α → MachineM β} {y : Evaluation α}
  {g : α → Evaluation β}

theorem Mirrors.bind (first : m.Mirrors σ x (y m.activation))
    (rest : ∀ v (m' : Machine), m'.frame.stack.items = σ → m'.Mirrors τ (f v) (g v m'.activation)) :
    m.Mirrors τ (x >>= f) ((y >>= g) m.activation) := by
  cases run : y m.activation with
  | ok v a =>
    rw [run] at first
    obtain ⟨m', ran, rfl, items⟩ := first
    rw [bind_ok run]
    have then_ := rest v m' items
    unfold Mirrors
    rw [bind_ok ran]
    exact then_
  | error halt a =>
    rw [run] at first
    rw [bind_error run]
    cases halt with
    | failed e =>
      obtain ⟨e', m', failed, same, here⟩ := first
      exact ⟨e', m', bind_error failed, same, here⟩
    | exhausted =>
      obtain ⟨m', used⟩ := first
      exact ⟨m', bind_error used⟩

variable (host : Host) (calls : Calls)

theorem moveTo_mirrors (items : m.frame.stack.items = σ) (place : Position) :
    m.Mirrors σ (moveTo place) (Evaluation.moveTo place m.activation) :=
  ⟨m.placed place, rfl, rfl, items⟩

theorem showCall_eq (m : Machine) :
    Evaluation.showCall m.activation = .ok () m.current.activation := by
  change EStateM.Result.ok () (if m.state.control.isObserved = true then _ else _) =
    .ok () (⟨m.frame.program, m.frame.owner, m.frame.file, m.frame.locals, m.frame.place,
      m.refreshed⟩ : Activation)
  unfold refreshed
  split <;> rfl

theorem refreshCall_mirrors (items : m.frame.stack.items = σ) :
    m.Mirrors σ refreshCall (Evaluation.showCall m.activation) := by
  rw [showCall_eq]
  exact ⟨m.current, refreshCall_eq m, rfl, items⟩

theorem onState_mirrors (items : m.frame.stack.items = σ) (x : Exec ScriptError α) :
    m.Mirrors σ (onState x) (Evaluation.waiting σ x m.activation) := by
  have hold : (⟨σ, m.activation.locals.table, m.activation.owner⟩ : Hold) = m.frame.hold := by
    rw [← items]
    rfl
  cases run : x.holding m.frame.hold m.state with
  | ok v state =>
    have here : x.holding m.frame.hold m.activation.state = .ok v state := run
    have waited : Evaluation.waiting σ x m.activation = .ok v { m.activation with state } := by
      rw [Evaluation.waiting, hold, here]
    rw [waited]
    exact ⟨⟨m.frame, state⟩, onState_eq_ok_iff.mpr ⟨state, run, rfl⟩, rfl, items⟩
  | error halt state =>
    have here : x.holding m.frame.hold m.activation.state = .error halt state := run
    have waited : Evaluation.waiting σ x m.activation =
        .error halt { m.activation with state } := by
      rw [Evaluation.waiting, hold, here]
    rw [waited]
    cases halt with
    | failed e =>
      exact ⟨e, ⟨m.frame, state⟩, onState_eq_error_iff.mpr ⟨state, run, rfl⟩, rfl, rfl⟩
    | exhausted => exact ⟨⟨m.frame, state⟩, onState_eq_error_iff.mpr ⟨state, run, rfl⟩⟩

theorem located_mirrors (items : m.frame.stack.items = σ) (x : Exec RuntimeError α) :
    m.Mirrors σ (located x) (Evaluation.located σ x m.activation) :=
  onState_mirrors items (x.mapError m.frame.site.locate)

theorem memberName_mirrors (items : m.frame.stack.items = σ) (args : Arguments) :
    m.Mirrors σ (memberName args) (Evaluation.memberName args m.activation) := by
  unfold Evaluation.memberName
  have reads := memberName_eq m args
  cases found : args.value? 0 with
  | none =>
    rw [found] at reads
    exact ⟨_, m, reads, rfl, rfl⟩
  | some v =>
    rw [found] at reads
    cases v with
    | string name => exact ⟨m, reads, rfl, items⟩
    | _ => exact ⟨_, m, reads, rfl, rfl⟩

theorem pure_mirrors (items : m.frame.stack.items = σ) (v : α) :
    m.Mirrors σ (pure v) ((pure v : Evaluation α) m.activation) :=
  ⟨m, rfl, rfl, items⟩

theorem evaluation_sendTo_other {receiver : Value} {name : String} {args : Arguments}
    (notGet : name ≠ "getMember") (notSet : name ≠ "setMember") :
    Evaluation.sendTo host calls σ receiver name args = (do
      Evaluation.showCall
      let a ← get
      Evaluation.waiting σ (Invoke.send host calls a.frame.site receiver name args)) := by
  unfold Evaluation.sendTo
  split
  · exact absurd rfl notGet
  · exact absurd rfl notSet
  · rfl

theorem sendTo_mirrors (items : m.frame.stack.items = σ) (receiver : Value) (name : String)
    (args : Arguments) :
    m.Mirrors σ (sendTo host calls receiver name args)
      (Evaluation.sendTo host calls σ receiver name args m.activation) := by
  by_cases reads : name = "getMember"
  · subst reads
    refine (memberName_mirrors items args).bind fun name m' items => ?_
    exact located_mirrors items _
  by_cases writes : name = "setMember"
  · subst writes
    refine (memberName_mirrors items args).bind fun name m' items => ?_
    refine (located_mirrors items _).bind fun _ m'' items => ?_
    exact pure_mirrors items _
  rw [sendTo_other host calls reads writes, evaluation_sendTo_other host calls reads writes]
  refine (refreshCall_mirrors items).bind fun _ m' items => ?_
  exact onState_mirrors items _

/-- The value that an instruction pushes, for those that push one. -/
def produce : Instruction → Option (MachineM Value)
  | .value v => some (pure v)
  | .load name place => some do
    moveTo place
    let f ← readFrame id
    located (Name.load host calls f name)
  | .call site =>
    if site.name = "set" then none
    else some do
      moveTo site.place
      let args ← popArguments site
      refreshCall
      let f ← readFrame id
      onState (Name.call host calls f site.name args)
  | .send site => some do
    moveTo site.place
    let args ← popArguments site
    let receiver ← pop
    sendTo host calls receiver site.name args
  | _ => none

theorem sendNamed_eq (site : CallSite) :
    sendNamed host calls site = moveTo site.place >>= fun _ => popArguments site >>= fun args =>
      pop >>= fun receiver => sendTo host calls receiver site.name args >>= push := by
  unfold sendNamed
  refine congrArg _ (funext fun _ => congrArg _ (funext fun args => congrArg _ (funext fun receiver => ?_)))
  generalize site.name = name
  unfold sendTo
  split
  all_goals
    simp only [bind_assoc, pure_bind]

theorem step_produce {i : Instruction} {x : MachineM Value} (produces : produce host calls i = some x) :
    step host calls i = x >>= fun v => push v >>= fun _ => pure .next := by
  cases i with
  | value v =>
    cases produces
    rfl
  | load name place =>
    cases produces
    simp only [bind_assoc]
    rfl
  | call site =>
    by_cases named : site.name = "set"
    · simp [produce, named] at produces
    · simp only [produce, named, if_false, Option.some.injEq] at produces
      subst produces
      simp only [step, callNamed, named, if_false, bind_assoc]
  | send site =>
    cases produces
    simp only [step, sendNamed_eq, bind_assoc]
  | _ => cases produces

/-- What the trees do not see: a computation that only moves operands. -/
theorem Mirrors.after {m' : Machine} {v : α} {r : EStateM.Result (Halt ScriptError) Activation β}
    (ran : x m = .ok v m') (rest : m'.Mirrors τ (f v) r) : m.Mirrors τ (x >>= f) r := by
  unfold Mirrors
  rw [bind_ok ran]
  exact rest

theorem popArguments_ok {site : CallSite} {values : List Value}
    (items : m.frame.stack.items = values.reverse ++ σ) (count : values.length = site.argc) :
    popArguments site m = .ok (Evaluation.arguments site values) (m.dropped site.argc) ∧
      (m.dropped site.argc).frame.stack.items = σ := by
  have height : m.frame.stack.height = site.argc + σ.length := by
    rw [m.frame.stack.height_eq, items, List.length_append, List.length_reverse, count]
  have latest : m.frame.stack.latest site.argc = values := by
    rw [Stack.latest, items, ← count, ← List.length_reverse, List.take_left, List.reverse_reverse]
  constructor
  · rw [popArguments_eq, if_neg (by omega), latest]
    rfl
  · change m.frame.stack.items.drop site.argc = σ
    rw [items, ← count, ← List.length_reverse, List.drop_left]

theorem pop_ok {v : Value} (items : m.frame.stack.items = v :: σ) :
    pop m = .ok v (m.dropped 1) ∧ (m.dropped 1).frame.stack.items = σ := by
  constructor
  · rw [pop_eq, Stack.pop?, Stack.top?, items]
    rfl
  · change m.frame.stack.items.drop 1 = σ
    rw [items]
    rfl

theorem load_mirrors (items : m.frame.stack.items = σ) (name : String) (place : Position) :
    m.Mirrors σ (moveTo place >>= fun _ => readFrame id >>= fun f =>
      located (Name.load host calls f name)) (Evaluation.load host calls σ name place m.activation) := by
  refine (moveTo_mirrors items place).bind fun _ m' items => ?_
  exact located_mirrors items _

theorem call_mirrors {site : CallSite} {values : List Value}
    (items : m.frame.stack.items = values.reverse ++ σ) (count : values.length = site.argc) :
    m.Mirrors σ (moveTo site.place >>= fun _ => popArguments site >>= fun args =>
        refreshCall >>= fun _ => readFrame id >>= fun f =>
          onState (Name.call host calls f site.name args))
      (Evaluation.call host calls σ site values m.activation) := by
  refine (moveTo_mirrors items site.place).bind fun _ m' items => ?_
  obtain ⟨popped, rest⟩ := popArguments_ok items count
  refine .after popped ?_
  refine (refreshCall_mirrors rest).bind fun _ m'' items => ?_
  exact onState_mirrors items _

theorem send_mirrors {site : CallSite} {receiver : Value} {values : List Value}
    (items : m.frame.stack.items = values.reverse ++ receiver :: σ)
    (count : values.length = site.argc) :
    m.Mirrors σ (moveTo site.place >>= fun _ => popArguments site >>= fun args =>
        pop >>= fun receiver => sendTo host calls receiver site.name args)
      (Evaluation.send host calls σ site receiver values m.activation) := by
  refine (moveTo_mirrors items site.place).bind fun _ m' items => ?_
  obtain ⟨popped, rest⟩ := popArguments_ok items count
  obtain ⟨took, rest⟩ := pop_ok rest
  refine .after popped (.after took ?_)
  exact sendTo_mirrors host calls rest _ _ _

/-- A machine is about to push a value for which there is no room: the one that its instruction has computed,
or the message of an error that a handler is going to take. -/
def Overflows (m : Machine) : Prop :=
  (∃ i x v m₁, m.frame.procedure.code[m.frame.pc]? = some i ∧ produce host calls i = some x ∧
    x m = .ok v m₁ ∧ m₁.frame.maxStack ≤ m₁.frame.stack.height) ∨
  ∃ i e m₁ h outer, m.frame.procedure.code[m.frame.pc]? = some i ∧
    step host calls i m = .error (.failed (.runtime e)) m₁ ∧ m₁.frame.handlers = h :: outer ∧
    m₁.frame.maxStack ≤ (m₁.unwind h outer).frame.stack.height

/-- The operand stack does not overflow in the run of a machine. -/
def Roomy (m : Machine) : Prop := ∀ m', Reaches host calls m m' → ¬ Overflows host calls m'

/-- A machine stands at an index of a code, with some operands, top first, and some open regions, and
otherwise is where an activation is. -/
structure Stands (m : Machine) (code : Array Instruction) (pc : Nat) (σ : List Value)
    (η : List Handler) (a : Activation) : Prop where
  code : m.frame.procedure.code = code
  pc : m.frame.pc = pc
  stack : m.frame.stack.items = σ
  handlers : m.frame.handlers = η
  activation : m.activation = a
  roomy : Roomy host calls m

/-- The run of a machine goes on for so many turns, or a nested run uses up its bound. -/
def Spins (rounds : Nat) (m : Machine) : Prop :=
  (∃ n m', rounds ≤ n ∧ ReachesIn host calls n m m') ∨
    ∃ m' m'', Reaches host calls m m' ∧ turn host calls m' = .inr (.error .exhausted m'')

/-- The run of a machine gets to an instruction that fails with a run-time error. -/
def Raises (m : Machine) (code : Array Instruction) (e : LocatedError) (η : List Handler)
    (a : Activation) : Prop :=
  ∃ m₁ i m₂, Reaches host calls m m₁ ∧ m₁.frame.procedure.code = code ∧
    code[m₁.frame.pc]? = some i ∧ step host calls i m₁ = .error (.failed (.runtime e)) m₂ ∧
    m₁.frame.handlers = η ∧ m₂.activation = a ∧ Roomy host calls m₁

/-- The run of a machine ends, perhaps with more open regions than there are outside. -/
def Ends (m : Machine) (result : Except ScriptError Value) (η : List Handler) (a : Activation) :
    Prop :=
  ∃ m₁ m₂ inner, Reaches host calls m m₁ ∧
    (match result with
      | .ok v => turn host calls m₁ = .inr (.ok v m₂)
      | .error e => ∃ e', e'.untexted = e.untexted ∧ turn host calls m₁ = .inr (.error (.failed e') m₂)) ∧
    m₂.frame.handlers = inner ++ η ∧ m₂.activation.leaveTries inner.length = a

/-- The run of a machine does what an evaluation does, and gets to a machine that is as it should be if the
evaluation does not fail. -/
def Simulates (rounds : Nat) (code : Array Instruction) (η : List Handler) (m : Machine)
    (post : α → Activation → Machine → Prop) :
    EStateM.Result (Halt ScriptError) Activation α → Prop
  | .ok v a => ∃ m', Reaches host calls m m' ∧ post v a m'
  | .error (.failed (.runtime e)) a => Raises host calls m code e η a
  | .error (.failed e) a => Ends host calls m (.error e) η a
  | .error .exhausted _ => Spins host calls rounds m

variable {host calls} {rounds : Nat} {code : Array Instruction} {η : List Handler} {a : Activation}
  {m' : Machine} {pc : Nat}

theorem Roomy.of_reaches (roomy : Roomy host calls m) (reached : Reaches host calls m m') :
    Roomy host calls m' :=
  fun m'' further => roomy m'' (reached.trans further)

theorem Spins.of_reaches (reached : Reaches host calls m m') (spins : Spins host calls rounds m') :
    Spins host calls rounds m := by
  rcases spins with ⟨n, m'', enough, further⟩ | ⟨m₁, m₂, further, used⟩
  · obtain ⟨k, reached⟩ := reached
    exact .inl ⟨k + n, m'', by omega, reached.trans further⟩
  · exact .inr ⟨m₁, m₂, reached.trans further, used⟩

theorem Raises.of_reaches {e : LocatedError} (reached : Reaches host calls m m')
    (raises : Raises host calls m' code e η a) : Raises host calls m code e η a := by
  obtain ⟨m₁, i, m₂, further, rest⟩ := raises
  exact ⟨m₁, i, m₂, reached.trans further, rest⟩

theorem Ends.of_reaches {result : Except ScriptError Value} (reached : Reaches host calls m m')
    (ends : Ends host calls m' result η a) : Ends host calls m result η a := by
  obtain ⟨m₁, m₂, inner, further, rest⟩ := ends
  exact ⟨m₁, m₂, inner, reached.trans further, rest⟩

variable {post : α → Activation → Machine → Prop} {post' : β → Activation → Machine → Prop}
  {r : EStateM.Result (Halt ScriptError) Activation α}

theorem Simulates.of_reaches (reached : Reaches host calls m m')
    (simulates : Simulates host calls rounds code η m' post r) :
    Simulates host calls rounds code η m post r := by
  rcases r with ⟨v, b⟩ | ⟨halt, b⟩
  · obtain ⟨m₁, further, here⟩ := simulates
    exact ⟨m₁, reached.trans further, here⟩
  · cases halt with
    | exhausted => exact Spins.of_reaches reached simulates
    | failed e =>
      cases e with
      | runtime e => exact Raises.of_reaches reached simulates
      | _ =>
        have ends : Ends host calls m' (.error _) η b := simulates
        exact ends.of_reaches reached

theorem Simulates.bind (first : Simulates host calls rounds code η m post (y a))
    (rest : ∀ v b m', post v b m' → Simulates host calls rounds code η m' post' (g v b)) :
    Simulates host calls rounds code η m post' ((y >>= g) a) := by
  cases run : y a with
  | ok v b =>
    rw [run] at first
    obtain ⟨m', reached, here⟩ := first
    rw [bind_ok run]
    exact (rest v b m' here).of_reaches reached
  | error halt b =>
    rw [run] at first
    rw [bind_error run]
    cases halt with
    | exhausted => exact first
    | failed e => cases e <;> exact first

/-- What an evaluation that does not fail leaves to simulate. -/
theorem Simulates.here {v : α} (here : post v a m) :
    Simulates host calls rounds code η m post (.ok v a) :=
  ⟨m, .refl m, here⟩

/-- An instruction that goes on to the next one. -/
theorem Stands.onward {i : Instruction} (stands : Stands host calls m code pc σ η a)
    (found : code[pc]? = some i) (run : step host calls i m = .ok .next m') :
    Reaches host calls m (m'.jumped (pc + 1)) ∧ m'.frame.procedure.code = code ∧
      Guarded i m.frame m'.frame := by
  have effect := step_effect run
  have here : m.frame.procedure.code[m.frame.pc]? = some i := by
    rw [stands.code, stands.pc]
    exact found
  cases effect with
  | next _ same _ _ regions =>
    refine ⟨(Reaches.refl m).snoc ?_, ?_, regions⟩
    · unfold turn
      rw [here]
      dsimp only
      rw [run]
      dsimp only [jumped]
      rw [same.pc, stands.pc]
    · rw [same.procedure]
      exact stands.code

theorem Stands.jump {i : Instruction} {target : Nat} (stands : Stands host calls m code pc σ η a)
    (found : code[pc]? = some i) (run : step host calls i m = .ok (.jump target) m') :
    Reaches host calls m (m'.jumped target) ∧ m'.frame.procedure.code = code := by
  have effect := step_effect run
  have here : m.frame.procedure.code[m.frame.pc]? = some i := by
    rw [stands.code, stands.pc]
    exact found
  cases effect with
  | jump _ _ same =>
    constructor
    · refine (Reaches.refl m).snoc ?_
      unfold turn
      rw [here]
      dsimp only
      rw [run]
      rfl
    · rw [same.procedure]
      exact stands.code

/-- An instruction that fails as an evaluation does. -/
theorem Stands.fails {i : Instruction} {e e' : ScriptError} {b : Activation}
    (stands : Stands host calls m code pc σ η a) (found : code[pc]? = some i)
    (run : step host calls i m = .error (.failed e') m') (same : e'.untexted = e.untexted)
    (arrives : m'.activation = b) :
    Simulates host calls rounds code η m post (.error (.failed e) b) := by
  have here : m.frame.procedure.code[m.frame.pc]? = some i := by
    rw [stands.code, stands.pc]
    exact found
  have fatal (unrecoverable : e'.isRecoverable = false) : Ends host calls m (.error e) η b := by
    refine ⟨m, m', [], .refl m, ⟨e', same, ?_⟩, ?_, arrives⟩
    · unfold turn
      rw [here]
      dsimp only
      rw [run]
      dsimp only
      rw [recover_other m' unrecoverable]
    · rw [List.nil_append, (step_failed run).regions]
      exact stands.handlers
  cases e with
  | runtime e =>
    cases e' with
    | runtime located =>
      cases same
      refine ⟨m, i, m', .refl m, stands.code, ?_, run, stands.handlers, arrives, stands.roomy⟩
      rw [stands.pc]
      exact found
    | _ => cases same
  | _ =>
    refine fatal ?_
    cases e' with
    | runtime located => cases same
    | _ => rfl

theorem Stands.exhausts {i : Instruction} {b : Activation} (stands : Stands host calls m code pc σ η a)
    (found : code[pc]? = some i) (run : step host calls i m = .error .exhausted m') :
    Simulates host calls rounds code η m post (.error .exhausted b) := by
  refine .inr ⟨m, m', .refl m, ?_⟩
  unfold turn
  rw [stands.code, stands.pc, found]
  dsimp only
  rw [run]

theorem guarded_produce {i : Instruction} {x : MachineM Value} {f f' : Frame}
    (produces : produce host calls i = some x) (regions : Guarded i f f') :
    f'.handlers = f.handlers := by
  cases i with
  | enterTry offset => cases produces
  | leaveTry => cases produces
  | _ => exact regions

/-- An instruction that pushes what an evaluation computes. -/
theorem Stands.pushes {i : Instruction} {x : MachineM Value}
    {r : EStateM.Result (Halt ScriptError) Activation Value}
    (stands : Stands host calls m code pc τ η a) (found : code[pc]? = some i)
    (produces : produce host calls i = some x) (mirrors : m.Mirrors σ x r) :
    Simulates host calls rounds code η m
      (fun v b m' => Stands host calls m' code (pc + 1) (v :: σ) η b) r := by
  have run := congrFun (step_produce host calls produces) m
  rcases r with ⟨v, b⟩ | ⟨halt, b⟩
  · obtain ⟨m₁, computed, arrives, items⟩ := mirrors
    have room : ¬ m₁.frame.stack.height ≥ m₁.frame.maxStack := by
      intro full
      refine stands.roomy m (.refl m) (.inl ⟨i, x, v, m₁, ?_, produces, computed, full⟩)
      rw [stands.code, stands.pc]
      exact found
    have pushed : push v m₁ = .ok () (m₁.pushed v) := by
      rw [push_eq]
      exact if_neg room
    have run : step host calls i m = .ok .next (m₁.pushed v) := by
      rw [run, bind_ok computed]
      exact bind_ok pushed
    obtain ⟨reached, kept, regions⟩ := stands.onward found run
    have handlers : m₁.frame.handlers = η := by
      rw [← stands.handlers]
      exact guarded_produce produces regions
    refine ⟨_, reached, kept, rfl, ?_, handlers, arrives, stands.roomy.of_reaches reached⟩
    change v :: m₁.frame.stack.items = v :: σ
    rw [items]
  · cases halt with
    | failed e =>
      obtain ⟨e', m₁, failed, same, arrives⟩ := mirrors
      refine stands.fails found ?_ same arrives
      rw [run]
      exact bind_error failed
    | exhausted =>
      obtain ⟨m₁, used⟩ := mirrors
      have exhausted : step host calls i m = .error .exhausted m₁ := by
        rw [run]
        exact bind_error used
      exact stands.exhausts found exhausted

theorem Stands.value {v : Value} (stands : Stands host calls m code pc σ η a)
    (found : code[pc]? = some (.value v)) :
    ∃ m', Reaches host calls m m' ∧ Stands host calls m' code (pc + 1) (v :: σ) η a := by
  have mirrors : m.Mirrors σ (pure v) ((pure v : Evaluation Value) m.activation) :=
    pure_mirrors stands.stack v
  rw [stands.activation] at mirrors
  have whole : Simulates host calls 0 code η m _ (.ok v a) := stands.pushes found rfl mirrors
  exact whole

theorem Stands.load {name : String} {place : Position} (stands : Stands host calls m code pc σ η a)
    (found : code[pc]? = some (.load name place)) :
    Simulates host calls rounds code η m
      (fun v b m' => Stands host calls m' code (pc + 1) (v :: σ) η b)
      (Evaluation.load host calls σ name place a) := by
  have mirrors := load_mirrors host calls stands.stack name place
  rw [stands.activation] at mirrors
  exact stands.pushes found rfl mirrors

theorem Stands.call {site : CallSite} (values : List Value)
    (stands : Stands host calls m code pc (values.reverse ++ σ) η a)
    (found : code[pc]? = some (.call site)) (named : site.name ≠ "set")
    (count : values.length = site.argc) :
    Simulates host calls rounds code η m
      (fun v b m' => Stands host calls m' code (pc + 1) (v :: σ) η b)
      (Evaluation.call host calls σ site values a) := by
  have mirrors := call_mirrors host calls stands.stack count
  rw [stands.activation] at mirrors
  exact stands.pushes found (if_neg named) mirrors

theorem Stands.send {site : CallSite} {receiver : Value} (values : List Value)
    (stands : Stands host calls m code pc (values.reverse ++ receiver :: σ) η a)
    (found : code[pc]? = some (.send site)) (count : values.length = site.argc) :
    Simulates host calls rounds code η m
      (fun v b m' => Stands host calls m' code (pc + 1) (v :: σ) η b)
      (Evaluation.send host calls σ site receiver values a) := by
  have mirrors := send_mirrors host calls stands.stack count
  rw [stands.activation] at mirrors
  exact stands.pushes found rfl mirrors

theorem Stands.found_here {i : Instruction} (stands : Stands host calls m code pc σ η a)
    (found : code[pc]? = some i) : m.frame.procedure.code[m.frame.pc]? = some i := by
  rw [stands.code, stands.pc]
  exact found

/-- An instruction that goes on to the next one, whatever it does to the machine. -/
theorem Stands.moves {i : Instruction} (stands : Stands host calls m code pc σ η a)
    (found : code[pc]? = some i) (run : step host calls i m = .ok .next m') :
    ∃ m'', Reaches host calls m m'' ∧ Stands host calls m'' code (pc + 1) m'.frame.stack.items
      m'.frame.handlers m'.activation := by
  obtain ⟨reached, kept, _⟩ := stands.onward found run
  exact ⟨_, reached, kept, rfl, rfl, rfl, rfl, stands.roomy.of_reaches reached⟩

theorem Stands.discard {v : Value} (stands : Stands host calls m code pc (v :: σ) η a)
    (found : code[pc]? = some .discard) :
    ∃ m', Reaches host calls m m' ∧ Stands host calls m' code (pc + 1) σ η a := by
  obtain ⟨popped, rest⟩ := pop_ok stands.stack
  obtain ⟨m', reached, there⟩ := stands.moves found (bind_ok popped)
  rw [rest] at there
  exact ⟨m', reached, there.code, there.pc, there.stack, there.handlers.trans stands.handlers,
    there.activation.trans stands.activation, there.roomy⟩

theorem Stands.goto {offset : Offset} {target : Nat} (stands : Stands host calls m code pc σ η a)
    (found : code[pc]? = some (.branch .always offset))
    (lands : landing? pc offset code.size = some (.index target)) :
    ∃ m', turn host calls m = .inl m' ∧ Stands host calls m' code target σ η a := by
  have run : step host calls (.branch .always offset) m = .ok (.jump target) m := by
    change branch .always offset m = _
    rw [branch_eq, decides_always]
    dsimp only
    unfold land
    rw [stands.pc, stands.code, lands]
  have jumps : turn host calls m = .inl (m.jumped target) := by
    unfold turn
    rw [stands.found_here found]
    dsimp only
    rw [run]
    rfl
  have reached : Reaches host calls m (m.jumped target) := (Reaches.refl m).snoc jumps
  exact ⟨_, jumps, stands.code, rfl, stands.stack, stands.handlers, stands.activation,
    stands.roomy.of_reaches reached⟩

theorem Stands.ret {v : Value} (stands : Stands host calls m code pc (v :: σ) η a)
    (found : code[pc]? = some (.branch .always .exit)) : Ends host calls m (.ok v) η a := by
  refine ⟨m, m, [], .refl m, ?_, stands.handlers, stands.activation⟩
  dsimp only
  unfold turn
  rw [stands.found_here found]
  dsimp only
  have run : step host calls (.branch .always .exit) m = .ok (.leave v) m := by
    change branch .always .exit m = _
    rw [branch_eq, decides_always]
    dsimp only
    unfold land
    rw [landing?, Stack.top?, stands.stack]
    rfl
  rw [run]

theorem Stands.enterTry {offset : Offset} {target : Nat} (stands : Stands host calls m code pc [] η a)
    (found : code[pc]? = some (.enterTry offset))
    (lands : landing? pc offset code.size = some (.index target)) :
    ∃ m', Reaches host calls m m' ∧
      Stands host calls m' code (pc + 1) [] (⟨target, 0⟩ :: η) a.enterTry := by
  rcases m.enterTry_cases offset with ⟨t, there, opened⟩ | ⟨none, _⟩
  · rw [stands.pc, stands.code, lands] at there
    cases there
    obtain ⟨m', reached, after⟩ := stands.moves found (bind_ok opened)
    have height : m.frame.stack.height = 0 := by
      rw [m.frame.stack.height_eq, stands.stack]
      rfl
    refine ⟨m', reached, after.code, after.pc, after.stack.trans stands.stack, ?_, ?_, after.roomy⟩
    · rw [after.handlers, ← stands.handlers, ← height]
    · rw [after.activation, ← stands.activation]
      rfl
  · refine absurd ?_ (none target)
    rw [stands.pc, stands.code]
    exact lands

theorem Stands.leaveTry {h : Handler} (stands : Stands host calls m code pc σ (h :: η) a)
    (found : code[pc]? = some .leaveTry) :
    ∃ m', Reaches host calls m m' ∧ Stands host calls m' code (pc + 1) σ η (a.leaveTries 1) := by
  have left := m.leaveTry_eq
  rw [stands.handlers] at left
  obtain ⟨m', reached, after⟩ := stands.moves found (bind_ok left)
  refine ⟨m', reached, after.code, after.pc, after.stack.trans stands.stack, after.handlers, ?_,
    after.roomy⟩
  rw [after.activation, ← stands.activation]
  rfl

/-- An error that is raised in a guarded region goes on in its handler. -/
theorem Raises.handled {e : LocatedError} {target : Nat}
    (raises : Raises host calls m code e (⟨target, 0⟩ :: η) a) :
    ∃ m', Reaches host calls m m' ∧
      Stands host calls m' code target [.string e.message] η (a.leaveTries 1) := by
  obtain ⟨m₁, i, m₂, reached, here, found, run, handlers, arrives, roomy⟩ := raises
  have failed := step_failed run
  have regions : m₂.frame.handlers = ⟨target, 0⟩ :: η := failed.regions.trans handlers
  rw [← here] at found
  have room : ¬ (m₂.unwind ⟨target, 0⟩ η).frame.stack.height ≥ m₂.frame.maxStack := fun full =>
    roomy m₁ (.refl m₁) (.inr ⟨i, e, m₂, _, η, found, run, regions, full⟩)
  have caught : turn host calls m₁ =
      .inl (((m₂.unwind ⟨target, 0⟩ η).pushed (.string e.message)).jumped target) := by
    unfold turn
    rw [found]
    dsimp only
    rw [run]
    dsimp only
    rw [recover_handler m₂ regions, if_neg room]
  have reached := reached.snoc caught
  refine ⟨_, reached, ?_, rfl, ?_, rfl, ?_, ?_⟩
  · exact (congrArg Procedure.code failed.same.procedure).trans here
  · change .string e.message :: m₂.frame.stack.items.drop (m₂.frame.stack.height - 0) = _
    rw [m₂.frame.stack.height_eq, Nat.sub_zero, List.drop_length]
  · rw [← arrives]
    rfl
  · exact roomy.of_reaches ((Reaches.refl m₁).snoc caught)

/-- What assigning does to a frame and the store shows in the activation alone. -/
theorem assign_activation (m : Machine) (name : String) (v : Value) :
    (m.activation.frame.assign m.state.store name v).1.locals =
        (m.frame.assign m.state.store name v).1.locals ∧
      (m.activation.frame.assign m.state.store name v).2 =
        (m.frame.assign m.state.store name v).2 := by
  obtain ⟨⟨procedure, owner, program, file, locals, stack, handlers, pc, place, maxStack⟩, state⟩ := m
  simp only [activation, Activation.frame, Frame.assign, Frame.staticOwner?]
  cases locals with
  | topLevel hidden =>
    dsimp only
    split
    · exact ⟨rfl, rfl⟩
    · split <;> exact ⟨rfl, rfl⟩
  | procedure table =>
    dsimp only
    split
    · exact ⟨rfl, rfl⟩
    · split
      · exact ⟨rfl, rfl⟩
      · by_cases known : (state.store.program program).members.contains name = true <;> simp [known]

theorem assign_mirrors (items : m.frame.stack.items = σ) (name : String) (v : Value) :
    m.Mirrors σ (assign name v) (Evaluation.assign name v m.activation) := by
  obtain ⟨locals, kept⟩ := m.frame.assign_eq m.state.store name v
  obtain ⟨same, stored⟩ := m.assign_activation name v
  refine ⟨_, assign_eq m name v, ?_, ?_⟩
  · change Activation.mk _ _ _ _ _ _ = Activation.mk _ _ _
      (m.activation.frame.assign m.state.store name v).1.locals _
      { m.state with store := (m.activation.frame.assign m.state.store name v).2 }
    rw [same, stored, kept]
    rfl
  · change (m.frame.assign m.state.store name v).1.stack.items = σ
    rw [kept]
    exact items

/-- An instruction that only moves operands, assigns, and goes on. -/
theorem Stands.runs {i : Instruction} {x : MachineM Unit}
    {r : EStateM.Result (Halt ScriptError) Activation Unit}
    (stands : Stands host calls m code pc τ η a) (found : code[pc]? = some i)
    (does : step host calls i = x >>= fun _ => pure .next) (plain : i ≠ .leaveTry)
    (closed : ∀ offset, i ≠ .enterTry offset) (mirrors : m.Mirrors σ x r) :
    Simulates host calls rounds code η m (fun _ b m' => Stands host calls m' code (pc + 1) σ η b)
      r := by
  have run := congrFun does m
  rcases r with ⟨u, b⟩ | ⟨halt, b⟩
  · obtain ⟨m₁, computed, arrives, items⟩ := mirrors
    rw [bind_ok computed] at run
    obtain ⟨reached, kept, regions⟩ := stands.onward found run
    have handlers : m₁.frame.handlers = η := by
      rw [← stands.handlers]
      cases i with
      | leaveTry => exact absurd rfl plain
      | enterTry offset => exact absurd rfl (closed offset)
      | _ => exact regions
    exact ⟨_, reached, kept, rfl, items, handlers, arrives, stands.roomy.of_reaches reached⟩
  · cases halt with
    | failed e =>
      obtain ⟨e', m₁, failed, same, arrives⟩ := mirrors
      rw [bind_error failed] at run
      exact stands.fails found run same arrives
    | exhausted =>
      obtain ⟨m₁, used⟩ := mirrors
      rw [bind_error used] at run
      exact stands.exhausts found run

theorem Stands.caught {binding : Option String} {message : String}
    (stands : Stands host calls m code pc (.string message :: σ) η a)
    (found : code[pc]? = some (.caught binding)) :
    Simulates host calls rounds code η m (fun _ b m' => Stands host calls m' code (pc + 1) σ η b)
      (Evaluation.takeMessage binding message a) := by
  refine stands.runs found rfl (by simp) (by simp) ?_
  rw [← stands.activation]
  obtain ⟨popped, rest⟩ := pop_ok stands.stack
  refine .after popped ?_
  cases binding with
  | none => exact pure_mirrors rest ()
  | some name => exact assign_mirrors rest name (.string message)

theorem Stands.assign {name : String} {v : Value} {place : Position}
    (stands : Stands host calls m code pc (v :: .string name :: σ) η a)
    (found : code[pc]? = some (.call (.positional "set" 2 place))) :
    Simulates host calls rounds code η m
      (fun _ b m' => Stands host calls m' code (pc + 1) σ η b)
      (Evaluation.assignAt name v place a) := by
  refine stands.runs found rfl (by simp) (by simp) ?_
  rw [← stands.activation]
  unfold callNamed
  refine (moveTo_mirrors stands.stack place).bind fun _ m' items => ?_
  have count : [Value.string name, v].length = (CallSite.positional "set" 2 place).argc := by simp
  obtain ⟨popped, rest⟩ := popArguments_ok items count
  refine .after popped ?_
  exact assign_mirrors rest name v

/-- The machine after a branch that asked for a condition. -/
theorem Stands.test {kind : BranchKind} {offset : Offset} {target : Nat} {v : Value}
    (stands : Stands host calls m code pc (v :: σ) η a)
    (found : code[pc]? = some (.branch kind offset)) (conditional : kind ≠ .always)
    (lands : landing? pc offset code.size = some (.index target)) :
    Simulates host calls rounds code η m
      (fun b a' m' => Stands host calls m'
        code (if b == (kind == .ifTrue) then target else pc + 1) σ η a')
      (Evaluation.truth v a) := by
  have top : m.frame.stack.top? = some v := by
    rw [Stack.top?, stands.stack]
    rfl
  obtain ⟨_, rest⟩ := pop_ok stands.stack
  rcases m.decides_cases conditional with
    ⟨b, holds, decided⟩ | ⟨w, e, here, other, rfl, failed⟩ | ⟨empty, _⟩
  · obtain rfl : v = .bool b := Option.some.inj (top.symm.trans holds)
    have branched := branch_eq m kind offset
    rw [decided] at branched
    cases taken : b == (kind == .ifTrue) with
    | true =>
      have run : step host calls (.branch kind offset) m = .ok (.jump target) (m.dropped 1) := by
        change branch kind offset m = _
        rw [branched, taken]
        refine (m.dropped 1).land_index ?_
        change landing? m.frame.pc offset m.frame.procedure.code.size = _
        rw [stands.pc, stands.code, lands]
      obtain ⟨reached, kept⟩ := stands.jump found run
      refine ⟨_, reached, kept, ?_, rest, stands.handlers, stands.activation,
        stands.roomy.of_reaches reached⟩
      rw [if_pos taken]
      rfl
    | false =>
      have run : step host calls (.branch kind offset) m = .ok .next (m.dropped 1) := by
        change branch kind offset m = _
        rw [branched, taken]
      obtain ⟨reached, kept, _⟩ := stands.onward found run
      refine ⟨_, reached, kept, ?_, rest, stands.handlers, stands.activation,
        stands.roomy.of_reaches reached⟩
      rw [if_neg (by simp [taken])]
      rfl
  · obtain rfl : v = w := Option.some.inj (top.symm.trans here)
    have branched := branch_eq m kind offset
    rw [failed] at branched
    have raised : Evaluation.truth v a = .error (.failed (m.frame.locate (.typeMismatch "condition"
        "bool" (m.state.store.typeName v)))) a := by
      rw [← stands.activation]
      cases v with
      | bool b => cases other
      | _ => rfl
    rw [raised]
    exact stands.fails found branched rfl stands.activation
  · rw [m.frame.stack.height_eq, stands.stack] at empty
    cases empty

end Machine

end ScriptEngine
