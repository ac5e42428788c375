import ScriptEngine.Proofs.Simulation
import ScriptEngine.Proofs.Privacy

/-! # Stretches of a run

What the turns of a frame come to that load its variables, send to values that answer for themselves, assign hidden
names and branch: the store stays as it is, and the operands and the variables change in a known way. A contract says so
of a stretch of the code for all machines that come to it, and contracts in sequence are one contract.
-/

namespace ScriptEngine

theorem Segment.get {code : Array Instruction} {lo k : Nat} {i : Instruction} {is : List Instruction}
    (seg : Segment code lo is) (found : is[k]? = some i) : code[lo + k]? = some i := by
  obtain ⟨before, after, same, here⟩ := seg
  have inside := (List.getElem?_eq_some_iff.mp found).1
  rw [← Array.getElem?_toList, same, List.append_assoc, List.getElem?_append_right (by omega), ← here,
    Nat.add_sub_cancel_left, List.getElem?_append_left inside]
  exact found

/-- A relative branch leads as far as it says. -/
theorem landing?_exact {source target size : Nat} {n : Int}
    (lands : landing? source (.relative n) size = some (.index target)) : (target : Int) = source + n := by
  unfold landing? at lands
  dsimp only at lands
  split at lands
  · cases lands
    omega
  · cases lands

/-- The variables with one of them written, whatever its name is. -/
def Locals.put (own : Locals) (name : String) (v : Value) : Locals :=
  match own with
  | .procedure table => .procedure (table.set name v)
  | .topLevel hidden => .topLevel (hidden.set name v)

theorem Locals.get?_put (own : Locals) (name : String) (v : Value) (other : String) :
    (own.put name v).get? other = if other = name then some v else own.get? other := by
  cases own <;> exact Table.get?_set ..

theorem Frame.lookup_own {f : Frame} {name : String} {v : Value} (bound : f.locals.get? name = some v) (s : Store) :
    f.lookup s name = some v := by
  rw [lookup, bound]
  rfl

/-- A hidden name that the frame keeps is written among its own variables. -/
theorem Frame.assign_put {f : Frame} {s : Store} {name : String} (hidden : isHidden name = true)
    (keeps : f.Keeps s name) (v : Value) :
    (f.assign s name v).1.locals = f.locals.put name v ∧ (f.assign s name v).2 = s := by
  unfold assign
  cases own : f.locals with
  | topLevel table => simp [hidden, Locals.put]
  | procedure table =>
    dsimp only
    split
    · exact ⟨rfl, rfl⟩
    · next fresh =>
      obtain ⟨none, free⟩ := keeps table own (by simpa using fresh)
      rw [none, free]
      exact ⟨rfl, rfl⟩

theorem Exec.holding_still {ε α : Type} {hold : Hold} {x : Exec ε α} {s : State} {v : α}
    (run : x ⟨s.store, s.control.hold hold⟩ = .ok v ⟨s.store, s.control.hold hold⟩) : x.holding hold s = .ok v s := by
  rw [holding_eq, run]
  rfl

theorem Exec.holding_fails {ε α : Type} {hold : Hold} {x : Exec ε α} {s : State} {halt : Halt ε}
    (run : x ⟨s.store, s.control.hold hold⟩ = .error halt ⟨s.store, s.control.hold hold⟩) :
    x.holding hold s = .error halt s := by
  rw [holding_eq, run]
  rfl

section

variable {host : Host} {calls : Calls} {receiver v : Value} {name : String} {args : Arguments} {s : State} {site : Site}

/-- Loading a variable of the frame. -/
theorem Name.load_own {f : Frame} (bound : f.locals.get? name = some v) : load host calls f name s = .ok v s := by
  have resolved : resolve host calls f name s = .ok (.value v) s := by
    unfold resolve
    refine (bind_ok (show (get : Exec RuntimeError State) s = .ok s s from rfl)).trans ?_
    rw [Frame.lookup_own bound]
    rfl
  exact bind_ok resolved

/-- A receiver that is left to the methods of its kind gives what they give. -/
theorem Invoke.send_builtin (answers : answer s.store receiver name = .builtin) :
    send host calls site receiver name args s =
      ((Exec.ofStore (Method.call host.rules receiver name args)).mapError site.locate).holding (.ofValues [receiver])
        s := by
  refine holding_congr ?_
  have read : (Exec.readStore (answer · receiver name) : Exec ScriptError Answer)
      ⟨s.store, s.control.hold (.ofValues [receiver])⟩ =
        .ok .builtin ⟨s.store, s.control.hold (.ofValues [receiver])⟩ :=
    congrArg (EStateM.Result.ok · _) answers
  rw [bind_ok read]

theorem Invoke.send_ok (answers : answer s.store receiver name = .builtin)
    (called : Method.call host.rules receiver name args s.store = .ok v s.store) :
    send host calls site receiver name args s = .ok v s := by
  rw [send_builtin answers]
  refine Exec.holding_still ?_
  simp only [Exec.mapError, Exec.ofStore, called]

theorem Invoke.send_fails {e : RuntimeError} (answers : answer s.store receiver name = .builtin)
    (called : Method.call host.rules receiver name args s.store = .error (.failed e) s.store) :
    send host calls site receiver name args s = .error (.failed (site.locate e)) s := by
  rw [send_builtin answers]
  refine Exec.holding_fails ?_
  simp only [Exec.mapError, Exec.ofStore, called, Halt.map]

end

namespace Machine

variable (host : Host) (calls : Calls)

/-- Turns lead from one machine to another, all of them at indices of a kind. -/
inductive Passes (within : Nat → Prop) : Machine → Machine → Prop
  | refl (m : Machine) : Passes within m m
  | turn {m m' m'' : Machine} : within m.frame.pc → Machine.turn host calls m = .inl m' → Passes within m' m'' →
    Passes within m m''

variable {host calls} {within : Nat → Prop} {m m' m'' : Machine}

theorem Passes.trans (first : Passes host calls within m m') (second : Passes host calls within m' m'') :
    Passes host calls within m m'' := by
  induction first with
  | refl => exact second
  | turn here turned _ ih => exact .turn here turned (ih second)

theorem Passes.snoc (passes : Passes host calls within m m') (here : within m'.frame.pc)
    (turned : Machine.turn host calls m' = .inl m'') : Passes host calls within m m'' :=
  passes.trans (.turn here turned (.refl m''))

/-- Where turns end, everything that is reached is on the way. -/
theorem Passes.among (passes : Passes host calls within m m') {ending : Ending}
    (ended : Machine.turn host calls m' = .inr ending) (reached : Reaches host calls m m'') :
    within m''.frame.pc ∨ m'' = m' := by
  obtain ⟨n, reached⟩ := reached
  induction passes generalizing n with
  | refl =>
    cases reached with
    | refl => exact .inr rfl
    | turn here => cases ended.symm.trans here
  | turn inside here _ ih =>
    cases reached with
    | refl => exact .inl inside
    | turn here' onward =>
      cases here.symm.trans here'
      exact ih ended _ onward

theorem Passes.reaches (passes : Passes host calls within m m') : Reaches host calls m m' := by
  induction passes with
  | refl => exact .refl _
  | turn _ turned _ ih => exact ((Reaches.refl _).snoc turned).trans ih

/-- What a property of machines comes to over a stretch whose turns do not break it. -/
theorem Passes.invariant {I : Machine → Prop} (passes : Passes host calls within m m') (initially : I m)
    (kept : ∀ a b, within a.frame.pc → I a → Machine.turn host calls a = .inl b → I b) : I m' := by
  induction passes with
  | refl => exact initially
  | turn here turned _ ih => exact ih (kept _ _ here initially turned)

/-- A frame that has come to a stretch of its code never gets to the end of it: the run ends there, with a value that is
returned or with an error; or an error there leads out of the stretch; or the frame stays there for ever. -/
inductive Abandons (host : Host) (calls : Calls) (within : Nat → Prop) (m : Machine) : Prop
  | ends {m' : Machine} {ending : Ending} (passes : Passes host calls within m m') (here : within m'.frame.pc)
    (ended : Machine.turn host calls m' = .inr ending)
  | fails {m' m'' broken : Machine} {i : Instruction} {e : LocatedError} (passes : Passes host calls within m m')
    (here : within m'.frame.pc) (found : m'.frame.procedure.code[m'.frame.pc]? = some i)
    (run : step host calls i m' = .error (.failed (.runtime e)) broken)
    (turned : Machine.turn host calls m' = .inl m'') (out : ¬ within m''.frame.pc)
  | endless (stays : ∀ m', Passes host calls within m m' →
      within m'.frame.pc ∧ ∃ m'', Machine.turn host calls m' = .inl m'')

/-- Where a frame goes on from a stretch whose branches stay inside or lead just behind it. -/
theorem Turned.stays {code : Array Instruction} {lo : Nat} {is : List Instruction} (seg : Segment code lo is)
    (targets : Targets 0 0 is) (same : m.frame.procedure.code = code)
    (inside : lo ≤ m.frame.pc ∧ m.frame.pc < lo + is.length) (turned : Turned host calls m m') :
    lo ≤ m'.frame.pc ∧ m'.frame.pc ≤ lo + is.length ∨ ∃ i e broken,
      m.frame.procedure.code[m.frame.pc]? = some i ∧ step host calls i m = .error (.failed (.runtime e)) broken := by
  obtain ⟨k, here⟩ : ∃ k, m.frame.pc = lo + k := ⟨m.frame.pc - lo, by omega⟩
  have found : m.frame.procedure.code[m.frame.pc]? = is[k]? := by
    rw [same, here, seg.get (List.getElem?_eq_getElem (by omega)), List.getElem?_eq_getElem]
  cases turned with
  | onward _ run =>
    cases step_effect run with
    | next _ same =>
      refine .inl ?_
      change lo ≤ _ + 1 ∧ _ + 1 ≤ _
      rw [same.pc]
      omega
  | @jumped _ _ target there run =>
    cases step_effect run with
    | @jump _ offset _ branch lands =>
      subst branch
      obtain ⟨⟨n, rfl⟩, _⟩ := landing?_index lands
      have far := landing?_exact lands
      have bounds := targets k _ n (found ▸ there)
      refine .inl ?_
      change lo ≤ target ∧ target ≤ _
      omega
  | caught there run => exact .inr ⟨_, _, _, there, run⟩

/-- The run of a frame without open regions ends with the error of an instruction. -/
theorem turn_fails {i : Instruction} {e : LocatedError} {broken : Machine}
    (found : m.frame.procedure.code[m.frame.pc]? = some i)
    (run : step host calls i m = .error (.failed (.runtime e)) broken) (none : m.frame.handlers = []) :
    ∃ ending, Machine.turn host calls m = .inr ending := by
  cases turned : Machine.turn host calls m with
  | inr ending => exact ⟨ending, rfl⟩
  | inl m' =>
    exfalso
    cases turn_inl turned with
    | onward found' run' | jumped found' run' =>
      cases found.symm.trans found'
      cases run.symm.trans run'
    | caught found' run' regions =>
      rw [(step_failed run').regions, none] at regions
      cases regions

/-- No region is ever open in a procedure that opens none. -/
theorem Reaches.unguarded (reached : Reaches host calls m m')
    (plain : ∀ i ∈ m.frame.procedure.code, i.isRegional = false) (none : m.frame.handlers = []) :
    m'.frame.handlers = [] := by
  have kept : m'.frame.procedure = m.frame.procedure ∧ m'.frame.handlers = [] := by
    refine reached.invariant (I := fun m' => m'.frame.procedure = m.frame.procedure ∧ m'.frame.handlers = [])
      ⟨rfl, none⟩ fun a b known turned => ⟨(turn_inl turned).sameCall.procedure.trans known.1, ?_⟩
    cases turn_inl turned with
    | @onward i _ found run =>
      have unregional := plain i (known.1 ▸ Array.mem_of_getElem? found)
      cases step_effect run with
      | next _ _ _ _ regions =>
        cases i with
        | enterTry | leaveTry => cases unregional
        | _ => exact regions.trans known.2
    | jumped _ run =>
      cases step_effect run with
      | jump _ _ _ _ _ regions => exact regions.trans known.2
    | caught _ run regions =>
      rw [(step_failed run).regions, known.2] at regions
      cases regions
  exact kept.2

/-- A stretch whose branches stay inside or lead just behind it is got through, or else abandoned. -/
theorem passes_or_abandons {code : Array Instruction} {lo : Nat} {is : List Instruction} (seg : Segment code lo is)
    (targets : Targets 0 0 is) (same : m.frame.procedure.code = code)
    (inside : lo ≤ m.frame.pc ∧ m.frame.pc ≤ lo + is.length) {within : Nat → Prop}
    (exactly : ∀ pc, within pc ↔ lo ≤ pc ∧ pc < lo + is.length) :
    (∃ m', Passes host calls within m m' ∧ m'.frame.pc = lo + is.length) ∨ Abandons host calls within m := by
  by_contra neither
  obtain ⟨through, abandons⟩ := not_or.mp neither
  have among {m' : Machine} (passes : Passes host calls within m m')
      (known : lo ≤ m'.frame.pc ∧ m'.frame.pc ≤ lo + is.length) : within m'.frame.pc := by
    by_contra beyond
    rw [exactly] at beyond
    exact through ⟨m', passes, by omega⟩
  -- As long as the frame is neither through nor out, it is in the stretch.
  have stays {m' : Machine} (passes : Passes host calls within m m') :
      Passes host calls within m m' ∧ m'.frame.procedure.code = code ∧ within m'.frame.pc := by
    refine passes.invariant (I := fun m' => Passes host calls within m m' ∧ m'.frame.procedure.code = code ∧
      within m'.frame.pc) ⟨.refl m, same, among (.refl m) inside⟩ ?_
    rintro a b here ⟨before, known, _⟩ turned
    have passes := before.snoc here turned
    have onward := turn_inl turned
    refine ⟨passes, (congrArg Procedure.code onward.sameCall.procedure).trans known, ?_⟩
    rcases onward.stays seg targets known ((exactly _).mp here) with within' | ⟨i, e, broken, found, run⟩
    · exact among passes within'
    · by_contra out
      exact abandons (.fails before here found run turned out)
  refine abandons (.endless fun m' passes => ⟨(stays passes).2.2, ?_⟩)
  cases turned : Machine.turn host calls m' with
  | inl m'' => exact ⟨m'', rfl⟩
  | inr ending => exact absurd (.ends passes (stays passes).2.2 turned) abandons

/-- A machine runs a frame, with some store and some variables; it stands at an index, with some operands, top
first. -/
structure Rests (f : Frame) (s : Store) (own : Locals) (pc : Nat) (σ : List Value) (m : Machine) : Prop where
  call : SameCall { f with pc } m.frame
  store : m.state.store = s
  locals : m.frame.locals = own
  stack : m.frame.stack.items = σ

/-- Whoever runs a frame and comes to an index with some variables and operands gets on to another index, with others,
by turns at indices of a kind. -/
def Brings (host : Host) (calls : Calls) (within : Nat → Prop) (f : Frame) (s : Store) (own : Locals) (pc : Nat)
    (σ : List Value) (own' : Locals) (pc' : Nat) (σ' : List Value) : Prop :=
  ∀ m, Rests f s own pc σ m → ∃ m', Passes host calls within m m' ∧ Rests f s own' pc' σ' m'

variable {f : Frame} {s : Store} {own own' own'' : Locals} {pc pc' pc'' : Nat} {σ σ' σ'' : List Value} {i : Instruction}

theorem Rests.found (rests : Rests f s own pc σ m) (found : f.procedure.code[pc]? = some i) :
    m.frame.procedure.code[m.frame.pc]? = some i := by
  rw [rests.call.procedure, rests.call.pc]
  exact found

theorem Rests.height (rests : Rests f s own pc σ m) : m.frame.stack.height = σ.length := by
  rw [m.frame.stack.height_eq, rests.stack]

theorem Rests.room (rests : Rests f s own pc σ m) (room : σ.length < f.maxStack) :
    ¬ m.frame.stack.height ≥ m.frame.maxStack := by
  rw [rests.height, rests.call.maxStack]
  exact Nat.not_le.mpr room

theorem Rests.keeps {name : String} (rests : Rests f s own pc σ m) (keeps : { f with locals := own }.Keeps s name) :
    m.frame.Keeps m.state.store name := by
  intro table same fresh
  rw [rests.locals] at same
  have kept := keeps table same fresh
  rw [rests.store, Frame.staticOwner?, rests.call.owner, rests.call.program]
  exact kept

/-- The machine that goes on behind an instruction. -/
theorem Rests.goesOn (rests : Rests f s own pc σ m) (found : f.procedure.code[pc]? = some i)
    (run : step host calls i m = .ok .next m') {t : Store} (store : m'.state.store = t) :
    ∃ m'', Machine.turn host calls m = .inl m'' ∧ Rests f t m'.frame.locals (pc + 1) m'.frame.stack.items m'' := by
  cases step_effect run with
  | next _ same =>
    have kept := rests.call.trans same
    refine ⟨m'.jumped (m'.frame.pc + 1), ?_, ⟨kept.procedure, kept.owner, kept.program, kept.file, ?_, kept.maxStack⟩,
      store, rfl, rfl⟩
    · rw [Machine.turn, rests.found found]
      dsimp only
      rw [run]
      rfl
    · exact congrArg (· + 1) kept.pc

/-- The machine that goes on where an instruction branches to. -/
theorem Rests.jumps {target : Nat} (rests : Rests f s own pc σ m) (found : f.procedure.code[pc]? = some i)
    (run : step host calls i m = .ok (.jump target) m') (store : m'.state.store = s) :
    ∃ m'', Machine.turn host calls m = .inl m'' ∧ Rests f s m'.frame.locals target m'.frame.stack.items m'' := by
  cases step_effect run with
  | jump _ _ same =>
    have kept := rests.call.trans same
    refine ⟨m'.jumped target, ?_, ⟨kept.procedure, kept.owner, kept.program, kept.file, rfl, kept.maxStack⟩, store, rfl,
      rfl⟩
    rw [Machine.turn, rests.found found]
    dsimp only
    rw [run]
    rfl

theorem Brings.trans (first : Brings host calls within f s own pc σ own' pc' σ')
    (second : Brings host calls within f s own' pc' σ' own'' pc'' σ'') :
    Brings host calls within f s own pc σ own'' pc'' σ'' := by
  intro m rests
  obtain ⟨m', passes, there⟩ := first m rests
  obtain ⟨m'', further, arrives⟩ := second m' there
  exact ⟨m'', passes.trans further, arrives⟩

/-- A contract of one turn. -/
theorem Brings.of_turn (here : within pc)
    (turns : ∀ m, Rests f s own pc σ m → ∃ m', Machine.turn host calls m = .inl m' ∧ Rests f s own' pc' σ' m') :
    Brings host calls within f s own pc σ own' pc' σ' := by
  intro m rests
  obtain ⟨m', turned, there⟩ := turns m rests
  exact ⟨m', .turn (rests.call.pc ▸ here) turned (.refl m'), there⟩

theorem push_room {v : Value} (room : ¬ m.frame.stack.height ≥ m.frame.maxStack) : push v m = .ok () (m.pushed v) := by
  rw [push_eq, if_neg room]
  rfl

theorem Brings.value {v : Value} (found : within pc ∧ f.procedure.code[pc]? = some (.value v))
    (room : σ.length < f.maxStack) : Brings host calls within f s own pc σ own (pc + 1) (v :: σ) := by
  refine .of_turn found.1 fun m rests => ?_
  have run : step host calls (.value v) m = .ok .next (m.pushed v) := bind_ok (push_room (rests.room room))
  obtain ⟨m', turned, there⟩ := rests.goesOn found.2 run rests.store
  exact ⟨m', turned, there.call, there.store, there.locals.trans rests.locals,
    there.stack.trans (congrArg (v :: ·) rests.stack)⟩

/-- A variable of the frame is loaded without further ado. -/
theorem Rests.loads (host : Host) (calls : Calls) {name : String} {v : Value} (rests : Rests f s own pc σ m)
    (bound : own.get? name = some v) (place : Position) :
    step host calls (.load name place) m = (push v >>= fun _ => pure .next : MachineM Flow) (m.placed place) := by
  have same : (m.placed place).frame.locals.get? name = some v := by
    rw [show (m.placed place).frame.locals = own from rests.locals]
    exact bound
  have loaded : (onState ((Name.load host calls (m.placed place).frame name).mapError
      (m.placed place).frame.site.locate)) (m.placed place) = .ok v (m.placed place) := by
    refine onState_eq_ok_iff.mpr ⟨m.state, Exec.holding_still ?_, rfl⟩
    rw [Exec.mapError, Name.load_own same]
  rw [step_load_eq, bind_ok loaded]

/-- Loading a variable of the frame. -/
theorem Brings.load {name : String} {place : Position} {v : Value}
    (found : within pc ∧ f.procedure.code[pc]? = some (.load name place)) (bound : own.get? name = some v)
    (room : σ.length < f.maxStack) : Brings host calls within f s own pc σ own (pc + 1) (v :: σ) := by
  refine .of_turn found.1 fun m rests => ?_
  have run : step host calls (.load name place) m = .ok .next ((m.placed place).pushed v) := by
    rw [rests.loads host calls bound]
    exact bind_ok (push_room (m := m.placed place) (rests.room room))
  obtain ⟨m', turned, there⟩ := rests.goesOn found.2 run rests.store
  exact ⟨m', turned, there.call, there.store, there.locals.trans rests.locals,
    there.stack.trans (congrArg (v :: ·) rests.stack)⟩

/-- A variable that there is no room for is not loaded. -/
theorem Rests.load_fails (host : Host) (calls : Calls) {name : String} {v : Value} (rests : Rests f s own pc σ m)
    (bound : own.get? name = some v) (full : f.maxStack ≤ σ.length) (place : Position) :
    ∃ m', step host calls (.load name place) m =
      .error (.failed (.located f.file place (.stackOverflow f.maxStack))) m' := by
  have none : (m.placed place).frame.stack.height ≥ (m.placed place).frame.maxStack := by
    change m.frame.stack.height ≥ m.frame.maxStack
    rw [rests.height, rests.call.maxStack]
    exact full
  refine ⟨m.placed place, ?_⟩
  rw [rests.loads host calls bound]
  refine bind_error ?_
  rw [push_eq, if_pos none, ← show (m.placed place).frame.file = f.file from rests.call.file,
    ← show (m.placed place).frame.maxStack = f.maxStack from rests.call.maxStack]
  rfl

/-- What a receiver is sent by a name is a call of one of the methods that it has built in. -/
structure IsBuiltin (s : Store) (receiver : Value) (name : String) : Prop where
  notGet : name ≠ "getMember"
  notSet : name ≠ "setMember"
  answers : Invoke.answer s receiver name = .builtin

/-- The machine in which a send has its receiver and its arguments in hand, and shows its call. -/
theorem Rests.sends (host : Host) (calls : Calls) {site : CallSite} {receiver : Value} {values : List Value}
    (rests : Rests f s own pc (values.reverse ++ receiver :: σ) m) (count : values.length = site.argc)
    (builtin : IsBuiltin s receiver site.name) :
    sendNamed host calls site m =
        (onState (Invoke.send host calls ⟨f.file, site.place⟩ receiver site.name
          (Evaluation.arguments site values)) >>= push) (m.opened site).current ∧
      (m.opened site).current.frame.stack.items = σ ∧ (m.opened site).current.state.store = s := by
  have placed : (m.placed site.place).frame.stack.items = values.reverse ++ receiver :: σ := rests.stack
  obtain ⟨popped, rest⟩ := popArguments_ok placed count
  obtain ⟨took, below⟩ := pop_ok rest
  refine ⟨?_, below, ?_⟩
  · rw [sendNamed_eq, bind_ok (moveTo_eq m site.place),
      show (⟨{ m.frame with place := site.place }, m.state⟩ : Machine) = m.placed site.place from rfl,
      bind_ok popped, bind_ok took, sendTo_other host calls builtin.notGet builtin.notSet]
    have file : (m.opened site).current.frame.site = ⟨f.file, site.place⟩ :=
      congrArg (Site.mk · site.place) rests.call.file
    rw [bind_assoc, show ((m.placed site.place).dropped site.argc).dropped 1 = m.opened site from rfl,
      bind_ok (refreshCall_eq (m.opened site))]
    rw [bind_assoc]
    refine (bind_ok (readFrame_eq (m.opened site).current Frame.site)).trans ?_
    rw [file]
  · rw [← rests.store]
    change (m.opened site).refreshed.store = _
    unfold refreshed
    split <;> rfl

theorem Brings.send {site : CallSite} {receiver v : Value} (values : List Value)
    (found : within pc ∧ f.procedure.code[pc]? = some (.send site)) (count : values.length = site.argc)
    (builtin : IsBuiltin s receiver site.name)
    (called : Method.call host.rules receiver site.name (Evaluation.arguments site values) s = .ok v s)
    (room : σ.length < f.maxStack) :
    Brings host calls within f s own pc (values.reverse ++ receiver :: σ) own (pc + 1) (v :: σ) := by
  refine .of_turn found.1 fun m rests => ?_
  obtain ⟨sent, below, kept⟩ := rests.sends host calls count builtin
  have gave : onState (Invoke.send host calls ⟨f.file, site.place⟩ receiver site.name
      (Evaluation.arguments site values)) (m.opened site).current = .ok v (m.opened site).current := by
    refine onState_eq_ok_iff.mpr ⟨_, Exec.holding_still (Invoke.send_ok ?_ ?_), rfl⟩
    · rw [← builtin.answers, ← kept]
    · change Method.call _ _ _ _ (m.opened site).current.state.store = .ok v (m.opened site).current.state.store
      rw [kept]
      exact called
  have fits : ¬ (m.opened site).current.frame.stack.height ≥ (m.opened site).current.frame.maxStack := by
    rw [Stack.height_eq, below, show (m.opened site).current.frame.maxStack = f.maxStack from rests.call.maxStack]
    exact Nat.not_le.mpr room
  have run : step host calls (.send site) m = .ok .next ((m.opened site).current.pushed v) := by
    refine bind_ok (a := ()) ?_
    rw [sent, bind_ok gave, push_room fits]
  obtain ⟨m', turned, there⟩ := rests.goesOn found.2 run kept
  exact ⟨m', turned, there.call, there.store, there.locals.trans rests.locals,
    there.stack.trans (congrArg (v :: ·) below)⟩

/-- A send that fails does so with the error of the method, at its place. -/
theorem Rests.send_fails {site : CallSite} {receiver : Value} (values : List Value) {e : RuntimeError}
    (rests : Rests f s own pc (values.reverse ++ receiver :: σ) m) (count : values.length = site.argc)
    (builtin : IsBuiltin s receiver site.name)
    (called : Method.call host.rules receiver site.name (Evaluation.arguments site values) s = .error (.failed e) s) :
    ∃ m', step host calls (.send site) m = .error (.failed (.located f.file site.place e)) m' := by
  obtain ⟨sent, _, kept⟩ := rests.sends host calls count builtin
  have failed : onState (Invoke.send host calls ⟨f.file, site.place⟩ receiver site.name
      (Evaluation.arguments site values)) (m.opened site).current =
      .error (.failed (.located f.file site.place e)) (m.opened site).current := by
    refine onState_eq_error_iff.mpr ⟨_, Exec.holding_fails (Invoke.send_fails ?_ ?_), rfl⟩
    · rw [← builtin.answers, ← kept]
    · change Method.call _ _ _ _ (m.opened site).current.state.store = .error _ (m.opened site).current.state.store
      rw [kept]
      exact called
  refine ⟨(m.opened site).current, bind_error ?_⟩
  rw [sent]
  exact bind_error failed

/-- The machine after an assignment, before it goes on. -/
def assigned (m : Machine) (place : Position) (name : String) (v : Value) : Machine :=
  let g := ((m.placed place).dropped 2).frame
  ⟨(g.assign m.state.store name v).1, { m.state with store := (g.assign m.state.store name v).2 }⟩

theorem Rests.assigns (host : Host) (calls : Calls) {name : String} {v : Value} (place : Position)
    (rests : Rests f s own pc (v :: .string name :: σ) m) :
    step host calls (.call (.positional "set" 2 place)) m = .ok .next (m.assigned place name v) ∧
      Instruction.write? m (.call (.positional "set" 2 place)) = some (name, v) ∧
      (m.assigned place name v).frame.stack.items = σ := by
  have operands : m.operands (.positional "set" 2 place) = [⟨none, .string name⟩, ⟨none, v⟩] := by
    rw [Machine.operands, Stack.latest, rests.stack]
    rfl
  have enough : ¬ m.frame.stack.height < (CallSite.positional "set" 2 place).argc := by
    rw [rests.height, CallSite.argc_positional]
    exact Nat.not_lt.mpr (Nat.le_add_left 2 σ.length)
  have named : (CallSite.positional "set" 2 place).name = "set" := rfl
  refine ⟨bind_ok (a := ()) ?_, ?_, ?_⟩
  · rw [callNamed_eq, if_neg enough, if_pos named, operands]
    rfl
  · rw [Instruction.write?, if_pos named, operands]
    rfl
  · obtain ⟨locals, same⟩ := ((m.placed place).dropped 2).frame.assign_eq m.state.store name v
    change (((m.placed place).dropped 2).frame.assign m.state.store name v).1.stack.items = σ
    rw [same]
    change m.frame.stack.items.drop 2 = σ
    rw [rests.stack]
    rfl

/-- Assigning a hidden name that the frame keeps. -/
theorem Brings.assign {name : String} {v : Value} {place : Position}
    (found : within pc ∧ f.procedure.code[pc]? = some (.call (.positional "set" 2 place)))
    (hidden : isHidden name = true) (keeps : { f with locals := own }.Keeps s name) :
    Brings host calls within f s own pc (v :: .string name :: σ) (own.put name v) (pc + 1) σ := by
  refine .of_turn found.1 fun m rests => ?_
  obtain ⟨run, _, below⟩ := rests.assigns host calls place
  have kept : ((m.placed place).dropped 2).frame.Keeps m.state.store name := rests.keeps keeps
  obtain ⟨locals, store⟩ := Frame.assign_put hidden kept v
  obtain ⟨m', turned, there⟩ := rests.goesOn found.2 run (store.trans rests.store)
  refine ⟨m', turned, there.call, there.store, there.locals.trans (locals.trans ?_), there.stack.trans below⟩
  exact congrArg (·.put name v) rests.locals

theorem Brings.test {kind : BranchKind} {offset : Offset} {target : Nat} {b : Bool}
    (found : within pc ∧ f.procedure.code[pc]? = some (.branch kind offset)) (conditional : kind ≠ .always)
    (lands : landing? pc offset f.procedure.code.size = some (.index target))
    (leads : pc' = if b == (kind == .ifTrue) then target else pc + 1) :
    Brings host calls within f s own pc (.bool b :: σ) own pc' σ := by
  refine .of_turn found.1 fun m rests => ?_
  subst leads
  obtain ⟨_, below⟩ := pop_ok rests.stack
  have top : m.frame.stack.top? = some (.bool b) := by
    rw [Stack.top?, rests.stack]
    rfl
  rcases m.decides_cases conditional with ⟨c, holds, decided⟩ | ⟨w, _, other, none, _⟩ | ⟨empty, _⟩
  · cases holds.symm.trans top
    have branched := branch_eq m kind offset
    rw [decided] at branched
    cases taken : b == (kind == .ifTrue) with
    | true =>
      have run : step host calls (.branch kind offset) m = .ok (.jump target) (m.dropped 1) := by
        change branch kind offset m = _
        rw [branched, taken]
        refine (m.dropped 1).land_index ?_
        change landing? m.frame.pc offset m.frame.procedure.code.size = _
        rw [rests.call.pc, rests.call.procedure]
        exact lands
      obtain ⟨m', turned, there⟩ := rests.jumps found.2 run rests.store
      exact ⟨m', turned, there.call, there.store, there.locals.trans rests.locals, there.stack.trans below⟩
    | false =>
      have run : step host calls (.branch kind offset) m = .ok .next (m.dropped 1) := by
        change branch kind offset m = _
        rw [branched, taken]
      obtain ⟨m', turned, there⟩ := rests.goesOn found.2 run rests.store
      exact ⟨m', turned, there.call, there.store, there.locals.trans rests.locals, there.stack.trans below⟩
  · cases other.symm.trans top
    cases none
  · rw [rests.height] at empty
    cases empty

theorem Brings.jump {offset : Offset} {target : Nat}
    (found : within pc ∧ f.procedure.code[pc]? = some (.branch .always offset))
    (lands : landing? pc offset f.procedure.code.size = some (.index target)) :
    Brings host calls within f s own pc σ own target σ := by
  refine .of_turn found.1 fun m rests => ?_
  have run : step host calls (.branch .always offset) m = .ok (.jump target) m := by
    change branch .always offset m = _
    rw [branch_eq, decides_always]
    refine m.land_index ?_
    rw [rests.call.pc, rests.call.procedure]
    exact lands
  obtain ⟨m', turned, there⟩ := rests.jumps found.2 run rests.store
  exact ⟨m', turned, there.call, there.store, there.locals.trans rests.locals, there.stack.trans rests.stack⟩

end Machine

end ScriptEngine
