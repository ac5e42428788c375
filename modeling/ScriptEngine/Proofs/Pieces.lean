import ScriptEngine.Engine
import ScriptEngine.Proofs.Atomicity
import ScriptEngine.Proofs.Bookkeeping
import ScriptEngine.Proofs.Steps

/-! # The pieces of the interpreter

Reading members, built-in functions, loads, calls and sends are composed of pieces: what the interpreter does
to the state itself, which is little, runs of frames, and whatever the functions of the host do. A property of
all pieces that compositions have as well is then one of the interpreter.
-/

namespace ScriptEngine

/-- A built-in method leaves the programs alone. -/
theorem Method.programs_call (rules : ObjectRules) (receiver : Value) (name : String) (args : Arguments) (s : Store) :
    (finalState (call rules receiver name args s)).programs = s.programs := by
  have effect := call_effect rules receiver name args s
  cases run : call rules receiver name args s with
  | ok v t =>
    rw [run] at effect
    exact Effect.sameApart effect |>.programs
  | error halt t =>
    rw [run] at effect
    exact congrArg Store.programs effect

/-- A program keeps its code, and it stays started. -/
structure Program.Lasts (p p' : Program) : Prop where
  procedures : p'.procedures = p.procedures
  failure : p'.failure = p.failure
  classSetups : p'.classSetups = p.classSetups
  topLevel : p'.topLevel = p.topLevel
  initialized : p.initialized = true → p'.initialized = true

/-- A program without a member whose name the compiler made up. -/
def Program.IsPlain (p : Program) : Prop := ∀ name, isHidden name = true → p.members.contains name = false

/-- What the interpreter leaves of a program: it lasts, and no name that the compiler made up becomes a member. -/
structure Program.Stays (p p' : Program) : Prop extends p.Lasts p' where
  plain : p.IsPlain → p'.IsPlain

/-- What a piece of the interpreter does to the state: it writes to the store, and prints. -/
structure Mild (s s' : State) : Prop where
  programs : ∀ id, (s.store.program id).Stays (s'.store.program id)
  control : ∃ output, s'.control = { s.control with output }

/-- Programs stay what they are, a run that is ended stays so, and the callbacks of the host are not taken away. -/
structure Onward (s s' : State) : Prop where
  programs : ∀ id, (s.store.program id).Stays (s'.store.program id)
  terminated : s.control.terminated = true → s'.control.terminated = true
  observed : s.control.isObserved = true → s'.control.isObserved = true

/-- What the functions of a host do. -/
abbrev Conduct := ∀ α : Type, (Calls → Exec RuntimeError α) → Prop

/-- The functions of a host conduct themselves in some way. -/
structure Host.Within (C : Conduct) (host : Host) : Prop where
  getMember : ∀ r object name, C _ fun calls => host.getMember calls r object name
  setMember : ∀ r object name v, C _ fun calls => host.setMember calls r object name v
  callMethod : ∀ r object name args, C _ fun calls => host.callMethod calls r object name args
  call : ∀ r object args, C _ fun calls => host.call calls r object args
  native : ∀ name captured args, C _ fun calls => host.native calls name captured args

/-- Computations that are composed of pieces that change the state by `K` and of functions of a host. -/
inductive Composed (K : State → State → Prop) (C : Conduct) : {α : Type} → (Calls → Exec RuntimeError α) → Prop
  | plain {α : Type} {x : Exec RuntimeError α} : (∀ s, K s (finalState (x s))) → Composed K C fun _ => x
  | host {α : Type} {x : Calls → Exec RuntimeError α} : C α x → Composed K C x
  | native (r : Ref .native) (args : Arguments) : Composed K C fun calls => calls.native r args
  | attempt {α : Type} {x : Calls → Exec RuntimeError α} :
    Composed K C x → Composed K C fun calls => (x calls).attempt
  | holding {α : Type} {x : Calls → Exec RuntimeError α} (h : Hold) :
    Composed K C x → Composed K C fun calls => (x calls).holding h
  | bind {α β : Type} {x : Calls → Exec RuntimeError α} {f : α → Calls → Exec RuntimeError β} :
    Composed K C x → (∀ a, Composed K C (f a)) → Composed K C fun calls => x calls >>= (f · calls)

/-- Computations that are composed of such pieces, of runs of frames and of calls of what the host may call.
They pass on the errors of these. -/
inductive Relays (K : State → State → Prop) (C : Conduct) (invokes : Prop) :
    {α : Type} → (Calls → Exec ScriptError α) → Prop
  | plain {α : Type} {x : Exec ScriptError α} :
    (∀ s, K s (finalState (x s))) → (∀ s e s', x s = .error (.failed e) s' → e.IsUnreported) →
      Relays K C invokes fun _ => x
  | located {α : Type} {x : Calls → Exec RuntimeError α} (site : Site) :
    Composed K C x → Relays K C invokes fun calls => (x calls).mapError site.locate
  /-- Finds out which procedure to run, and runs it. -/
  | enter (find : State → Except ScriptError (ProcedureId × ProgramId × Locals)) :
    (∀ s e, find s = .error e → e.IsUnreported) →
      Relays K C invokes fun calls s =>
        match find s with
        | .ok (id, program, locals) => calls.run (.enter s (s.store.procedure id) program locals) s
        | .error e => .error (.failed e) s
  | invoke (callee : Value) (args : Arguments) :
    invokes → Relays K C invokes fun calls => calls.invoke callee args
  | holding {α : Type} {x : Calls → Exec ScriptError α} (h : Hold) :
    Relays K C invokes x → Relays K C invokes fun calls => (x calls).holding h
  | bind {α β : Type} {x : Calls → Exec ScriptError α} {f : α → Calls → Exec ScriptError β} :
    Relays K C invokes x → (∀ a, Relays K C invokes (f a)) →
      Relays K C invokes fun calls => x calls >>= (f · calls)

theorem Program.Lasts.refl (p : Program) : p.Lasts p := ⟨rfl, rfl, rfl, rfl, id⟩

theorem Program.Lasts.trans {p p' p'' : Program} (first : p.Lasts p') (second : p'.Lasts p'') : p.Lasts p'' :=
  ⟨second.procedures.trans first.procedures, second.failure.trans first.failure,
    second.classSetups.trans first.classSetups, second.topLevel.trans first.topLevel,
    fun here => second.initialized (first.initialized here)⟩

theorem Program.Stays.refl (p : Program) : p.Stays p := ⟨.refl p, id⟩

theorem Program.Stays.trans {p p' p'' : Program} (first : p.Stays p') (second : p'.Stays p'') : p.Stays p'' :=
  ⟨first.toLasts.trans second.toLasts, fun plain => second.plain (first.plain plain)⟩

theorem Store.program_of_programs {s s' : Store} (same : s'.programs = s.programs) (id : ProgramId) :
    s'.program id = s.program id := by
  unfold Store.program
  rw [same]

theorem Program.Stays.of_programs {s s' : Store} (same : s'.programs = s.programs) {id : ProgramId} :
    (s.program id).Stays (s'.program id) := by
  rw [Store.program_of_programs same]
  exact .refl _

/-- What one program becomes, and the others stay, all programs become. -/
theorem Store.modifyProgram_relates {R : Program → Program → Prop} (refl : ∀ q, R q q) {s : Store} {p : ProgramId}
    {f : Program → Program} (change : ∀ q, R q (f q)) (id : ProgramId) :
    R (s.program id) ((s.modifyProgram p f).program id) := by
  rcases s.program_modifyProgram p f id with same | ⟨_, same⟩ <;> rw [same]
  · exact refl _
  · exact change _

/-- A static member of a class is no member of a program. -/
theorem Store.setStatic_stays (s : Store) (c : ClassId) (name : String) (v : Value) (id : ProgramId) :
    (s.program id).Stays ((s.setStatic c name v).program id) :=
  s.modifyProgram_relates .refl (fun _ => ⟨⟨rfl, rfl, rfl, rfl, fun started => started⟩, fun plain => plain⟩) id

namespace Mild

theorem refl (s : State) : Mild s s := ⟨fun _ => .refl _, s.control.output, rfl⟩

/-- Changes of the store alone. -/
theorem ofStore {s : State} {store : Store} (stays : ∀ id, (s.store.program id).Stays (store.program id)) :
    Mild s ⟨store, s.control⟩ := ⟨stays, s.control.output, rfl⟩

/-- Changes of what is no program. -/
theorem ofPrograms {s : State} {store : Store} (same : store.programs = s.store.programs) :
    Mild s ⟨store, s.control⟩ := ofStore fun _ => .of_programs same

theorem onward {s s' : State} (mild : Mild s s') : Onward s s' := by
  obtain ⟨output, same⟩ := mild.control
  refine ⟨mild.programs, fun ended => ?_, fun observed => ?_⟩
  · rw [same]
    exact ended
  · rw [same]
    exact observed

end Mild

namespace Onward

variable {s s' s'' : State}

theorem refl (s : State) : Onward s s := (Mild.refl s).onward

theorem trans (first : Onward s s') (second : Onward s' s'') : Onward s s'' where
  programs := fun id => (first.programs id).trans (second.programs id)
  terminated := fun ended => second.terminated (first.terminated ended)
  observed := fun observed => second.observed (first.observed observed)

/-- Every procedure stays as it is. -/
theorem procedure (onward : Onward s s') (id : ProcedureId) : s'.store.procedure id = s.store.procedure id := by
  unfold Store.procedure
  rw [(onward.programs id.program).procedures]

/-- Changes of the control state alone that neither take back the end of a run nor the callbacks. -/
theorem ofControl {control : Control} (kept : s.control.terminated = true → control.terminated = true)
    (observed : s.control.isObserved = true → control.isObserved = true) : Onward s ⟨s.store, control⟩ :=
  ⟨fun _ => .refl _, kept, observed⟩

end Onward

namespace Composed

variable {C : Conduct} {α : Type}

theorem pure (a : α) : Composed Mild C fun _ => Pure.pure a := .plain fun s => .refl s

theorem fail (e : RuntimeError) : Composed Mild C fun _ => (Exec.fail e : Exec RuntimeError α) :=
  .plain fun s => .refl s

theorem get : Composed Mild C fun _ => (MonadState.get : Exec RuntimeError State) := .plain fun s => .refl s

theorem readStore (f : Store → α) : Composed Mild C fun _ => (Exec.readStore f : Exec RuntimeError α) :=
  .plain fun s => .refl s

theorem ofExcept (c : Except RuntimeError α) : Composed Mild C fun _ => Exec.ofExcept c := by
  cases c with
  | ok a => exact pure a
  | error e => exact fail e

theorem ofStore {x : StoreM α} (spares : ∀ s, (finalState (x s)).programs = s.programs) :
    Composed Mild C fun _ => Exec.ofStore x := by
  refine .plain fun ⟨store, control⟩ => ?_
  have same := spares store
  unfold Exec.ofStore
  dsimp only
  cases run : x store with
  | ok a store' =>
    rw [run] at same
    exact .ofPrograms (s := ⟨store, control⟩) same
  | error halt store' =>
    rw [run] at same
    exact .ofPrograms (s := ⟨store, control⟩) same

theorem allocate {f : Store → α × Store} (same : ∀ s, (f s).2.programs = s.programs) :
    Composed Mild C fun _ => (Exec.allocate f : Exec RuntimeError α) :=
  .plain fun s => .ofPrograms (same s.store)

theorem modifyStore {f : Store → Store} (stays : ∀ (s : Store) id, (s.program id).Stays ((f s).program id)) :
    Composed Mild C fun _ => (Exec.modifyStore f : Exec RuntimeError Unit) :=
  .plain fun s => .ofStore (stays s.store)

/-- Printing changes the output and nothing else. -/
theorem print (line : String) : Composed Mild C fun _ => Exec.tryControl (·.print line) := by
  refine .plain fun s => ?_
  rw [tryControl_eq]
  unfold Control.print
  cases s.control.output.failure with
  | none => exact ⟨fun _ => .refl _, _, rfl⟩
  | some reason => exact .refl _

theorem mapM {β : Type} {f : α → Calls → Exec RuntimeError β} (each : ∀ a, Composed Mild C (f a)) (as : List α) :
    Composed Mild C fun calls => as.mapM (f · calls) := by
  induction as with
  | nil => exact pure []
  | cons a rest ih =>
    simp only [List.mapM_cons]
    exact (each a).bind fun b => ih.bind fun bs => pure (b :: bs)

end Composed

theorem Site.locate_isUnreported (site : Site) (e : RuntimeError) : (site.locate e).IsUnreported := by
  rintro _ ⟨⟩
  rfl

namespace Relays

variable {C : Conduct} {inv : Prop} {α : Type}

theorem pure (a : α) : Relays Mild C inv fun _ => Pure.pure a :=
  .plain (fun s => .refl s) fun _ _ _ same => by cases same

theorem fail {e : ScriptError} (unreported : e.IsUnreported) :
    Relays Mild C inv fun _ => (Exec.fail e : Exec ScriptError α) := by
  refine .plain (fun s => .refl s) fun _ _ _ same => ?_
  cases same
  exact unreported

theorem readStore (f : Store → α) : Relays Mild C inv fun _ => (Exec.readStore f : Exec ScriptError α) :=
  .plain (fun s => .refl s) fun _ _ _ same => by cases same

theorem ofExcept {c : Except ScriptError α} (unreported : ∀ e, c = .error e → e.IsUnreported) :
    Relays Mild C inv fun _ => Exec.ofExcept c := by
  cases c with
  | ok a => exact pure a
  | error e => exact fail (unreported e rfl)

theorem allocate {f : Store → α × Store} (same : ∀ s, (f s).2.programs = s.programs) :
    Relays Mild C inv fun _ => (Exec.allocate f : Exec ScriptError α) :=
  .plain (fun s => .ofPrograms (same s.store)) fun _ _ _ same => by cases same

theorem modifyStore {f : Store → Store} (stays : ∀ (s : Store) id, (s.program id).Stays ((f s).program id)) :
    Relays Mild C inv fun _ => (Exec.modifyStore f : Exec ScriptError Unit) :=
  .plain (fun s => .ofStore (stays s.store)) fun _ _ _ same => by cases same

theorem forM {f : α → Calls → Exec ScriptError PUnit} (each : ∀ a, Relays Mild C inv (f a)) (as : List α) :
    Relays Mild C inv fun calls => as.forM (f · calls) := by
  induction as with
  | nil => exact pure ()
  | cons a rest ih => exact (each a).bind fun _ => ih

end Relays

section

variable {K : State → State → Prop} {C D : Conduct} {α : Type}

theorem Composed.mono {x : Calls → Exec RuntimeError α} (composed : Composed K C x) (weaker : ∀ α x, C α x → D α x) :
    Composed K D x := by
  induction composed with
  | plain change => exact .plain change
  | host conducts => exact .host (weaker _ _ conducts)
  | native r args => exact .native r args
  | attempt _ ih => exact .attempt ih
  | holding h _ ih => exact .holding h ih
  | bind _ _ first rest => exact .bind first rest

theorem Relays.mono {inv : Prop} {x : Calls → Exec ScriptError α} (relays : Relays K C inv x)
    (weaker : ∀ α x, C α x → D α x) : Relays K D inv x := by
  induction relays with
  | plain change unreported => exact .plain change unreported
  | located site composed => exact .located site (composed.mono weaker)
  | enter find unreported => exact .enter find unreported
  | invoke callee args may => exact .invoke callee args may
  | holding h _ ih => exact .holding h ih
  | bind _ _ first rest => exact .bind first rest

theorem Host.Within.mono {host : Host} (within : host.Within C) (weaker : ∀ α x, C α x → D α x) : host.Within D where
  getMember := fun r object name => weaker _ _ (within.getMember r object name)
  setMember := fun r object name v => weaker _ _ (within.setMember r object name v)
  callMethod := fun r object name args => weaker _ _ (within.callMethod r object name args)
  call := fun r object args => weaker _ _ (within.call r object args)
  native := fun name captured args => weaker _ _ (within.native name captured args)

/-- Functions that conduct themselves in two ways. -/
theorem Host.Within.and {host : Host} (first : host.Within C) (second : host.Within D) :
    host.Within fun α x => C α x ∧ D α x where
  getMember := fun r object name => ⟨first.getMember r object name, second.getMember r object name⟩
  setMember := fun r object name v => ⟨first.setMember r object name v, second.setMember r object name v⟩
  callMethod := fun r object name args => ⟨first.callMethod r object name args, second.callMethod r object name args⟩
  call := fun r object args => ⟨first.call r object args, second.call r object args⟩
  native := fun name captured args => ⟨first.native name captured args, second.native name captured args⟩

end

section

variable {C : Conduct} {host : Host} (within : host.Within C)
include within

namespace Member

theorem ofObject_composed (r : Ref .object) (name : String) :
    Composed Mild C fun calls => ofObject host calls r name := by
  refine (Composed.readStore (·.object r)).bind fun o => ?_
  cases o with
  | module title members =>
    dsimp only
    cases members.get? name with
    | none => exact .fail _
    | some v => exact .pure v
  | host object => exact .host (within.getMember r object name)

theorem setOfObject_composed (r : Ref .object) (name : String) (v : Value) :
    Composed Mild C fun calls => setOfObject host calls r name v := by
  refine (Composed.readStore (·.object r)).bind fun o => ?_
  cases o with
  | module title members => exact .fail _
  | host object => exact .host (within.setMember r object name v)

theorem callOnObject_composed (r : Ref .object) (name : String) (args : Arguments) :
    Composed Mild C fun calls => callOnObject host calls r name args := by
  refine (Composed.readStore (·.object r)).bind fun o => ?_
  cases o with
  | module title members =>
    refine (ofObject_composed within r name).bind fun member => ?_
    cases member with
    | native f => exact .native f args
    | _ => exact Composed.get.bind fun s => .fail _
  | host object => exact .host (within.callMethod r object name args)

theorem callObject_composed (r : Ref .object) (args : Arguments) :
    Composed Mild C fun calls => callObject host calls r args := by
  refine (Composed.readStore (·.object r)).bind fun o => ?_
  cases o with
  | module title members => exact .fail _
  | host object => exact .host (within.call r object args)

theorem get_composed (receiver : Value) (name : String) :
    Composed Mild C fun calls => get host calls receiver name := by
  cases receiver with
  | object r => exact ofObject_composed within r name
  | _ =>
    refine (Composed.readStore id).bind fun s => ?_
    split
    · exact .pure _
    · exact .fail _

theorem set_composed (receiver : Value) (name : String) (v : Value) :
    Composed Mild C fun calls => set host calls receiver name v := by
  cases receiver with
  | inst r =>
    change Composed Mild C fun _ => Exec.modifyStore (·.setField r name v)
    exact .modifyStore fun s id => Program.Stays.of_programs rfl
  | classRef id =>
    change Composed Mild C fun _ => Exec.modifyStore (·.setStatic id name v)
    exact .modifyStore fun s => s.setStatic_stays id name v
  | object r => exact setOfObject_composed within r name v
  | _ => exact (Composed.readStore _).bind fun kind => .fail _

omit within in
/-- A member that is looked up in one module after the other. -/
theorem inModules_eq (calls : Calls) (name : String) (m : Value) (rest : List Value) :
    inModules host calls name (m :: rest) = (do
      match ← (get host calls m name).attempt with
      | .ok v => pure (some v)
      | .error (.unknownMember ..) => inModules host calls name rest
      | .error e => Exec.fail e) := by
  funext s
  rw [inModules]
  simp only [Bind.bind, EStateM.bind, Exec.attempt]
  rcases get host calls m name s with ⟨v, s'⟩ | ⟨halt, s'⟩
  · rfl
  · cases halt with
    | exhausted => rfl
    | failed e => cases e <;> rfl

theorem inModules_composed (name : String) (modules : List Value) :
    Composed Mild C fun calls => inModules host calls name modules := by
  induction modules with
  | nil => exact .pure none
  | cons m rest ih =>
    rw [funext fun calls => inModules_eq calls name m rest]
    refine (get_composed within m name).attempt.bind fun found => ?_
    cases found with
    | ok v => exact .pure (some v)
    | error e =>
      cases e with
      | unknownMember => exact ih
      | _ => exact .fail _

end Member

namespace Builtin

omit within in
theorem textOf_composed (v : Value) : Composed Mild C fun _ => textOf host v := by
  refine Composed.get.bind fun s => .ofStore fun _ => ?_
  cases s.store.text? host.rules v <;> rfl

theorem call_composed (b : Builtin) (args : Arguments) : Composed Mild C fun calls => b.call host calls args := by
  refine Composed.get.bind fun s => ?_
  cases b with
  | print =>
    refine (Composed.ofExcept _).bind fun values => ?_
    refine (Composed.mapM (fun v => textOf_composed v) values).bind fun texts => ?_
    exact (Composed.print _).bind fun _ => .pure _
  | str => exact (Composed.ofExcept _).bind fun v => (textOf_composed v).bind fun text => .pure _
  | len =>
    refine (Composed.ofExcept _).bind fun v => ?_
    cases v with
    | object r => exact (Member.callOnObject_composed within r "size" []).holding _
    | _ => exact .ofStore (Method.programs_call _ _ _ _)
  | range =>
    exact (Composed.ofExcept _).bind fun _ => (Composed.ofExcept _).bind fun _ => .allocate fun _ => rfl
  | list => exact (Composed.ofExcept _).bind fun _ => .allocate fun _ => rfl
  | map =>
    exact (Composed.ofExcept _).bind fun _ => (Composed.ofExcept _).bind fun _ =>
      (Composed.ofExcept _).bind fun _ => .allocate fun _ => rfl
  | set =>
    exact (Composed.ofExcept _).bind fun _ => (Composed.ofExcept _).bind fun _ => .allocate fun _ => rfl
  | pair =>
    exact (Composed.ofExcept _).bind fun _ => (Composed.ofExcept _).bind fun _ =>
      (Composed.ofExcept _).bind fun _ => (Composed.ofExcept _).bind fun _ => .allocate fun _ => rfl
  | typeOf => exact (Composed.ofExcept _).bind fun _ => .pure _
  | raise => exact (Composed.ofExcept _).bind fun v => (textOf_composed v).bind fun text => .fail _
  | min => exact .ofExcept _
  | max => exact .ofExcept _

end Builtin

theorem Invoke.native_composed (f : Ref .native) (args : Arguments) :
    Composed Mild C fun calls => Invoke.native host calls f args := by
  refine (Composed.readStore (·.native f)).bind fun target => ?_
  obtain ⟨name, body⟩ := target
  cases body with
  | builtin b => exact Builtin.call_composed within b args
  | host captured => exact .host (within.native name captured args)

namespace Name

theorem resolve_composed (f : Frame) (name : String) : Composed Mild C fun calls => resolve host calls f name := by
  refine Composed.get.bind fun s => ?_
  split
  · exact .pure _
  · refine (Member.inModules_composed within name _).bind fun found => ?_
    cases found with
    | some v => exact .pure _
    | none =>
      dsimp only
      split <;> exact .pure _

theorem load_composed (f : Frame) (name : String) : Composed Mild C fun calls => load host calls f name := by
  refine (resolve_composed within f name).bind fun found => ?_
  cases found with
  | value v => exact .pure v
  | builtin b => exact .allocate fun _ => rfl
  | unknown => exact .fail _

end Name

end

section

variable {C : Conduct} {host : Host}

namespace Invoke

/-- The procedure that is called with some arguments, or why it is not. -/
def found (site : Site) (id : ProcedureId) (receiver : Option Value) (args : Arguments) (s : State) :
    Except ScriptError (ProcedureId × ProgramId × Locals) :=
  if (s.store.program id.program).released then
    .error (.internal s!"procedure {(s.store.procedure id).name} outlived its program")
  else do
    let bound ← (Binding.bind (s.store.procedure id).name (s.store.procedure id).params args).mapError
      site.locate
    pure (id, id.program, .procedure (match receiver with
      | some v => bound.set receiverName v
      | none => bound))

theorem procedure_eq (calls : Calls) (site : Site) (id : ProcedureId) (receiver : Option Value)
    (args : Arguments) (s : State) :
    procedure calls site id receiver args s = match found site id receiver args s with
      | .ok (id, program, locals) => calls.run (.enter s (s.store.procedure id) program locals) s
      | .error e => .error (.failed e) s := by
  have here : (EStateM.get : Exec ScriptError State) s = .ok s s := rfl
  unfold procedure enter found
  simp only [Bind.bind, EStateM.bind, MonadState.get, getThe, MonadStateOf.get, here]
  by_cases gone : (s.store.program id.program).released = true
  · rw [if_pos gone, if_pos gone]
    rfl
  · rw [if_neg gone, if_neg gone]
    cases Binding.bind (s.store.procedure id).name (s.store.procedure id).params args <;> rfl

theorem procedure_relays (site : Site) (id : ProcedureId) (receiver : Option Value) (args : Arguments) :
    Relays Mild C False fun calls => procedure calls site id receiver args := by
  have unreported (s : State) (e : ScriptError) (failed : found site id receiver args s = .error e) :
      e.IsUnreported := by
    unfold found at failed
    split at failed
    · cases failed
      rintro _ ⟨⟩
    · cases bound : Binding.bind (s.store.procedure id).name (s.store.procedure id).params args with
      | ok b =>
        rw [bound] at failed
        cases failed
      | error e' =>
        rw [bound] at failed
        cases failed
        exact site.locate_isUnreported e'
  rw [funext fun calls => funext fun s => procedure_eq calls site id receiver args s]
  exact .enter _ unreported

theorem instantiate_relays (site : Site) (id : ClassId) (args : Arguments) :
    Relays Mild C False fun calls => instantiate calls site id args := by
  refine (Relays.readStore (·.classDef id)).bind fun c => ?_
  refine (Relays.allocate fun _ => rfl).bind fun made => ?_
  split
  · next init _ =>
    exact (Relays.holding _ (procedure_relays site init (some made) args)).bind fun _ => .pure made
  · split
    · exact .pure made
    · exact .fail (site.locate_isUnreported _)

variable (within : host.Within C)
include within

theorem value_relays (site : Site) (callee : Value) (receiver : Option Value) (args : Arguments) :
    Relays Mild C False fun calls => value host calls site callee receiver args := by
  refine .holding _ ?_
  cases callee with
  | procedure id => exact procedure_relays site id receiver args
  | method bound id => exact procedure_relays site id (some bound) args
  | classRef id => exact instantiate_relays site id args
  | native f => exact .located site (native_composed within f args)
  | object r => exact .located site (Member.callObject_composed within r args)
  | _ => exact (Relays.readStore _).bind fun kind => .fail (site.locate_isUnreported _)

theorem send_relays (site : Site) (receiver : Value) (name : String) (args : Arguments) :
    Relays Mild C False fun calls => send host calls site receiver name args := by
  refine .holding _ ((Relays.readStore (answer · receiver name)).bind fun found => ?_)
  cases found with
  | callable callee this => exact value_relays within site callee this args
  | method id => exact procedure_relays site id (some receiver) args
  | hosted r => exact .located site (Member.callOnObject_composed within r name args)
  | builtin => exact .located site (.ofStore (Method.programs_call _ _ _ _))

end Invoke

theorem Name.call_relays (within : host.Within C) (f : Frame) (name : String) (args : Arguments) :
    Relays Mild C False fun calls => Name.call host calls f name args := by
  refine (Relays.located f.site (resolve_composed within f name)).bind fun found => ?_
  cases found with
  | value callee => exact Invoke.value_relays within f.site callee none args
  | builtin b =>
    cases b with
    | len =>
      refine (Relays.ofExcept ?_).bind fun receiver => Invoke.send_relays within f.site receiver "size" []
      intro e failed
      cases same : args.single name with
      | ok v =>
        rw [same] at failed
        cases failed
      | error e' =>
        rw [same] at failed
        cases failed
        exact f.site.locate_isUnreported e'
    | _ => exact .located f.site (Builtin.call_composed within _ args)
  | unknown => exact .fail (f.site.locate_isUnreported _)

end

section

variable {C : Conduct} {inv : Prop} {id : ProgramId}

theorem Engine.check_relays : Relays Mild C inv fun _ => Engine.check id := by
  refine (Relays.readStore _).bind fun failure => ?_
  cases failure with
  | some report => exact .fail (by rintro _ ⟨⟩)
  | none => exact .pure ()

theorem Calls.runTopLevel_relays (q : ProcedureId) : Relays Mild C inv fun calls => calls.runTopLevel id q := by
  have enters : Relays Mild C inv fun calls s => calls.run (.enter s (s.store.procedure q) id (.topLevel .empty)) s :=
    .enter (fun _ => .ok (q, id, .topLevel .empty)) fun _ _ same => by cases same
  exact enters.bind fun _ => .pure ()

theorem Calls.start_relays : Relays Mild C inv fun calls => calls.start id := by
  refine Engine.check_relays.bind fun _ => (Relays.readStore (·.program id)).bind fun p => ?_
  split
  · exact .pure ()
  · refine (Relays.modifyStore fun _ => ?_).bind fun _ => .forM Calls.runTopLevel_relays _
    exact Store.modifyProgram_relates .refl fun _ => ⟨⟨rfl, rfl, rfl, rfl, fun _ => rfl⟩, fun plain => plain⟩

/-- What a host asks of a program is composed of runs of its top-level code and the call of a value. -/
theorem Operation.perform_relays (C : Conduct) (id : ProgramId) (op : Operation) :
    Relays Mild C True fun calls => op.perform calls id := by
  cases op with
  | start => exact Calls.start_relays.bind fun _ => .pure Value.null
  | callMember name args =>
    refine Calls.start_relays.bind fun _ => ?_
    refine (Engine.check_relays.bind fun _ => Relays.readStore _).bind fun found => ?_
    cases found with
    | some callee => exact .invoke callee args trivial
    | none => exact (Relays.readStore _).bind fun file => .fail (by rintro _ ⟨⟩; rfl)
  | invoke callee args => exact .invoke callee args trivial

end

end ScriptEngine
