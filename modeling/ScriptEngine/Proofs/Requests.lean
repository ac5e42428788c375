import ScriptEngine.Proofs.Nesting
import ScriptEngine.Proofs.Pieces

/-! # What compositions request

A computation that is composed of nested runs and of pieces beside the bookkeeping comes, step after step, to
whatever those lead to. It makes its requests on the way. If the host does not re-enter the interpreter, it
fails with the error of a run that it waits for, and where it fails otherwise, the error is its own.
-/

namespace ScriptEngine

variable {α β : Type} {calls other : Calls} {q : Request} {s s' s₁ s₂ : State} {halt : Halt ScriptError}

/-- A request for a run has a frame that has just been made. -/
def Request.IsEntered (s : State) : Request → Prop
  | run f => f.IsEntered s
  | _ => True

/-- A request that ends in an error. -/
inductive Calls.Fails (calls : Calls) : Request → State → Halt ScriptError → State → Prop
  | run {f : Frame} {s s' : State} {halt : Halt ScriptError} :
    calls.run f s = .error halt s' → Fails calls (.run f) s halt s'
  | invoke {callee : Value} {args : Arguments} {s s' : State} {halt : Halt ScriptError} :
    calls.invoke callee args s = .error halt s' → Fails calls (.invoke callee args) s halt s'

namespace Starts

theorem not_const {ρ : Type} {r : ρ} : ¬ Starts (fun _ => r) calls q s := by
  rintro ⟨other, _, differ⟩
  exact differ rfl

/-- What comes to the same whenever a computation does starts only what that starts. -/
theorem of_congr {ρ τ : Type} {x : Calls → ρ} {y : Calls → τ} (starts : Starts y calls q s)
    (congr : ∀ other, x calls = x other → y calls = y other) : Starts x calls q s := by
  obtain ⟨other, agree, differ⟩ := starts
  exact ⟨other, agree, fun same => differ (congr other same)⟩

theorem run {f : Frame} (starts : Starts (fun calls => calls.run f s) calls q s₁) : q = .run f ∧ s₁ = s :=
  starts.within (G := fun q t => q = .run f ∧ t = s) fun _ agree => agree.run f s ⟨rfl, rfl⟩

theorem invoke {callee : Value} {args : Arguments}
    (starts : Starts (fun calls => calls.invoke callee args s) calls q s₁) : q = .invoke callee args ∧ s₁ = s :=
  starts.within (G := fun q t => q = .invoke callee args ∧ t = s) fun _ agree => agree.invoke callee args s ⟨rfl, rfl⟩

theorem native {r : Ref .native} {args : Arguments} (starts : Starts (fun calls => calls.native r args s) calls q s₁) :
    q = .native r args ∧ s₁ = s :=
  starts.within (G := fun q t => q = .native r args ∧ t = s) fun _ agree => agree.native r args s ⟨rfl, rfl⟩

/-- What runs a procedure if it finds one starts that run. -/
theorem found {find : Except ScriptError (ProcedureId × ProgramId × Locals)}
    (starts : Starts (fun calls => match find with
      | .ok (id, program, locals) => calls.run (.enter s (s.store.procedure id) program locals) s
      | .error e => .error (.failed e) s) calls q s₁) :
    ∃ id program locals, find = .ok (id, program, locals) ∧
      q = .run (.enter s (s.store.procedure id) program locals) ∧ s₁ = s := by
  cases find with
  | error e => exact absurd starts not_const
  | ok site => exact ⟨site.1, site.2.1, site.2.2, rfl, starts.run⟩

/-- A sequence starts what its parts start. -/
theorem bind_cases {ε : Type} {x : Calls → Exec ε α} {f : α → Calls → Exec ε β}
    (starts : Starts (fun calls => (x calls >>= (f · calls)) s) calls q s₁) :
    Starts (fun calls => x calls s) calls q s₁ ∨
      ∃ a s₂, x calls s = .ok a s₂ ∧ Starts (fun calls => f a calls s₂) calls q s₁ := by
  obtain ⟨other, agree, differ⟩ := starts
  by_cases same : x calls s = x other s
  · refine .inr ?_
    simp only [Bind.bind, EStateM.bind, ← same] at differ
    cases run : x calls s with
    | ok a s₂ =>
      rw [run] at differ
      exact ⟨a, s₂, rfl, other, agree, differ⟩
    | error halt s₂ =>
      rw [run] at differ
      exact absurd rfl differ
  · exact .inl ⟨other, agree, same⟩

/-- What does not start a request comes to the same without it. -/
theorem without {ρ : Type} {x : Calls → ρ} (never : ¬ Starts x calls q s)
    (agree : calls.AgreeWhere (fun q' s' => (q', s') ≠ (q, s)) other) : x calls = x other := by
  by_contra differ
  exact never ⟨other, agree, differ⟩

end Starts

/-- An error that the error watcher has not seen, if it is one. -/
def Halt.IsUnreported (halt : Halt ScriptError) : Prop := ∀ e, halt = .failed e → e.IsUnreported

/-- What computations lead to: the states after they yield a value, and those after they halt. -/
structure Trail where
  after : State → State → Prop
  halted : State → Halt ScriptError → State → Prop
  still : ∀ {s s'}, Still s s' → after s s'
  trans : ∀ {s s' s''}, after s s' → after s' s'' → after s s''
  onward : ∀ {s s' s'' halt}, after s s' → halted s' halt s'' → halted s halt s''
  stays : ∀ {s s' s'' halt}, halted s halt s' → Still s' s'' → halted s halt s''
  raised : ∀ {s s' halt}, halt.IsUnreported → after s s' → halted s halt s'

namespace Trail

variable (t : Trail)

/-- A computation from a state has come to where the trail leads. -/
def Leads (s : State) : EStateM.Result (Halt ScriptError) State α → Prop
  | .ok _ s' => t.after s s'
  | .error halt s' => t.halted s halt s'

/-- Nested runs that lead where the trail does. -/
structure Guides (calls : Calls) : Prop where
  run : ∀ f s, f.IsEntered s → t.Leads s (calls.run f s)
  invoke : ∀ callee args s, t.Leads s (calls.invoke callee args s)
  native : ∀ r args s, t.after s (finalState (calls.native r args s))

/-- The requests that are made on the trail from a state. -/
def Passes (s : State) (q : Request) (s' : State) : Prop := t.after s s' ∧ q.IsEntered s'

variable {t} {re inv : Prop} {ε : Type}

theorem Leads.onward {r : EStateM.Result (Halt ScriptError) State α} (first : t.after s s') (rest : t.Leads s' r) :
    t.Leads s r := by
  cases r with
  | ok a s'' => exact t.trans first rest
  | error halt s'' => exact t.onward first rest

theorem Leads.of_unreported {r : EStateM.Result (Halt ScriptError) State α} (after : t.after s (finalState r))
    (unreported : ∀ halt s', r = .error halt s' → halt.IsUnreported) : t.Leads s r := by
  cases r with
  | ok a s' => exact after
  | error halt s' => exact t.raised (unreported halt s' rfl) after

/-- Nested runs that agree on the trail from a state agree on it from a later one. -/
theorem agree_onward (first : t.after s s') (agree : calls.AgreeWhere (t.Passes s) other) :
    calls.AgreeWhere (t.Passes s') other where
  run := fun f s'' passes => agree.run f s'' ⟨t.trans first passes.1, passes.2⟩
  invoke := fun callee args s'' passes => agree.invoke callee args s'' ⟨t.trans first passes.1, passes.2⟩
  native := fun r args s'' passes => agree.native r args s'' ⟨t.trans first passes.1, passes.2⟩

theorem here (s : State) : t.after s s := t.still (.refl s)

end Trail

/-- An error that gets its place has not been seen by the error watcher. -/
theorem mapError_isUnreported {x : Exec RuntimeError α} {site : Site}
    (failed : x.mapError site.locate s = .error halt s') : halt.IsUnreported := by
  obtain ⟨inner, _, rfl⟩ := mapError_eq_error_iff.mp failed
  intro e same
  cases inner with
  | exhausted => cases same
  | failed cause =>
    cases same
    rintro _ ⟨⟩
    rfl

theorem finalState_mapError {ε δ : Type} {x : Exec ε α} {g : ε → δ} :
    finalState (x.mapError g s) = finalState (x s) := by
  unfold Exec.mapError
  cases x s <;> rfl

theorem finalState_holding {ε α : Type} (x : Exec ε α) (h : Hold) (s : State) :
    finalState (x.holding h s) =
      let s' := finalState (x ⟨s.store, s.control.hold h⟩)
      ⟨s'.store, s'.control.letGo⟩ := by
  rw [holding_eq]
  cases x ⟨s.store, s.control.hold h⟩ <;> rfl

theorem finalState_attempt {ε δ : Type} {x : Exec ε α} :
    finalState ((x.attempt : Exec δ (Except ε α)) s) = finalState (x s) := by
  unfold Exec.attempt
  rcases x s with ⟨a, s'⟩ | ⟨_ | _, s'⟩ <;> rfl

theorem attempt_congr {ε δ : Type} {x y : Exec ε α} (same : x s = y s) :
    (x.attempt : Exec δ (Except ε α)) s = y.attempt s := by
  unfold Exec.attempt
  rw [same]

section

variable {t : Trail} {re inv : Prop}

/-- A computation leads where its requests do, and makes them on the way. -/
theorem Consults.follows {x : Calls → Exec RuntimeError α} (consults : Consults re x)
    (guides : t.Guides calls) (answered : re → ∀ {s halt s'}, t.halted s halt s' → t.after s s') (s : State) :
    t.after s (finalState (x calls s)) ∧
      ∀ other, calls.AgreeWhere (t.Passes s) other → x calls s = x other s := by
  induction consults generalizing s with
  | plain still => exact ⟨t.still (still s), fun _ _ => rfl⟩
  | native r args => exact ⟨guides.native r args s, fun other agree => agree.native r args s ⟨t.here s, trivial⟩⟩
  | invoke callee args may =>
    have leads := guides.invoke callee args s
    refine ⟨?_, fun other agree => attempt_congr (agree.invoke callee args s ⟨t.here s, trivial⟩)⟩
    rw [finalState_attempt]
    cases run : calls.invoke callee args s with
    | ok v s' =>
      rw [run] at leads
      exact leads
    | error halt s' =>
      rw [run] at leads
      exact answered may leads
  | attempt _ ih =>
    obtain ⟨leads, same⟩ := ih s
    refine ⟨?_, fun other agree => attempt_congr (same other agree)⟩
    rw [finalState_attempt]
    exact leads
  | holding h _ ih =>
    obtain ⟨leads, same⟩ := ih ⟨s.store, s.control.hold h⟩
    have held := t.still (.hold s h)
    refine ⟨?_, fun other agree => holding_congr (same other (Trail.agree_onward held agree))⟩
    rw [finalState_holding]
    exact t.trans held (t.trans leads (t.still (.letGo _)))
  | @bind α β x f _ _ first rest =>
    obtain ⟨leads, same⟩ := first s
    simp only [Bind.bind, EStateM.bind]
    cases run : x calls s with
    | error halt s' =>
      rw [run] at leads
      refine ⟨leads, fun other agree => ?_⟩
      rw [← same other agree, run]
    | ok a s' =>
      rw [run] at leads
      obtain ⟨later, alike⟩ := rest a s'
      refine ⟨t.trans leads later, fun other agree => ?_⟩
      rw [← same other agree, run]
      exact alike other (Trail.agree_onward leads agree)

theorem Delegates.follows {x : Calls → Exec ScriptError α} (delegates : Delegates re inv x)
    (guides : t.Guides calls) (answered : re → ∀ {s halt s'}, t.halted s halt s' → t.after s s') (s : State) :
    t.Leads s (x calls s) ∧ ∀ other, calls.AgreeWhere (t.Passes s) other → x calls s = x other s := by
  induction delegates generalizing s with
  | @plain α x still unreported =>
    refine ⟨.of_unreported (t.still (still s)) ?_, fun _ _ => rfl⟩
    rintro halt s' run e rfl
    exact unreported s e s' run
  | located site consults =>
    obtain ⟨after, same⟩ := consults.follows guides answered s
    refine ⟨.of_unreported ?_ fun _ _ => mapError_isUnreported, fun other agree => ?_⟩
    · rw [finalState_mapError]
      exact after
    · exact mapError_congr (same other agree)
  | enter find unreported =>
    dsimp only
    cases found : find s with
    | error e =>
      refine ⟨t.raised ?_ (t.here s), fun _ _ => rfl⟩
      rintro _ ⟨⟩
      exact unreported s e found
    | ok site =>
      obtain ⟨id, program, locals⟩ := site
      have entered : (Frame.enter s (s.store.procedure id) program locals).IsEntered s := ⟨id, program, locals, rfl⟩
      exact ⟨guides.run _ s entered, fun other agree => agree.run _ s ⟨t.here s, entered⟩⟩
  | invoke callee args may =>
    exact ⟨guides.invoke callee args s, fun other agree => agree.invoke callee args s ⟨t.here s, trivial⟩⟩
  | @holding α x h _ ih =>
    obtain ⟨leads, same⟩ := ih ⟨s.store, s.control.hold h⟩
    have held := t.still (.hold s h)
    refine ⟨?_, fun other agree => holding_congr (same other (Trail.agree_onward held agree))⟩
    dsimp only
    rw [holding_eq]
    cases run : x calls ⟨s.store, s.control.hold h⟩ with
    | ok a s' =>
      rw [run] at leads
      exact t.trans held (t.trans leads (t.still (.letGo s')))
    | error halt s' =>
      rw [run] at leads
      exact t.stays (t.onward held leads) (.letGo s')
  | @bind α β x f _ _ first rest =>
    obtain ⟨leads, same⟩ := first s
    simp only [Bind.bind, EStateM.bind]
    cases run : x calls s with
    | error halt s' =>
      rw [run] at leads
      refine ⟨leads, fun other agree => ?_⟩
      rw [← same other agree, run]
    | ok a s' =>
      rw [run] at leads
      obtain ⟨later, alike⟩ := rest a s'
      refine ⟨later.onward leads, fun other agree => ?_⟩
      rw [← same other agree, run]
      exact alike other (Trail.agree_onward leads agree)

end

/-- The requests of a computation are on the trail from its state. -/
theorem Delegates.starts_on {t : Trail} {re inv : Prop} {x : Calls → Exec ScriptError α}
    (delegates : Delegates re inv x) (guides : t.Guides calls)
    (answered : re → ∀ {s halt s'}, t.halted s halt s' → t.after s s')
    (starts : Starts (fun calls => x calls s) calls q s₁) : t.Passes s q s₁ :=
  starts.within (delegates.follows guides answered s).2

theorem Consults.starts_on {t : Trail} {re : Prop} {x : Calls → Exec RuntimeError α} (consults : Consults re x)
    (guides : t.Guides calls) (answered : re → ∀ {s halt s'}, t.halted s halt s' → t.after s s')
    (starts : Starts (fun calls => x calls s) calls q s₁) : t.Passes s q s₁ :=
  starts.within (consults.follows guides answered s).2

/-- A state in which only what pending computations hold has changed. -/
def Freed (s s' : State) : Prop := ∃ held, s' = ⟨s.store, { s.control with held }⟩

theorem Freed.refl (s : State) : Freed s s := ⟨s.control.held, rfl⟩

theorem Freed.letGo (freed : Freed s s') : Freed s ⟨s'.store, s'.control.letGo⟩ := by
  obtain ⟨held, rfl⟩ := freed
  exact ⟨held.tail, rfl⟩

/-- Computations that ask for native functions only. -/
def AsksNatives : Conduct := fun _ x => ∀ ⦃calls : Calls⦄ ⦃q : Request⦄ ⦃s s₁ : State⦄,
  Starts (fun calls => x calls s) calls q s₁ → ∃ r args, q = .native r args

/-- What depends only on the native functions of the nested runs asks for nothing else. -/
theorem AsksNatives.of_congr {x : Calls → Exec RuntimeError α}
    (congr : ∀ calls other : Calls, calls.native = other.native → x calls = x other) : AsksNatives α x := by
  intro calls q s s₁ starts
  have same {other : Calls} (agree : calls.AgreeWhere (fun q' s' => (q', s') ≠ (q, s₁)) other)
      (nested : ∀ r args, q ≠ .native r args) : x calls s = x other s := by
    refine congrFun (congr calls other ?_) s
    funext r args s'
    exact agree.native r args s' fun here => nested r args (Prod.mk.inj here).1.symm
  by_contra nested
  obtain ⟨other, agree, differ⟩ := starts
  exact differ (same agree fun r args here => nested ⟨r, args, here⟩)

/-- What is composed of pieces and of functions of a host that do not re-enter asks only for native functions. -/
theorem Composed.only_native {K : State → State → Prop} {x : Calls → Exec RuntimeError α}
    (composed : Composed K AsksNatives x) : AsksNatives α x := by
  intro calls q s s₁ starts
  induction composed generalizing s with
  | plain => exact absurd starts Starts.not_const
  | host asks => exact asks starts
  | native r args => exact ⟨r, args, starts.native.1⟩
  | attempt _ ih => exact ih (starts.of_congr fun _ same => attempt_congr same)
  | holding h _ ih => exact ih (starts.of_congr fun _ same => holding_congr same)
  | bind _ _ first rest =>
    rcases starts.bind_cases with starts | ⟨a, s₂, _, starts⟩
    · exact first starts
    · exact rest a starts

/-- A computation that fails as soon as a request does, and with the same error. -/
def Waits (x : Calls → Exec ScriptError α) (s : State) (calls : Calls) (q : Request) (s₁ : State) : Prop :=
  ∀ other, calls.AgreeWhere (fun q' s' => (q', s') ≠ (q, s₁)) other →
    ∀ halt s₂, other.Fails q s₁ halt s₂ → ∃ s₃, x other s = .error halt s₃ ∧ Freed s₂ s₃

open Classical in
/-- Nested runs that fail at one request. -/
noncomputable def Calls.failingAt (calls : Calls) (q : Request) (s : State) (halt : Halt ScriptError) : Calls where
  run := fun f t => if (.run f, t) = (q, s) then .error halt t else calls.run f t
  invoke := fun callee args t =>
    if (.invoke callee args, t) = (q, s) then .error halt t else calls.invoke callee args t
  native := calls.native

theorem Calls.agree_failingAt (calls : Calls) (q : Request) (s : State) (halt : Halt ScriptError) :
    calls.AgreeWhere (fun q' s' => (q', s') ≠ (q, s)) (calls.failingAt q s halt) :=
  ⟨fun _ _ outside => (if_neg outside).symm, fun _ _ _ outside => (if_neg outside).symm, fun _ _ _ _ => rfl⟩

theorem Calls.failingAt_fails (nested : ∀ r args, q ≠ .native r args) :
    (calls.failingAt q s halt).Fails q s halt s := by
  cases q with
  | run f => exact .run (if_pos rfl)
  | invoke callee args => exact .invoke (if_pos rfl)
  | native r args => exact absurd rfl (nested r args)

/-- What comes to something else if a request fails in another way starts it. -/
theorem Starts.of_failingAt {ρ : Type} {x : Calls → ρ}
    (differ : x (calls.failingAt q s .exhausted) ≠ x (calls.failingAt q s (.failed .terminated))) :
    Starts x calls q s := by
  by_contra never
  have same (halt : Halt ScriptError) : x calls = x (calls.failingAt q s halt) :=
    Starts.without never (calls.agree_failingAt q s halt)
  exact differ ((same _).symm.trans (same _))

namespace Waits

variable {x : Calls → Exec ScriptError α} {f : α → Calls → Exec ScriptError β}

theorem invoke (callee : Value) (args : Arguments) (s : State) (calls : Calls) :
    Waits (fun calls => calls.invoke callee args) s calls (.invoke callee args) s := by
  intro other _ halt s₂ fails
  cases fails with
  | invoke failed => exact ⟨s₂, failed, .refl s₂⟩

/-- What runs a procedure if it finds one waits for that run. -/
theorem found {find : State → Except ScriptError (ProcedureId × ProgramId × Locals)} {id : ProcedureId}
    {program : ProgramId} {locals : Locals} (found : find s = .ok (id, program, locals)) :
    Waits (fun calls s => match find s with
      | .ok (id, program, locals) => calls.run (.enter s (s.store.procedure id) program locals) s
      | .error e => .error (.failed e) s) s calls (.run (.enter s (s.store.procedure id) program locals)) s := by
  intro other _ halt s₂ fails
  cases fails with
  | run failed =>
    dsimp only
    rw [found]
    exact ⟨s₂, failed, .refl s₂⟩

theorem holding {h : Hold} (waits : Waits x ⟨s.store, s.control.hold h⟩ calls q s₁) :
    Waits (fun calls => (x calls).holding h) s calls q s₁ := by
  intro other agree halt s₂ fails
  obtain ⟨s₃, failed, freed⟩ := waits other agree halt s₂ fails
  exact ⟨_, holding_eq_error_iff.mpr ⟨s₃, failed, rfl⟩, freed.letGo⟩

theorem bind (waits : Waits x s calls q s₁) : Waits (fun calls => x calls >>= (f · calls)) s calls q s₁ := by
  intro other agree halt s₂ fails
  obtain ⟨s₃, failed, freed⟩ := waits other agree halt s₂ fails
  exact ⟨s₃, bind_error failed, freed⟩

/-- What waits in the second part of a sequence waits in the whole, whether or not the first part does. -/
theorem after {a : α} (first : Starts (fun calls => x calls s) calls q s₁ → Waits x s calls q s₁)
    (run : x calls s = .ok a s') (waits : Waits (f a) s' calls q s₁) :
    Waits (fun calls => x calls >>= (f · calls)) s calls q s₁ := by
  by_cases starts : Starts (fun calls => x calls s) calls q s₁
  · exact (first starts).bind
  · intro other agree halt s₂ fails
    obtain ⟨s₃, failed, freed⟩ := waits other agree halt s₂ fails
    have same : x calls s = x other s := Starts.without starts agree
    exact ⟨s₃, (bind_ok (same ▸ run)).trans failed, freed⟩

/-- What waits for a run or a call fails with whatever that fails with. -/
theorem fails (waits : Waits x s calls q s₁) (nested : ∀ r args, q ≠ .native r args) (halt : Halt ScriptError) :
    ∃ s₃, x (calls.failingAt q s₁ halt) s = .error halt s₃ := by
  obtain ⟨s₃, here, _⟩ := waits _ (calls.agree_failingAt q s₁ halt) halt s₁ (Calls.failingAt_fails nested)
  exact ⟨s₃, here⟩

theorem starts (waits : Waits x s calls q s₁) (nested : ∀ r args, q ≠ .native r args) :
    Starts (fun calls => x calls s) calls q s₁ := by
  obtain ⟨_, first⟩ := waits.fails nested .exhausted
  obtain ⟨_, second⟩ := waits.fails nested (.failed .terminated)
  refine Starts.of_failingAt fun same => ?_
  rw [first, second] at same
  cases same

end Waits

namespace Relays

variable {K : State → State → Prop} {inv : Prop}

theorem never_invokes {x : Calls → Exec ScriptError α} (relays : Relays K AsksNatives False x) {callee : Value}
    {args : Arguments} : ¬ Starts (fun calls => x calls s) calls (.invoke callee args) s₁ := by
  induction relays generalizing s with
  | plain => exact Starts.not_const
  | located site composed =>
    intro starts
    obtain ⟨_, _, same⟩ := composed.only_native (starts.of_congr fun _ same => mapError_congr same)
    cases same
  | enter find _ =>
    intro starts
    obtain ⟨_, _, _, _, same, _⟩ := starts.found
    cases same
  | invoke _ _ may => exact may.elim
  | holding h _ ih =>
    intro starts
    exact ih (starts.of_congr fun _ same => holding_congr same)
  | bind _ _ first rest =>
    intro starts
    rcases starts.bind_cases with starts | ⟨a, s₂, _, starts⟩
    · exact first starts
    · exact rest a starts

/-- Without re-entry, a computation waits for every run that it starts. -/
theorem waits {x : Calls → Exec ScriptError α} (relays : Relays K AsksNatives inv x)
    (starts : Starts (fun calls => x calls s) calls q s₁) : Waits x s calls q s₁ := by
  induction relays generalizing s with
  | plain => exact absurd starts Starts.not_const
  | located site composed =>
    obtain ⟨_, _, rfl⟩ := composed.only_native (starts.of_congr fun _ same => mapError_congr same)
    rintro _ _ _ _ ⟨⟩
  | enter find _ =>
    obtain ⟨id, program, locals, found, rfl, rfl⟩ := starts.found
    exact Waits.found found
  | invoke callee args may =>
    obtain ⟨rfl, rfl⟩ := starts.invoke
    exact .invoke callee args _ _
  | holding h _ ih =>
    exact (ih (starts.of_congr fun _ same => holding_congr same)).holding
  | bind _ _ first rest =>
    rcases starts.bind_cases with starts | ⟨a, s', run, starts⟩
    · exact (first starts).bind
    · exact Waits.after (fun starts => first starts) run (rest a starts)

/-- Without re-entry, an error that is not passed on has not been seen by the error watcher. -/
theorem failed_cases {x : Calls → Exec ScriptError α} (relays : Relays K AsksNatives inv x)
    (failed : x calls s = .error halt s') :
    halt.IsUnreported ∨ ∃ q s₁ s₂, Waits x s calls q s₁ ∧ calls.Fails q s₁ halt s₂ := by
  induction relays generalizing s s' with
  | plain _ unreported =>
    refine .inl ?_
    rintro e rfl
    exact unreported s e s' failed
  | located site _ =>
    exact .inl (mapError_isUnreported failed)
  | enter find unreported =>
    dsimp only at failed
    cases found : find s with
    | error e =>
      rw [found] at failed
      cases failed
      refine .inl ?_
      rintro _ ⟨⟩
      exact unreported s e found
    | ok site =>
      rw [found] at failed
      exact .inr ⟨_, s, s', Waits.found found, .run failed⟩
  | invoke callee args may => exact .inr ⟨_, s, s', .invoke callee args s calls, .invoke failed⟩
  | holding h _ ih =>
    obtain ⟨s₃, inner, _⟩ := holding_eq_error_iff.mp failed
    exact (ih inner).imp_right fun ⟨q, s₁, s₂, waits, fails⟩ => ⟨q, s₁, s₂, waits.holding, fails⟩
  | bind first rest ih rest_ih =>
    rcases bind_eq_error_iff.mp failed with failed | ⟨a, s', run, failed⟩
    · exact (ih failed).imp_right fun ⟨q, s₁, s₂, waits, fails⟩ => ⟨q, s₁, s₂, waits.bind, fails⟩
    · exact (rest_ih a failed).imp_right fun ⟨q, s₁, s₂, waits, fails⟩ =>
        ⟨q, s₁, s₂, .after (fun starts => first.waits starts) run waits, fails⟩

/-- An error that the error watcher has seen is that of a run or a call that the computation waits for. -/
theorem failed_waits {x : Calls → Exec ScriptError α} (relays : Relays K AsksNatives inv x)
    (failed : x calls s = .error halt s') (reported : ¬ halt.IsUnreported) :
    ∃ q s₁ s₂, Waits x s calls q s₁ ∧ (∀ r args, q ≠ .native r args) ∧ calls.Fails q s₁ halt s₂ := by
  rcases relays.failed_cases failed with unreported | ⟨q, s₁, s₂, waits, fails⟩
  · exact absurd unreported reported
  · refine ⟨q, s₁, s₂, waits, ?_, fails⟩
    rintro r args rfl
    cases fails

end Relays

theorem Consults.composed {C : Conduct} {x : Calls → Exec RuntimeError α} (consults : Consults False x) :
    Composed Still C x := by
  induction consults with
  | plain still => exact .plain still
  | native r args => exact .native r args
  | invoke _ _ may => exact may.elim
  | attempt _ ih => exact .attempt ih
  | holding h _ ih => exact .holding h ih
  | bind _ _ first rest => exact .bind first rest

/-- Without re-entry, what has no place for its errors asks only for native functions. -/
theorem Consults.only_native {x : Calls → Exec RuntimeError α} (consults : Consults False x) : AsksNatives α x :=
  consults.composed.only_native

theorem Delegates.relays {C : Conduct} {inv : Prop} {x : Calls → Exec ScriptError α}
    (delegates : Delegates False inv x) : Relays Still C inv x := by
  induction delegates with
  | plain still unreported => exact .plain still unreported
  | located site consults => exact .located site consults.composed
  | enter find unreported => exact .enter find unreported
  | invoke callee args may => exact .invoke callee args may
  | holding h _ ih => exact .holding h ih
  | bind _ _ first rest => exact .bind first rest

end ScriptEngine
