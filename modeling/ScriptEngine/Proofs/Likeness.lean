import ScriptEngine.Engine
import ScriptEngine.Proofs.Accords
import ScriptEngine.Proofs.Unmarked

/-! # What the interpreter cannot tell apart

Two runs are compared by a relation between their states. Reading members, calling built-in functions, loading,
calling and sending names, and what a host asks of a program look at the store for anything but markers, and they
leave the control state to the frames that they run. So they come to the same from related states once this is shown
of runs of frames and of the functions of the host, for any relation between states that such pieces respect.
-/

namespace ScriptEngine

/-- A relation between states that the interpreter respects by itself: related stores differ at most in markers, what
is done to both stores, with a hold or with the output leaves the states related, and frames of one procedure that
are entered in related states are related by `P`. -/
structure State.Likeness (R : State → State → Prop) (P : Frame → Frame → Prop) : Prop where
  reads {s t : State} {β : Type} {f : Store → β} : R s t → Store.Blind f → f s.store = f t.store
  limits {s t : State} : R s t → s.control.limits = t.control.limits
  output {s t : State} : R s t → s.control.output = t.control.output
  changed {s t : State} {g : Store → Store} : Store.Natural g → R s t →
    R ⟨g s.store, s.control⟩ ⟨g t.store, t.control⟩
  hold {s t : State} (h : Hold) : R s t → R ⟨s.store, s.control.hold h⟩ ⟨t.store, t.control.hold h⟩
  letGo {s t : State} : R s t → R ⟨s.store, s.control.letGo⟩ ⟨t.store, t.control.letGo⟩
  prints {s t : State} (o : Output) : R s t →
    R ⟨s.store, { s.control with output := o }⟩ ⟨t.store, { t.control with output := o }⟩
  enters {s t : State} (id : ProcedureId) (program : ProgramId) (locals : Locals) : R s t →
    P (.enter s (s.store.procedure id) program locals) (.enter t (t.store.procedure id) program locals)

/-- Nested runs that come to the same from related states, if frames that are related run. -/
structure Calls.Likens (R : State → State → Prop) (P : Frame → Frame → Prop) (calls calls' : Calls) : Prop where
  run : ∀ f f', P f f' → Accords R Eq (calls.run f) (calls'.run f')
  invoke : ∀ callee args, Accords R Eq (calls.invoke callee args) (calls'.invoke callee args)
  native : ∀ r args, Accords R Eq (calls.native r args) (calls'.native r args)

/-- A host whose functions come to the same from related states, with some nested runs and with others. -/
structure Host.Likens (R : State → State → Prop) (host : Host) (calls calls' : Calls) : Prop where
  getMember : ∀ r object name,
    Accords R Eq (host.getMember calls r object name) (host.getMember calls' r object name)
  setMember : ∀ r object name v,
    Accords R Eq (host.setMember calls r object name v) (host.setMember calls' r object name v)
  callMethod : ∀ r object name args,
    Accords R Eq (host.callMethod calls r object name args) (host.callMethod calls' r object name args)
  call : ∀ r object args, Accords R Eq (host.call calls r object args) (host.call calls' r object args)
  native : ∀ name captured args,
    Accords R Eq (host.native calls name captured args) (host.native calls' name captured args)

/-- Two frames that see the same variables from the same place. -/
structure Frame.SameView (f f' : Frame) : Prop where
  locals : f.locals = f'.locals
  owner : f.owner = f'.owner
  program : f.program = f'.program
  site : f.site = f'.site

theorem Frame.SameView.refl (f : Frame) : f.SameView f := ⟨rfl, rfl, rfl, rfl⟩

section

variable {R : State → State → Prop} {P : Frame → Frame → Prop} {ε α : Type} {x y : Exec ε α}

namespace Exec

variable (like : State.Likeness R P)
include like

theorem readStore_accords {h : Store → α} (blind : Store.Blind h) :
    Accords R Eq (Exec.readStore h : Exec ε α) (Exec.readStore h) :=
  .get fun _ _ related => .pure (like.reads related blind)

theorem modifyStore_accords {h : Store → Store} (natural : Store.Natural h) :
    Accords R Eq (Exec.modifyStore h : Exec ε Unit) (Exec.modifyStore h) :=
  .changed fun _ _ related => like.changed natural related

theorem ofStore_accords {x : StoreM α} (natural : StoreM.Natural x) :
    Accords R Eq (Exec.ofStore x) (Exec.ofStore x) := by
  rintro ⟨store, control⟩ ⟨store', control'⟩ related
  have after := like.changed natural.final related
  have same := like.reads related natural.outcome
  unfold Exec.ofStore
  dsimp only at after same ⊢
  generalize x store = r, x store' = r' at after same
  cases r <;> cases r' <;> cases same
  · exact .ok after rfl
  · next halt _ _ =>
    cases halt with
    | failed e => exact .failed after
    | exhausted => exact .exhausted

theorem allocate_accords {h : Store → α × Store}
    (same : ∀ s : Store, h s.withoutMarkers = ((h s).1, (h s).2.withoutMarkers)) :
    Accords R Eq (Exec.allocate h : Exec ε α) (Exec.allocate h) := by
  have made : Store.Blind fun s => (h s).1 := fun s => by simp only [same]
  have after : Store.Natural fun s => (h s).2 := fun s => by simp only [same]
  exact fun _ _ related => .ok (like.changed after related) (like.reads related made)

theorem holding_accords {Q : α → α → Prop} {h : Hold} (accords : Accords R Q x y) :
    Accords R Q (x.holding h) (y.holding h) := by
  rintro ⟨store, control⟩ ⟨store', control'⟩ related
  have here := accords _ _ (like.hold h related)
  unfold Exec.holding
  dsimp only at here ⊢
  generalize x ⟨store, control.hold h⟩ = r, y ⟨store', control'.hold h⟩ = r' at here
  cases here with
  | ok after same => exact .ok (like.letGo after) same
  | failed after => exact .failed (like.letGo after)
  | exhausted => exact .exhausted
  | exhausted' => exact .exhausted'

theorem print_accords (line : String) :
    Accords R Eq (Exec.tryControl (·.print line)) (Exec.tryControl (·.print line)) := by
  refine tryControl_accords fun s t related => ?_
  unfold Control.print
  rw [like.output related]
  cases t.control.output.failure with
  | some reason => rfl
  | none => exact like.prints _ related

end Exec

end

section

variable {R : State → State → Prop} {P : Frame → Frame → Prop} {host : Host} {calls calls' : Calls}
  (like : State.Likeness R P) (hosted : host.Likens R calls calls') (nested : calls.Likens R P calls')

namespace Member

theorem plain?_blind (receiver : Value) (name : String) : Store.Blind (plain? · receiver name) := by
  intro s
  cases receiver with
  | inst r =>
    simp only [plain?, Store.classOf_withoutMarkers]
    rfl
  | classRef id => simp only [plain?, Store.classDef_withoutMarkers]
  | _ => rfl

section

include like hosted

theorem ofObject_accords (r : Ref .object) (name : String) :
    Accords R Eq (ofObject host calls r name) (ofObject host calls' r name) := by
  refine (Exec.readStore_accords like fun _ => rfl).bind_eq fun o => ?_
  cases o with
  | module title members =>
    dsimp only
    cases members.get? name with
    | some v => exact .pure rfl
    | none => exact .fail
  | host object => exact hosted.getMember _ _ _

theorem setOfObject_accords (r : Ref .object) (name : String) (v : Value) :
    Accords R Eq (setOfObject host calls r name v) (setOfObject host calls' r name v) := by
  refine (Exec.readStore_accords like fun _ => rfl).bind_eq fun o => ?_
  cases o with
  | module title members => exact .fail
  | host object => exact hosted.setMember _ _ _ _

theorem callObject_accords (r : Ref .object) (args : Arguments) :
    Accords R Eq (callObject host calls r args) (callObject host calls' r args) := by
  refine (Exec.readStore_accords like fun _ => rfl).bind_eq fun o => ?_
  cases o with
  | module title members => exact .fail
  | host object => exact hosted.call _ _ _

theorem get_accords (receiver : Value) (name : String) :
    Accords R Eq (get host calls receiver name) (get host calls' receiver name) := by
  unfold get
  split
  · exact ofObject_accords like hosted _ _
  · refine .get fun s t related => ?_
    dsimp only [id_eq, pure_bind]
    rw [like.reads related (plain?_blind receiver name),
      like.reads related (f := Store.typeName) Store.typeName_withoutMarkers]
    split
    · exact .pure rfl
    · exact .fail

theorem set_accords (receiver : Value) (name : String) (v : Value) :
    Accords R Eq (set host calls receiver name v) (set host calls' receiver name v) := by
  unfold set
  split
  · exact Exec.modifyStore_accords like fun _ => rfl
  · exact Exec.modifyStore_accords like (Store.setStatic_natural _ name v)
  · exact setOfObject_accords like hosted _ _ _
  · refine (Exec.readStore_accords like fun s => ?_).bind_eq fun kind => .fail
    rw [Store.typeName_withoutMarkers]

theorem inModules_accords (name : String) (modules : List Value) :
    Accords R Eq (inModules host calls name modules) (inModules host calls' name modules) := by
  induction modules with
  | nil => exact .pure rfl
  | cons m rest ih =>
    intro s t related
    have here := get_accords like hosted m name s t related
    unfold inModules
    generalize get host calls m name s = r, get host calls' m name t = r' at here
    cases here with
    | ok after same => exact .ok after (congrArg some same)
    | @failed e _ _ after =>
      cases e with
      | unknownMember => exact ih _ _ after
      | _ => exact .failed after
    | exhausted => exact .exhausted
    | exhausted' => exact .exhausted'

end

include like nested in
theorem callFound_accords (kind name : String) (member : Value) (args : Arguments) :
    Accords R Eq (Host.callFound calls kind name member args) (Host.callFound calls' kind name member args) := by
  unfold Host.callFound
  split
  · exact nested.native _ _
  · refine .get fun s t related => ?_
    rw [like.reads related (f := Store.typeName) Store.typeName_withoutMarkers]
    exact .fail

include like hosted nested in
theorem callOnObject_accords (r : Ref .object) (name : String) (args : Arguments) :
    Accords R Eq (callOnObject host calls r name args) (callOnObject host calls' r name args) := by
  refine (Exec.readStore_accords like fun _ => rfl).bind_eq fun o => ?_
  cases o with
  | module title members =>
    exact (ofObject_accords like hosted r name).bind_eq fun member => callFound_accords like nested _ _ _ _
  | host object => exact hosted.callMethod _ _ _ _

end Member

namespace Builtin

section

variable (s : Store)

@[simp] theorem rangeBounds_withoutMarkers : rangeBounds s.withoutMarkers = rangeBounds s := by
  funext args
  simp only [rangeBounds, Arguments.number_withoutMarkers]

@[simp] theorem mapEntries_withoutMarkers : mapEntries s.withoutMarkers = mapEntries s := by
  funext values
  simp only [mapEntries, Store.typeName_withoutMarkers]

@[simp] theorem extreme_withoutMarkers : extreme s.withoutMarkers = extreme s := by
  funext function pick args
  simp only [extreme, Arguments.number_withoutMarkers]

variable (rules : ObjectRules)

@[simp] theorem dictOf_withoutMarkers : dictOf rules s.withoutMarkers = dictOf rules s := by
  funext entries
  simp only [dictOf, Store.key_withoutMarkers, Store.sameKey_withoutMarkers]

@[simp] theorem keysOf_withoutMarkers : keysOf rules s.withoutMarkers = keysOf rules s := by
  funext values
  simp only [keysOf, Store.key_withoutMarkers, Store.sameKey_withoutMarkers]

end

section

include like

theorem textOf_accords (v : Value) : Accords R Eq (textOf host v) (textOf host v) := by
  refine .get fun s t related => ?_
  rw [like.reads related (f := (·.text? host.rules)) fun s => s.text?_withoutMarkers host.rules]
  exact Exec.ofStore_accords like (.ofOption _)

theorem printLine_accords (args : Arguments) : Accords R Eq (printLine host args) (printLine host args) := by
  refine (Exec.ofExcept_accords _).bind_eq fun values => ?_
  refine (Accords.mapM fun v => textOf_accords like v).bind_eq fun texts => ?_
  exact (Exec.print_accords like _).bind_eq fun _ => .pure rfl

end

include like hosted nested

theorem call_accords (b : Builtin) (args : Arguments) :
    Accords R Eq (call host calls b args) (call host calls' b args) := by
  refine .get fun s t related => ?_
  dsimp only
  cases b with
  | print => exact printLine_accords like args
  | str => exact (Exec.ofExcept_accords _).bind_eq fun v => (textOf_accords like v).bind_eq fun text => .pure rfl
  | len =>
    refine (Exec.ofExcept_accords _).bind_eq fun v => ?_
    cases v with
    | object r => exact Exec.holding_accords like (Member.callOnObject_accords like hosted nested _ _ _)
    | _ => exact Exec.ofStore_accords like (Method.call_natural _ _ _ _)
  | range =>
    rw [like.reads related (f := rangeBounds) rangeBounds_withoutMarkers, like.limits related]
    refine (Exec.ofExcept_accords _).bind_eq fun (start, stop, step) => ?_
    exact (Exec.ofExcept_accords _).bind_eq fun items => Exec.allocate_accords like fun _ => rfl
  | list => exact (Exec.ofExcept_accords _).bind_eq fun values => Exec.allocate_accords like fun _ => rfl
  | map =>
    rw [like.reads related (f := mapEntries) mapEntries_withoutMarkers,
      like.reads related (f := dictOf host.rules) fun s => dictOf_withoutMarkers s host.rules]
    refine (Exec.ofExcept_accords _).bind_eq fun values => ?_
    refine (Exec.ofExcept_accords _).bind_eq fun entries => ?_
    exact (Exec.ofExcept_accords _).bind_eq fun d => Exec.allocate_accords like fun _ => rfl
  | set =>
    rw [like.reads related (f := keysOf host.rules) fun s => keysOf_withoutMarkers s host.rules]
    refine (Exec.ofExcept_accords _).bind_eq fun values => ?_
    exact (Exec.ofExcept_accords _).bind_eq fun d => Exec.allocate_accords like fun _ => rfl
  | pair =>
    refine (Exec.ofExcept_accords _).bind_eq fun _ => (Exec.ofExcept_accords _).bind_eq fun _ => ?_
    refine (Exec.ofExcept_accords _).bind_eq fun first => (Exec.ofExcept_accords _).bind_eq fun second => ?_
    exact Exec.allocate_accords like fun _ => rfl
  | typeOf =>
    rw [like.reads related (f := Store.typeName) Store.typeName_withoutMarkers]
    exact (Exec.ofExcept_accords _).bind_eq fun v => .pure rfl
  | raise => exact (Exec.ofExcept_accords _).bind_eq fun v => (textOf_accords like v).bind_eq fun text => .fail
  | min | max =>
    rw [like.reads related (f := extreme) extreme_withoutMarkers]
    exact Exec.ofExcept_accords _

end Builtin

namespace Invoke

theorem answer_blind (receiver : Value) (name : String) : Store.Blind (answer · receiver name) := by
  intro s
  cases receiver with
  | inst r =>
    simp only [answer, Store.classOf_withoutMarkers]
    rfl
  | classRef id => simp only [answer, Store.classDef_withoutMarkers]
  | _ => rfl

section

include like nested

theorem procedure_accords (site : Site) (id : ProcedureId) (receiver : Option Value) (args : Arguments) :
    Accords R Eq (procedure calls site id receiver args) (procedure calls' site id receiver args) := by
  have entered : Accords R P (enter site id receiver args) (enter site id receiver args) := by
    refine .get fun s t related => ?_
    have released := like.reads related (.program (f := Program.released) (fun _ => rfl) id.program)
    have name := like.reads related (.procedure (f := Procedure.name) (fun _ => rfl) id)
    have params := like.reads related (.procedure (f := Procedure.params) (fun _ => rfl) id)
    dsimp only at released name params ⊢
    rw [released, name, params]
    split
    · exact .fail
    · exact (Exec.ofExcept_accords _).bind_eq fun bound => .pure (like.enters _ _ _ related)
  exact entered.bind nested.run

theorem instantiate_accords (site : Site) (id : ClassId) (args : Arguments) :
    Accords R Eq (instantiate calls site id args) (instantiate calls' site id args) := by
  refine (Exec.readStore_accords like fun s => s.classDef_withoutMarkers id).bind_eq fun c => ?_
  refine (Exec.allocate_accords like fun _ => rfl).bind_eq fun made => ?_
  split
  · exact (Exec.holding_accords like (procedure_accords like nested _ _ _ _)).bind_eq fun _ => .pure rfl
  · split
    · exact .pure rfl
    · exact .fail

include hosted

theorem native_accords (r : Ref .native) (args : Arguments) :
    Accords R Eq (native host calls r args) (native host calls' r args) := by
  refine (Exec.readStore_accords like fun _ => rfl).bind_eq fun f => ?_
  split
  · exact Builtin.call_accords like hosted nested _ _
  · exact hosted.native _ _ _

theorem value_accords (site : Site) (callee : Value) (receiver : Option Value) (args : Arguments) :
    Accords R Eq (value host calls site callee receiver args) (value host calls' site callee receiver args) := by
  refine Exec.holding_accords like ?_
  cases callee with
  | procedure id => exact procedure_accords like nested _ _ _ _
  | method bound id => exact procedure_accords like nested _ _ _ _
  | classRef id => exact instantiate_accords like nested _ _ _
  | native f => exact Exec.mapError_accords (native_accords like hosted nested _ _)
  | object r => exact Exec.mapError_accords (Member.callObject_accords like hosted _ _)
  | _ =>
    refine (Exec.readStore_accords like fun s => ?_).bind_eq fun kind => .fail
    rw [Store.typeName_withoutMarkers]

theorem send_accords (site : Site) (receiver : Value) (name : String) (args : Arguments) :
    Accords R Eq (send host calls site receiver name args) (send host calls' site receiver name args) := by
  refine Exec.holding_accords like ((Exec.readStore_accords like (answer_blind receiver name)).bind_eq fun found => ?_)
  cases found with
  | callable callee this => exact value_accords like hosted nested _ _ _ _
  | method id => exact procedure_accords like nested _ _ _ _
  | hosted r => exact Exec.mapError_accords (Member.callOnObject_accords like hosted nested _ _ _)
  | builtin => exact Exec.mapError_accords (Exec.ofStore_accords like (Method.call_natural _ _ _ _))

end

end Invoke

namespace Name

/-- What a name means to a frame does not depend on markers. -/
theorem lookup_blind (f : Frame) (name : String) : Store.Blind (f.lookup · name) := by
  intro s
  simp only [Frame.lookup, Frame.static?, Store.classDef_withoutMarkers, Store.program_withoutMarkers]
  rfl

variable {f f' : Frame} (view : f.SameView f')
include like hosted view

theorem resolve_accords (name : String) :
    Accords R Eq (resolve host calls f name) (resolve host calls' f' name) := by
  refine .get fun s t related => ?_
  have meaning : f.lookup s.store name = f'.lookup t.store name := by
    rw [like.reads related (lookup_blind f name)]
    simp only [Frame.lookup, Frame.static?, view.locals, view.owner, view.program]
  have modules := like.reads related (.program (f := Program.modules) (fun _ => rfl) f.program)
  rw [meaning, modules, view.program]
  split
  · exact .pure rfl
  · refine (Member.inModules_accords like hosted _ _).bind_eq fun found => ?_
    cases found with
    | some v => exact .pure rfl
    | none =>
      dsimp only
      split <;> exact .pure rfl

theorem load_accords (name : String) : Accords R Eq (load host calls f name) (load host calls' f' name) := by
  refine (resolve_accords like hosted view name).bind_eq fun meaning => ?_
  cases meaning with
  | value v => exact .pure rfl
  | builtin b => exact Exec.allocate_accords like fun _ => rfl
  | unknown => exact .fail

include nested

theorem call_accords (name : String) (args : Arguments) :
    Accords R Eq (call host calls f name args) (call host calls' f' name args) := by
  unfold call
  rw [view.site]
  refine (Exec.mapError_accords (resolve_accords like hosted view name)).bind_eq fun meaning => ?_
  split
  · exact Invoke.value_accords like hosted nested _ _ _ _
  · exact (Exec.ofExcept_accords _).bind_eq fun receiver => Invoke.send_accords like hosted nested _ _ _ _
  · exact Exec.mapError_accords (Builtin.call_accords like hosted nested _ _)
  · exact .fail

end Name

theorem Engine.check_accords (like : State.Likeness R P) (id : ProgramId) :
    Accords R Eq (Engine.check id) (Engine.check id) := by
  refine (Exec.readStore_accords like (.program (f := Program.failure) (fun _ => rfl) id)).bind_eq fun failure => ?_
  split
  · exact .fail
  · exact .pure rfl

section

include like nested

theorem Calls.start_accords (id : ProgramId) : Accords R Eq (calls.start id) (calls'.start id) := by
  have topLevel (p : ProcedureId) : Accords R Eq (calls.runTopLevel id p) (calls'.runTopLevel id p) :=
    .get fun s t related => (nested.run _ _ (like.enters _ _ _ related)).bind_eq fun _ => .pure rfl
  refine (Engine.check_accords like id).bind_eq fun _ => .get fun s t related => ?_
  have initialized := like.reads related (.program (f := Program.initialized) (fun _ => rfl) id)
  have procedures := like.reads related
    (.program (f := fun p => p.classSetups ++ p.topLevel.toList) (fun _ => rfl) id)
  dsimp only [pure_bind]
  rw [initialized, procedures]
  split
  · exact .pure rfl
  · refine (Exec.modifyStore_accords like ?_).bind_eq fun _ => .forM topLevel
    exact Store.modifyProgram_natural id fun _ => rfl

theorem Calls.callMember_accords (id : ProgramId) (name : String) (args : Arguments) :
    Accords R Eq (calls.callMember id name args) (calls'.callMember id name args) := by
  refine (start_accords like nested id).bind_eq fun _ => ?_
  refine Accords.bind_eq ((Engine.check_accords like id).bind_eq fun _ =>
    Exec.readStore_accords like (.program (f := fun p => p.members.get? name) (fun _ => rfl) id)) fun callee => ?_
  cases callee with
  | some callee => exact nested.invoke callee args
  | none =>
    refine (Exec.readStore_accords like (.program (f := Program.file) (fun _ => rfl) id)).bind_eq fun file => ?_
    exact .fail

theorem Operation.perform_accords (op : Operation) (id : ProgramId) :
    Accords R Eq (op.perform calls id) (op.perform calls' id) := by
  cases op with
  | start => exact (Calls.start_accords like nested id).bind_eq fun _ => .pure rfl
  | callMember name args => exact Calls.callMember_accords like nested id name args
  | invoke callee args => exact nested.invoke callee args

end

end

end ScriptEngine
