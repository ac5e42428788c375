import ScriptEngine.Proofs.Layout
import ScriptEngine.Proofs.Methods
import ScriptEngine.Proofs.Turns
import ScriptEngine.Run.Name

/-! # Calls stay in a zone

Loading, calling and sending within a zone stays in it, as long as the host and the nested runs do: they
yield what the zone owns, leave the store settled, and end in no errors but those of the zone. Of a host this is
assumed, of nested runs it is proved later by induction on how deep they nest.
-/

namespace ScriptEngine

/-- An error that does not tell of a broken invariant. -/
def ScriptError.IsOrderly (e : ScriptError) : Prop := ∀ what, e ≠ .internal what

/-- Procedures that a frame can run: compiled code that does not call `set` by name and gives every member
access a name, with the statics of a class of its own program. -/
structure Procedure.Sound (program : ProgramId) (p : Procedure) : Prop where
  layout : Nonempty (Layout p.code)
  named : ∀ site, .send site ∈ p.code → site.name = "getMember" ∨ site.name = "setMember" →
    site.argc ≠ 0
  owner : ∀ c, p.owner = some c → c.program = program

/-- Top-level code has no variables of its own but those that the compiler made up. -/
def Frame.OwnsHidden (f : Frame) : Prop :=
  ∀ hidden, f.locals = .topLevel hidden → ∀ name, hidden.contains name = true → isHidden name = true

namespace Zone

variable (z : Zone) {α ε : Type}

/-- The procedures that can be called fit, and no frame sees the statics of a class of another program. Only
errors that tell of a broken invariant may be missing. -/
structure Sound : Prop where
  code : ∀ id, z.runs id → z.fits (z.procedures.getD id.index default)
  owner : ∀ p, z.fits p → ∀ c, p.owner = some c → c.program = z.program
  orderly : ∀ e : ScriptError, e.IsOrderly → z.errors e

/-- A computation that keeps the store settled, with errors of some kind. -/
abbrev Runs (E : ε → Prop) (x y : Exec ε α) (Q : α → Prop) : Prop :=
  Keeps (State.With z.Settled) E x y Q

/-- Run-time errors break no invariant. -/
abbrev Asks (x y : Exec RuntimeError α) (Q : α → Prop) : Prop := z.Runs (fun _ => True) x y Q

/-- A call that ends in no errors but those of the zone. -/
abbrev Performs (x y : Exec ScriptError α) (Q : α → Prop) : Prop := z.Runs z.errors x y Q

/-- A frame that holds and sees nothing outside of the zone, and runs a procedure that fits. -/
structure OwnsFrame (f : Frame) : Prop where
  fits : z.fits f.procedure
  constants : ∀ h ∈ f.procedure.holders, z.Has h
  owner : ∀ c, f.owner = some c → c.program = z.program
  program : f.program = z.program
  locals : z.OwnsTable f.locals.table
  hidden : f.OwnsHidden
  stack : ∀ v ∈ f.stack.items, z.Owns v

/-- Nested runs that stay in the zone, and others that agree with them there. -/
structure OwnsCalls (calls calls' : Calls) : Prop where
  run : ∀ f, z.OwnsFrame f → f.IsFresh f.procedure → z.Performs (calls.run f) (calls'.run f) z.Owns
  invoke : ∀ callee args, z.Owns callee → z.OwnsArguments args →
    z.Performs (calls.invoke callee args) (calls'.invoke callee args) z.Owns
  native : ∀ (r : Ref .native) args, z.cells .native r.index → z.OwnsArguments args →
    z.Asks (calls.native r args) (calls'.native r args) z.Owns

/-- A host that stays in the zone: its functions and objects yield and write nothing from outside, start no
run of anything from outside, and leave the program alive and its code alone, if the runs that they start
do. -/
structure OwnsHost (host : Host) : Prop where
  getMember : ∀ {calls calls'} (r : Ref .object) object name, z.OwnsCalls calls calls' →
    z.cells .object r.index → z.OwnsObject (.host object) →
    z.Asks (host.getMember calls r object name) (host.getMember calls' r object name) z.Owns
  setMember : ∀ {calls calls'} (r : Ref .object) object name v, z.OwnsCalls calls calls' →
    z.cells .object r.index → z.OwnsObject (.host object) → z.Owns v →
    z.Asks (host.setMember calls r object name v) (host.setMember calls' r object name v) fun _ => True
  callMethod : ∀ {calls calls'} (r : Ref .object) object name args, z.OwnsCalls calls calls' →
    z.cells .object r.index → z.OwnsObject (.host object) → z.OwnsArguments args →
    z.Asks (host.callMethod calls r object name args) (host.callMethod calls' r object name args) z.Owns
  call : ∀ {calls calls'} (r : Ref .object) object args, z.OwnsCalls calls calls' →
    z.cells .object r.index → z.OwnsObject (.host object) → z.OwnsArguments args →
    z.Asks (host.call calls r object args) (host.call calls' r object args) z.Owns
  native : ∀ {calls calls'} name captured args, z.OwnsCalls calls calls' →
    (∀ v ∈ captured, z.Owns v) → z.OwnsArguments args →
    z.Asks (host.native calls name captured args) (host.native calls' name captured args) z.Owns

end Zone

variable {z : Zone} {host : Host} {calls calls' : Calls} {args : Arguments} {name : String}

namespace Member

theorem readObject_asks {r : Ref .object} (has : z.cells .object r.index) :
    z.Asks (Exec.readStore (·.object r)) (Exec.readStore (·.object r)) z.OwnsObject :=
  Exec.readStore_keeps fun _ settled => settled.object has

theorem ofObject_asks (tame : z.OwnsHost host) (nested : z.OwnsCalls calls calls') {r : Ref .object}
    (has : z.cells .object r.index) : z.Asks (ofObject host calls r name) (ofObject host calls' r name) z.Owns := by
  refine (readObject_asks has).bind fun o owned => ?_
  split
  · next title members =>
    cases found : members.get? name with
    | none => exact .fail trivial
    | some v => exact .pure ((Zone.ownsTable_iff.mpr owned).get found)
  · exact tame.getMember _ _ _ nested has owned

theorem setOfObject_asks (tame : z.OwnsHost host) (nested : z.OwnsCalls calls calls') {r : Ref .object}
    (has : z.cells .object r.index) {v : Value} (here : z.Owns v) :
    z.Asks (setOfObject host calls r name v) (setOfObject host calls' r name v) fun _ => True := by
  refine (readObject_asks has).bind fun o owned => ?_
  split
  · exact .fail trivial
  · exact tame.setMember _ _ _ _ nested has owned here

theorem callFound_asks (nested : z.OwnsCalls calls calls') {kind : String} {member : Value}
    (here : z.Owns member) (owned : z.OwnsArguments args) :
    z.Asks (Host.callFound calls kind name member args) (Host.callFound calls' kind name member args) z.Owns := by
  unfold Host.callFound
  split
  · exact nested.native _ _ ((Zone.owns_native _).mp here) owned
  · exact Keeps.get.bind fun _ _ => .fail trivial

theorem callOnObject_asks (tame : z.OwnsHost host) (nested : z.OwnsCalls calls calls') {r : Ref .object}
    (has : z.cells .object r.index) (owned : z.OwnsArguments args) :
    z.Asks (callOnObject host calls r name args) (callOnObject host calls' r name args) z.Owns := by
  refine (readObject_asks has).bind fun o object => ?_
  split
  · exact (ofObject_asks tame nested has).bind fun member here => callFound_asks nested here owned
  · exact tame.callMethod _ _ _ _ nested has object owned

theorem callObject_asks (tame : z.OwnsHost host) (nested : z.OwnsCalls calls calls') {r : Ref .object}
    (has : z.cells .object r.index) (owned : z.OwnsArguments args) :
    z.Asks (callObject host calls r args) (callObject host calls' r args) z.Owns := by
  refine (readObject_asks has).bind fun o object => ?_
  split
  · exact .fail trivial
  · exact tame.call _ _ _ nested has object owned

/-- What is read from a value of the zone without asking the host. -/
theorem plain?_owned {s : Store} (settled : z.Settled s) {receiver v : Value}
    (here : z.Owns receiver) (found : plain? s receiver name = some v) : z.Owns v := by
  unfold plain? at found
  split at found
  · next r =>
    have has := (Zone.owns_inst r).mp here
    cases own : (s.inst r).members.get? name with
    | some w =>
      simp only [own] at found
      cases found
      exact (settled.inst has).get own
    | none =>
      simp only [own] at found
      obtain ⟨id, method, rfl⟩ := Option.map_eq_some_iff.mp found
      exact (Zone.owns_method _ _).mpr ⟨(settled.classOf has).method method, here⟩
  · next id => exact (settled.classDef ((Zone.owns_classRef id).mp here)).statics.get found
  · obtain ⟨left, right⟩ := (Zone.owns_pair _ _ _).mp here
    split at found
    · cases found
      exact left
    · split at found
      · cases found
        exact right
      · cases found
  · cases found

theorem get_asks (tame : z.OwnsHost host) (nested : z.OwnsCalls calls calls') {receiver : Value}
    (here : z.Owns receiver) : z.Asks (get host calls receiver name) (get host calls' receiver name) z.Owns := by
  unfold get
  split
  · next r => exact ofObject_asks tame nested ((Zone.owns_object r).mp here)
  · refine (Exec.readStore_keeps (Q := z.Settled) fun _ settled => settled).bind fun s settled => ?_
    cases found : plain? s receiver name with
    | none => exact .fail trivial
    | some v => exact .pure (plain?_owned settled here found)

theorem set_asks (tame : z.OwnsHost host) (nested : z.OwnsCalls calls calls') {receiver v : Value}
    (here : z.Owns receiver) (owned : z.Owns v) :
    z.Asks (set host calls receiver name v) (set host calls' receiver name v) fun _ => True := by
  unfold set
  split
  · exact Exec.modifyStore_keeps fun _ settled => settled.setField owned
  · exact Exec.modifyStore_keeps fun _ settled => settled.setStatic owned
  · next r => exact setOfObject_asks tame nested ((Zone.owns_object r).mp here) owned
  · exact (Exec.readStore_keeps (Q := fun _ => True) fun _ _ => trivial).bind fun _ _ =>
      .fail trivial

theorem inModules_asks (tame : z.OwnsHost host) (nested : z.OwnsCalls calls calls') {modules : List Value}
    (owned : ∀ v ∈ modules, z.Owns v) :
    z.Asks (inModules host calls name modules) (inModules host calls' name modules)
      fun found => ∀ v, found = some v → z.Owns v := by
  induction modules with
  | nil => exact .pure (by simp)
  | cons m rest ih =>
    intro s settled
    have read : z.Asks (get host calls m name) (get host calls' m name) z.Owns :=
      get_asks tame nested (owned m List.mem_cons_self)
    obtain ⟨same, after⟩ := read s settled
    have others := ih fun v member => owned v (List.mem_cons_of_mem _ member)
    unfold inModules
    rw [← same]
    cases run : get host calls m name s with
    | ok v s' =>
      rw [run] at after
      refine ⟨rfl, after.1, ?_⟩
      rintro w ⟨⟩
      exact after.2
    | error halt s' =>
      rw [run] at after
      cases halt with
      | exhausted => exact ⟨rfl, after⟩
      | failed e =>
        cases e with
        | unknownMember => exact others s' after.1
        | _ => exact ⟨rfl, after⟩

end Member

namespace Builtin

theorem textOf_asks (v : Value) : z.Asks (textOf host v) (textOf host v) fun _ => True :=
  Keeps.get.bind fun _ _ => Exec.ofStore_keeps (StoreM.ofOption_keeps fun _ _ => trivial)

theorem printLine_asks : z.Asks (printLine host args) (printLine host args) z.Owns := by
  refine (Exec.ofExcept_keeps .anything fun _ _ => trivial).bind fun values _ => ?_
  refine (Keeps.mapM fun v => textOf_asks v).bind fun texts _ => ?_
  exact (Exec.tryControl_keeps fun _ _ _ => trivial).bind fun _ _ => .pure Zone.owns_null

/-- The elements of a range are numbers. -/
theorem rangeItems_grants (z : Zone) {start stop step : Float} {limit : Nat} :
    Grants (rangeItems start stop step limit) fun items => ∀ v ∈ items, z.Owns v := by
  unfold rangeItems
  split
  · exact .error
  · dsimp only
    split
    · exact .error
    · split
      · exact .error
      · refine .ok fun v member => ?_
        obtain ⟨i, _, rfl⟩ := List.mem_map.mp member
        exact Zone.owns_number _

theorem mapEntries_grants {s : Store} {values : List Value} (owned : ∀ v ∈ values, z.Owns v) :
    Grants (mapEntries s values) fun entries => ∀ e ∈ entries, z.Owns e.1 ∧ z.Owns e.2 := by
  unfold mapEntries
  induction values with
  | nil => exact .pure (by simp)
  | cons v rest ih =>
    rw [List.mapM_cons]
    have others := ih fun w member => owned w (List.mem_cons_of_mem _ member)
    have here := owned v List.mem_cons_self
    refine .bind (Q := fun e => z.Owns e.1 ∧ z.Owns e.2) ?_ fun e first => ?_
    · split
      · exact .pure ((Zone.owns_pair _ _ _).mp here)
      · exact .error
    · exact others.bind fun es all => .pure (List.forall_mem_cons.mpr ⟨first, all⟩)

theorem dictOf_grants {rules : ObjectRules} {s : Store} {entries : List (Value × Value)}
    (owned : ∀ e ∈ entries, z.Owns e.1 ∧ z.Owns e.2) :
    Grants (dictOf rules s entries) z.OwnsMap := by
  have fold (d : Dict Key Value) (start : z.OwnsMap d) : Grants (entries.foldlM (fun d e => do
      let key ← s.key rules e.1
      pure (d.insert (s.sameKey rules) key e.2)) d) z.OwnsMap := by
    induction entries generalizing d with
    | nil => exact .pure start
    | cons e rest ih =>
      rw [List.foldlM_cons]
      have first := owned e List.mem_cons_self
      refine .bind (Q := z.OwnsMap) ?_ fun d' old =>
        ih (fun e member => owned e (List.mem_cons_of_mem _ member)) d' old
      exact .bind (Method.key_grants first.1) fun key keyed => .pure (start.insert keyed first.2)
  exact fold _ (by simp [Zone.OwnsMap, Dict.empty])

theorem keysOf_grants {rules : ObjectRules} {s : Store} {values : List Value}
    (owned : ∀ v ∈ values, z.Owns v) : Grants (keysOf rules s values) z.OwnsSet := by
  have fold (d : Dict Key Unit) (start : z.OwnsSet d) : Grants (values.foldlM (fun d v => do
      let key ← s.key rules v
      pure (d.insert (s.sameKey rules) key ())) d) z.OwnsSet := by
    induction values generalizing d with
    | nil => exact .pure start
    | cons v rest ih =>
      rw [List.foldlM_cons]
      refine .bind (Q := z.OwnsSet) ?_ fun d' old =>
        ih (fun w member => owned w (List.mem_cons_of_mem _ member)) d' old
      exact .bind (Method.key_grants (owned v List.mem_cons_self)) fun key keyed =>
        .pure (start.insert keyed)
  exact fold _ (by simp [Zone.OwnsSet, Dict.empty])

theorem extreme_grants {s : Store} {function : String} {pick : Float → Float → Float} :
    Grants (extreme s function pick args) z.Owns :=
  .bind .anything fun _ _ => .bind .anything fun _ _ => .bind .anything fun _ _ =>
    .pure (Zone.owns_number _)

/-- Checks of arguments change nothing. -/
theorem checked {α : Type} {c : Except RuntimeError α} {Q : α → Prop} (grants : Grants c Q) :
    z.Asks (Exec.ofExcept c) (Exec.ofExcept c) Q := Exec.ofExcept_keeps grants fun _ _ => trivial

theorem call_asks (tame : z.OwnsHost host) (nested : z.OwnsCalls calls calls') (b : Builtin)
    (owned : z.OwnsArguments args) : z.Asks (call host calls b args) (call host calls' b args) z.Owns := by
  refine Keeps.get.bind fun s _ => ?_
  dsimp only
  split
  · exact printLine_asks
  · refine (checked .anything).bind fun v _ => (textOf_asks v).bind fun text _ => ?_
    exact .pure (Zone.owns_string _)
  · refine (checked (Arguments.single_grants owned _)).bind fun v here => ?_
    have none : z.OwnsArguments [] := by simp [Zone.OwnsArguments]
    split
    · exact Exec.holding_keeps (Member.callOnObject_asks tame nested ((Zone.owns_object _).mp here) none)
    · exact Exec.ofStore_keeps (Method.call_tends _ here none)
  · refine (checked .anything).bind fun (start, stop, step) _ => ?_
    refine (checked (rangeItems_grants z)).bind fun items all => ?_
    exact Exec.allocate_keeps fun _ settled =>
      settled.addList fun v member => all v (List.mem_toArray.mp member)
  · refine (checked (Arguments.withoutKeywords_grants owned _)).bind fun values all => ?_
    exact Exec.allocate_keeps fun _ settled =>
      settled.addList fun v member => all v (List.mem_toArray.mp member)
  · refine (checked (Arguments.withoutKeywords_grants owned _)).bind fun values all => ?_
    refine (checked (mapEntries_grants all)).bind fun entries all => ?_
    refine (checked (dictOf_grants all)).bind fun d all => ?_
    exact Exec.allocate_keeps fun _ settled => settled.addMap all
  · refine (checked (Arguments.withoutKeywords_grants owned _)).bind fun values all => ?_
    refine (checked (keysOf_grants all)).bind fun d all => ?_
    exact Exec.allocate_keeps fun _ settled => settled.addSet all
  · refine (checked .anything).bind fun _ _ => (checked .anything).bind fun _ _ => ?_
    refine (checked (Arguments.expect_grants owned _ 0)).bind fun first left => ?_
    refine (checked (Arguments.expect_grants owned _ 1)).bind fun second right => ?_
    exact Exec.allocate_keeps fun _ settled => settled.addPair left right
  · exact (checked .anything).bind fun v _ => .pure (Zone.owns_string _)
  · refine (checked .anything).bind fun v _ => (textOf_asks v).bind fun text _ => ?_
    exact .fail trivial
  · exact checked extreme_grants
  · exact checked extreme_grants

end Builtin

namespace Binding

variable {function : String} {params : List Parameter}

/-- Slots whose values hold nothing outside of a zone. -/
def OwnsSlots (z : Zone) (slots : Slots) : Prop := ∀ v, some v ∈ slots → z.Owns v

theorem set_owned {slots : Slots} (owned : OwnsSlots z slots) {v : Value} (here : z.Owns v)
    (index : Nat) : OwnsSlots z (slots.set index (some v)) := by
  intro w member
  rcases List.mem_or_eq_of_mem_set member with member | same
  · exact owned w member
  · cases same
    exact here

theorem bindKeyword_grants {slots : Slots} (owned : OwnsSlots z slots) {v : Value}
    (here : z.Owns v) : Grants (bindKeyword function params slots name v) (OwnsSlots z) := by
  unfold bindKeyword
  split
  · exact .error
  · split
    · exact .error
    · exact .ok (set_owned owned here _)

theorem bindArguments_grants {slots : Slots} {position : Nat} {keywordSeen : Bool}
    (all : z.OwnsArguments args) (owned : OwnsSlots z slots) :
    Grants (bindArguments function params position keywordSeen slots args) (OwnsSlots z) := by
  induction args generalizing slots position keywordSeen with
  | nil =>
    rw [bindArguments]
    exact .ok owned
  | cons a rest ih =>
    obtain ⟨keyword, v⟩ := a
    have here : z.Owns v := all ⟨keyword, v⟩ List.mem_cons_self
    have others : z.OwnsArguments rest := fun a member => all a (List.mem_cons_of_mem _ member)
    cases keyword with
    | none =>
      rw [bindArguments]
      split
      · exact .error
      · exact ih others (set_owned owned here _)
    | some keyword =>
      rw [bindArguments]
      exact (bindKeyword_grants owned here).bind fun slots owned => ih others owned

theorem complete_grants {slots : Slots} (owned : OwnsSlots z slots)
    (defaults : ∀ p ∈ params, ∀ v, p.default = some v → z.Owns v) :
    Grants (complete function params slots) fun entries => ∀ e ∈ entries, z.Owns e.2 := by
  induction params generalizing slots with
  | nil =>
    rw [complete.eq_def]
    exact .ok (by simp)
  | cons p rest ih =>
    cases slots with
    | nil =>
      rw [complete.eq_def]
      exact .ok (by simp)
    | cons slot slots =>
      rw [complete]
      split
      · next v found =>
        have here : z.Owns v := by
          cases slot with
          | some w =>
            cases found
            exact owned _ List.mem_cons_self
          | none => exact defaults p List.mem_cons_self v found
        have others : Grants (complete function rest slots) fun entries =>
            ∀ entry ∈ entries, z.Owns entry.2 :=
          ih (fun w member => owned w (List.mem_cons_of_mem _ member))
            fun q member => defaults q (List.mem_cons_of_mem _ member)
        exact others.bind (f := fun entries => .ok ((p.name, v) :: entries)) fun entries all =>
          .ok (List.forall_mem_cons.mpr ⟨here, all⟩)
      · exact .error

theorem bind_grants (all : z.OwnsArguments args)
    (defaults : ∀ p ∈ params, ∀ v, p.default = some v → z.Owns v) :
    Grants (Binding.bind function params args) z.OwnsTable := by
  unfold Binding.bind
  split
  · exact .error
  · have empty : OwnsSlots z (params.map fun _ => none) := by
      intro v member
      obtain ⟨_, _, same⟩ := List.mem_map.mp member
      cases same
    refine (bindArguments_grants all empty).bind fun slots owned => ?_
    exact (complete_grants owned defaults).bind fun entries owned => .pure (.ofList owned)

end Binding

theorem Procedure.sound_default (program : ProgramId) : (default : Procedure).Sound program where
  layout := ⟨⟨fun _ => .start, rfl, rfl, fun _ _ found => by cases found⟩⟩
  named := fun _ member => absurd member (Array.not_mem_empty _)
  owner := fun _ same => by cases same

/-- A procedure that can be called fits. -/
theorem Zone.Settled.fits {s : Store} (settled : z.Settled s) (sound : z.Sound) {id : ProcedureId}
    (here : z.runs id) : z.fits (s.procedure id) := by
  rw [Store.procedure, z.own id here, settled.code]
  exact sound.code id here

theorem Zone.Settled.constants {s : Store} (settled : z.Settled s) {id : ProcedureId}
    (here : z.runs id) : ∀ h ∈ (s.procedure id).holders, z.Has h :=
  settled.held (.procedure id) here

theorem defaults_owned {p : Procedure} (constants : ∀ h ∈ p.holders, z.Has h) :
    ∀ q ∈ p.params, ∀ v, q.default = some v → z.Owns v := by
  intro q member v same h here
  refine constants h (List.mem_append_left _ (List.mem_flatMap.mpr ⟨q, member, ?_⟩))
  rw [same]
  simpa using here

theorem constant_owned {p : Procedure} (constants : ∀ h ∈ p.holders, z.Has h) {v : Value}
    (member : .value v ∈ p.code) : z.Owns v := by
  intro h here
  refine constants h (List.mem_append_right _ (List.mem_flatMap.mpr ⟨.value v, ?_, here⟩))
  exact Array.mem_toList_iff.mpr member

theorem Frame.enter_owned {s : State} {p : Procedure} {locals : Locals} (sound : z.Sound) (fits : z.fits p)
    (constants : ∀ h ∈ p.holders, z.Has h) (owned : z.OwnsTable locals.table)
    (empty : ∀ hidden, locals = .topLevel hidden → hidden = .empty) : z.OwnsFrame (.enter s p z.program locals) where
  fits := fits
  constants := constants
  owner := fun c same => sound.owner p fits c (Option.filter_eq_some_iff.mp same).1
  program := rfl
  locals := owned
  hidden := fun hidden same name has => by
    cases empty hidden same
    cases has
  stack := fun _ member => by cases member

theorem Frame.enter_fresh (s : State) (p : Procedure) (program : ProgramId) (locals : Locals) :
    (Frame.enter s p program locals).IsFresh p := ⟨rfl, rfl, rfl, rfl⟩

namespace Invoke

variable {site : Site}

theorem native_asks (tame : z.OwnsHost host) (nested : z.OwnsCalls calls calls') {f : Ref .native}
    (has : z.cells .native f.index) (owned : z.OwnsArguments args) :
    z.Asks (native host calls f args) (native host calls' f args) z.Owns := by
  refine (Exec.readStore_keeps (Q := z.OwnsNative) fun _ settled => settled.native has).bind
    fun target held => ?_
  split
  · exact Builtin.call_asks tame nested _ owned
  · next captured body =>
    refine tame.native _ _ _ nested (fun v member h here => held h ?_) owned
    rw [Native.holders, body]
    exact List.mem_flatMap.mpr ⟨v, member, here⟩

theorem located_errors (sound : z.Sound) (site : Site) (e : RuntimeError) : z.errors (site.locate e) :=
  sound.orderly _ (by rintro what ⟨⟩)

/-- An error with a place breaks no invariant. -/
theorem located_performs {α : Type} {x y : Exec RuntimeError α} {Q : α → Prop} (sound : z.Sound)
    (kept : z.Asks x y Q) : z.Performs (x.mapError site.locate) (y.mapError site.locate) Q :=
  Exec.mapError_keeps kept fun e _ => located_errors sound site e

theorem checked_performs {α : Type} {c : Except RuntimeError α} {Q : α → Prop} (sound : z.Sound)
    (grants : Grants c Q) :
    z.Performs (Exec.ofExcept (c.mapError site.locate)) (Exec.ofExcept (c.mapError site.locate)) Q := by
  cases same : c with
  | ok a => exact .pure (grants a same)
  | error e => exact .fail (located_errors sound site e)

/-- The procedures of a program that is alive can be entered. -/
theorem enter_calls (sound : z.Sound) {id : ProcedureId} (here : z.runs id)
    {receiver : Option Value} (receives : ∀ v, receiver = some v → z.Owns v)
    (owned : z.OwnsArguments args) :
    z.Performs (enter site id receiver args) (enter site id receiver args)
      fun f => z.OwnsFrame f ∧ f.IsFresh f.procedure := by
  refine Keeps.get.bind fun s settled => ?_
  have settled : z.Settled s.store := settled
  have alive := settled.alive
  have constants := settled.constants here
  dsimp only
  rw [z.own id here, alive]
  refine (checked_performs sound (Binding.bind_grants owned (defaults_owned constants))).bind
    fun bound table => ?_
  refine .pure ⟨Frame.enter_owned sound (settled.fits sound here) constants ?_ nofun, Frame.enter_fresh ..⟩
  cases receiver with
  | none => exact table
  | some v => exact table.set (receives v rfl)

theorem procedure_performs (sound : z.Sound) (nested : z.OwnsCalls calls calls') {id : ProcedureId}
    (here : z.runs id) {receiver : Option Value}
    (receives : ∀ v, receiver = some v → z.Owns v) (owned : z.OwnsArguments args) :
    z.Performs (procedure calls site id receiver args) (procedure calls' site id receiver args) z.Owns :=
  (enter_calls sound here receives owned).bind fun f ⟨owned, fresh⟩ => nested.run f owned fresh

theorem instantiate_performs (sound : z.Sound) (nested : z.OwnsCalls calls calls') {id : ClassId}
    (here : id.program = z.program) (owned : z.OwnsArguments args) :
    z.Performs (instantiate calls site id args) (instantiate calls' site id args) z.Owns := by
  refine (Exec.readStore_keeps (Q := z.OwnsClass) fun _ settled => settled.classDef here).bind
    fun c class_owned => ?_
  have table : z.OwnsTable (Table.ofList [(typeMember, .string c.name)]) := .ofList (by simp)
  refine Keeps.bind (Q := z.Owns) ?_ fun made fresh => ?_
  · exact Exec.allocate_keeps fun _ settled => settled.addInstance ⟨here, table⟩
  · split
    · next init found =>
      have receives : ∀ v, some made = some v → z.Owns v := by
        rintro v ⟨⟩
        exact fresh
      have constructs : z.Performs (procedure calls site init (some made) args)
          (procedure calls' site init (some made) args) z.Owns :=
        procedure_performs sound nested (class_owned.method found) receives owned
      exact (Exec.holding_keeps constructs).bind fun _ _ => .pure fresh
    · split
      · exact .pure fresh
      · exact .fail (located_errors sound site _)

theorem value_performs (sound : z.Sound) (tame : z.OwnsHost host) (nested : z.OwnsCalls calls calls')
    {callee : Value} (here : z.Owns callee) {receiver : Option Value}
    (receives : ∀ v, receiver = some v → z.Owns v) (owned : z.OwnsArguments args) :
    z.Performs (value host calls site callee receiver args) (value host calls' site callee receiver args) z.Owns := by
  refine Exec.holding_keeps ?_
  split
  · next id => exact procedure_performs sound nested ((Zone.owns_procedure id).mp here) receives owned
  · next bound id =>
    obtain ⟨here, bound_owned⟩ := (Zone.owns_method bound id).mp here
    refine procedure_performs sound nested here ?_ owned
    rintro v ⟨⟩
    exact bound_owned
  · next id => exact instantiate_performs sound nested ((Zone.owns_classRef id).mp here) owned
  · next f => exact located_performs sound (native_asks tame nested ((Zone.owns_native f).mp here) owned)
  · next r =>
    exact located_performs sound (Member.callObject_asks tame nested ((Zone.owns_object r).mp here) owned)
  · exact (Exec.readStore_keeps (Q := fun _ => True) fun _ _ => trivial).bind fun _ _ =>
      .fail (located_errors sound site _)

/-- Whoever answers a name is of the zone. -/
def OwnsAnswer (z : Zone) : Answer → Prop
  | .callable callee receiver => z.Owns callee ∧ ∀ v, receiver = some v → z.Owns v
  | .method id => z.runs id
  | .hosted r => z.cells .object r.index
  | .builtin => True

theorem answer_owned {s : Store} (settled : z.Settled s) {receiver : Value} (here : z.Owns receiver) :
    OwnsAnswer z (answer s receiver name) := by
  unfold answer
  split
  · next r =>
    have has := (Zone.owns_inst r).mp here
    dsimp only
    split
    · next callee member =>
      refine ⟨?_, ?_⟩
      · split at member
        · cases member
        · exact (settled.inst has).get member
      · rintro v ⟨⟩
        exact here
    · next id _ method => exact (settled.classOf has).method method
    · trivial
  · next id =>
    split
    · next callee found =>
      refine ⟨(settled.classDef ((Zone.owns_classRef id).mp here)).statics.get found, ?_⟩
      rintro v ⟨⟩
    · trivial
  · next r =>
    split
    · trivial
    · exact (Zone.owns_object r).mp here
  · trivial

theorem send_performs (sound : z.Sound) (tame : z.OwnsHost host) (nested : z.OwnsCalls calls calls')
    {receiver : Value} (here : z.Owns receiver) (owned : z.OwnsArguments args) :
    z.Performs (send host calls site receiver name args) (send host calls' site receiver name args) z.Owns := by
  refine Exec.holding_keeps ?_
  refine (Exec.readStore_keeps (Q := OwnsAnswer z) fun _ settled => answer_owned settled here).bind
    fun a answers => ?_
  split
  · next callee this => exact value_performs sound tame nested answers.1 answers.2 owned
  · next id =>
    refine procedure_performs sound nested answers ?_ owned
    rintro v ⟨⟩
    exact here
  · next r => exact located_performs sound (Member.callOnObject_asks tame nested answers owned)
  · exact located_performs sound (Exec.ofStore_keeps (Method.call_tends _ here owned))

end Invoke

namespace Name

/-- What a name means to a frame of the zone is of the zone. -/
theorem lookup_owned {s : Store} (settled : z.Settled s) {f : Frame} (frame : z.OwnsFrame f)
    {v : Value} (found : f.lookup s name = some v) : z.Owns v := by
  unfold Frame.lookup at found
  cases own : f.locals.get? name with
  | some w =>
    simp only [own] at found
    cases found
    exact frame.locals.get own
  | none =>
    cases static : f.static? s name with
    | some w =>
      simp only [own, static] at found
      cases found
      obtain ⟨c, owner, statics⟩ := Option.bind_eq_some_iff.mp static
      exact (settled.classDef (frame.owner c owner)).statics.get statics
    | none =>
      simp only [own, static] at found
      rw [frame.program] at found
      exact settled.program.members.get found

/-- A meaning that is a value is one of the zone. -/
def OwnsMeaning (z : Zone) (m : Meaning) : Prop := ∀ v, m = .value v → z.Owns v

theorem resolve_asks (tame : z.OwnsHost host) (nested : z.OwnsCalls calls calls') {f : Frame}
    (frame : z.OwnsFrame f) : z.Asks (resolve host calls f name) (resolve host calls' f name) (OwnsMeaning z) := by
  refine Keeps.get.bind fun s settled => ?_
  have settled : z.Settled s.store := settled
  split
  · next v found =>
    refine .pure ?_
    rintro w ⟨⟩
    exact lookup_owned settled frame found
  · rw [frame.program]
    refine (Member.inModules_asks tame nested settled.program.modules).bind fun found owned => ?_
    split
    · refine .pure ?_
      rintro w ⟨⟩
      exact owned _ rfl
    · split
      · exact .pure (by rintro w ⟨⟩)
      · exact .pure (by rintro w ⟨⟩)

theorem load_asks (tame : z.OwnsHost host) (nested : z.OwnsCalls calls calls') {f : Frame}
    (frame : z.OwnsFrame f) : z.Asks (load host calls f name) (load host calls' f name) z.Owns := by
  refine (resolve_asks tame nested frame).bind fun m owned => ?_
  split
  · exact .pure (owned _ rfl)
  · exact Exec.allocate_keeps fun _ settled => settled.addNative (by simp [Zone.OwnsNative, Native.holders])
  · exact .fail trivial

theorem call_performs (sound : z.Sound) (tame : z.OwnsHost host) (nested : z.OwnsCalls calls calls')
    {f : Frame} (frame : z.OwnsFrame f) (owned : z.OwnsArguments args) :
    z.Performs (call host calls f name args) (call host calls' f name args) z.Owns := by
  unfold call
  dsimp only
  refine (Invoke.located_performs sound (resolve_asks tame nested frame)).bind fun m means => ?_
  split
  · next callee =>
    refine Invoke.value_performs sound tame nested (means _ rfl) ?_ owned
    rintro v ⟨⟩
  · refine (Invoke.checked_performs sound (Arguments.single_grants owned _)).bind fun receiver here => ?_
    exact Invoke.send_performs sound tame nested here (by simp [Zone.OwnsArguments])
  · exact Invoke.located_performs sound (Builtin.call_asks tame nested _ owned)
  · exact .fail (Invoke.located_errors sound _ _)

end Name

end ScriptEngine
