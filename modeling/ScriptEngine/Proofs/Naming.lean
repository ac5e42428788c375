import ScriptEngine.Proofs.Loaded
import ScriptEngine.Proofs.Numbers
import ScriptEngine.Proofs.Steps
import ScriptEngine.Proofs.Texts

/-! # Names that are called and loaded

A name that is called is looked up as one that is loaded, and calling it is calling what loading it gives. Only
`len` is special: called by name it lets instances and classes answer. A built-in function that is loaded becomes
a value, for which a native function is added to the store; nothing else refers to it, so that what is run
besides does not notice it.
-/

namespace ScriptEngine

/-- The result of a computation with its state changed. -/
def mapState {ε σ τ α : Type} (g : σ → τ) : EStateM.Result ε σ α → EStateM.Result ε τ α
  | .ok a s => .ok a (g s)
  | .error e s => .error e (g s)

/-- A state with one more native function. -/
def State.addNative (s : State) (f : Native) : State := ⟨(s.store.addNative f).2, s.control⟩

/-- A state with one more native function, which is held. -/
def State.holdNative (s : State) (f : Native) : State :=
  ⟨(s.store.addNative f).2, s.control.hold (.ofValues [(s.store.addNative f).1])⟩

/-- A value that does not refer to the native function which is made next. -/
def Value.IsMade (v : Value) (s : Store) : Prop := .cell .native s.natives.size ∉ v.holders

/-- Nothing in a store refers to the native function which is made next. -/
def Store.IsMade (s : Store) : Prop := ∀ h, .cell .native s.natives.size ∉ s.heldBy h

section

variable {rules : ObjectRules} {s : Store} (f : Native)

@[simp] theorem Store.typeName_addNative (v : Value) : (s.addNative f).2.typeName v = s.typeName v := by
  cases v <;> rfl

@[simp] theorem Store.equals_addNative (v w : Value) : (s.addNative f).2.equals rules v w = s.equals rules v w := by
  induction v generalizing w with
  | pair i a b first second => cases w <;> first | rfl | simp only [Store.equals, first, second]
  | method a p ih => cases w <;> first | rfl | simp only [Store.equals, ih]
  | _ => cases w <;> rfl

@[simp] theorem Store.hashCode_addNative (v : Value) : (s.addNative f).2.hashCode rules v = s.hashCode rules v := by
  induction v with
  | pair i a b first second => simp only [Store.hashCode, first, second]
  | method a p ih => simp only [Store.hashCode, ih]
  | _ => rfl

@[simp] theorem Store.key_addNative (v : Value) : (s.addNative f).2.key rules v = s.key rules v := by
  simp only [Store.key, hashCode_addNative]

@[simp] theorem Store.sameKey_addNative : (s.addNative f).2.sameKey rules = s.sameKey rules := by
  funext a b
  simp only [Store.sameKey, equals_addNative]

/-- A native function that was made stays as it is. -/
theorem Store.native_addNative {r : Ref .native} (made : r.index ≠ s.natives.size) :
    (s.addNative f).2.native r = s.native r := by
  simp only [Store.native, Store.addNative, Array.getD_eq_getD_getElem?, Array.getElem?_push, if_neg made]

/-- The text of a value, which is made of those of the values that it holds. -/
theorem Store.textWith_addNative (whole : s.IsMade) {element element' : Value → Option String}
    (same : ∀ v, v.IsMade s → element' v = element v) {v : Value} (made : v.IsMade s) :
    (s.addNative f).2.textWith rules element' v = s.textWith rules element v := by
  induction v with
  | list r =>
    have each : ∀ v ∈ (s.list r).toList, element' v = element v := fun v member =>
      same v fun here => whole (.cell .list r.index) (List.mem_flatMap.mpr ⟨v, member, here⟩)
    change ((s.list r).toList.mapM element' >>= _) = _
    rw [mapM_congr each]
    rfl
  | map r =>
    have each : ∀ entry ∈ (s.map r).entries, element' entry.1.value = element entry.1.value ∧
        element' entry.2 = element entry.2 := by
      intro entry member
      have free := fun here => whole (.cell .map r.index) (List.mem_flatMap.mpr ⟨entry, member, here⟩)
      exact ⟨same _ fun here => free (List.mem_append_left _ here),
        same _ fun here => free (List.mem_append_right _ here)⟩
    change ((s.map r).entries.mapM _ >>= _) = ((s.map r).entries.mapM _ >>= _)
    rw [mapM_congr fun entry member => ?_]
    obtain ⟨key, value⟩ := each entry member
    simp only [key, value]
  | set r =>
    have each : ∀ entry ∈ (s.set r).entries, element' entry.1.value = element entry.1.value := by
      intro entry member
      refine same _ fun here => whole (.cell .set r.index) ?_
      exact List.mem_flatMap.mpr ⟨entry.1, List.mem_map_of_mem member, here⟩
    change ((s.set r).entries.mapM _ >>= _) = ((s.set r).entries.mapM _ >>= _)
    rw [mapM_congr each]
  | pair i a b first second =>
    have left := first fun here => made (List.mem_append_left _ here)
    have right := second fun here => made (List.mem_append_right _ here)
    simp only [Store.textWith, left, right]
  | native r =>
    have other : r.index ≠ s.natives.size := fun same => made (by simp [Value.holders, same])
    simp only [Store.textWith, native_addNative f other]
  | _ => rfl

theorem Store.text?_addNative (whole : s.IsMade) {v : Value} (made : v.IsMade s) :
    (s.addNative f).2.text? rules v = s.text? rules v := by
  have within (depth : Nat) : ∀ {v : Value}, v.IsMade s →
      (s.addNative f).2.textWithin rules depth v = s.textWithin rules depth v := by
    induction depth with
    | zero => exact fun made => textWith_addNative f whole (fun _ _ => rfl) made
    | succ depth ih => exact fun made => textWith_addNative f whole (fun _ => ih) made
  exact within s.nesting made

end

/-- A computation that takes no notice of one more native function, which is held. -/
def Exec.Overlooks {ε α : Type} (f : Native) (x : Exec ε α) (s : State) : Prop :=
  x (s.holdNative f) = mapState (·.holdNative f) (x s)

namespace Exec.Overlooks

variable {ε α β : Type} {f : Native} {s : State} {x : Exec ε α} {g : α → Exec ε β}

theorem pure (a : α) : Overlooks f (Pure.pure a : Exec ε α) s := rfl

theorem fail (e : ε) : Overlooks f (Exec.fail e : Exec ε α) s := rfl

theorem ofExcept (c : Except ε α) : Overlooks f (Exec.ofExcept c) s := by cases c <;> rfl

/-- Adding to the rest of the store. -/
theorem allocate {g : Store → α × Store} (natives : (g s.store).2.natives = s.store.natives)
    (same : g (s.store.addNative f).2 = ((g s.store).1, ((g s.store).2.addNative f).2)) :
    Overlooks f (Exec.allocate g : Exec ε α) s := by
  change (EStateM.Result.ok (g (s.store.addNative f).2).1 _ : EStateM.Result (Halt ε) State α) = _
  rw [same]
  simp only [Exec.allocate, mapState, State.holdNative, Store.addNative, natives]

theorem bind (first : Overlooks f x s) (rest : ∀ a t, x s = .ok a t → Overlooks f (g a) t) :
    Overlooks f (x >>= g) s := by
  unfold Overlooks at first
  cases run : x s with
  | ok a t =>
    rw [run] at first
    unfold Overlooks
    rw [bind_ok first, bind_ok run]
    exact rest a t run
  | error halt t =>
    rw [run] at first
    unfold Overlooks
    rw [bind_error first, bind_error run]
    rfl

/-- Looking at the state first. -/
theorem get {g : State → Exec ε β} (same : g (s.holdNative f) = g s) (rest : Overlooks f (g s) s) :
    Overlooks f (MonadState.get >>= g) s := by
  change g (s.holdNative f) (s.holdNative f) = mapState _ (g s s)
  rw [same]
  exact rest

/-- Printing adds to the output only. -/
theorem print (line : String) : Overlooks f (Exec.tryControl (·.print line)) s := by
  unfold Overlooks
  rw [tryControl_eq, tryControl_eq]
  unfold Control.print State.holdNative
  dsimp only [Control.hold]
  cases s.control.output.failure <;> rfl

theorem mapError {δ : Type} (overlooks : Overlooks f x s) (g : ε → δ) : Overlooks f (x.mapError g) s := by
  unfold Overlooks at overlooks
  unfold Overlooks Exec.mapError
  rw [overlooks]
  cases x s <;> rfl

/-- The native function may be let go of afterwards. -/
theorem release (overlooks : Overlooks f x s) :
    x.holding (.ofValues [(s.store.addNative f).1]) (s.addNative f) = mapState (·.addNative f) (x s) := by
  have held : x ⟨(s.addNative f).store, (s.addNative f).control.hold (.ofValues [(s.store.addNative f).1])⟩ =
      mapState (·.holdNative f) (x s) := overlooks
  rw [holding_eq, held]
  cases x s <;> rfl

end Exec.Overlooks

/-- Arguments whose values do not refer to the native function which is made next. -/
def Arguments.AreMade (args : Arguments) (s : Store) : Prop := ∀ v ∈ args.values, v.IsMade s

theorem Arguments.AreMade.withoutKeywords {args : Arguments} {s : Store} {function : String} {values : List Value}
    (made : args.AreMade s) (read : args.withoutKeywords function = .ok values) : ∀ v ∈ values, v.IsMade s :=
  withoutKeywords_eq read ▸ made

theorem Arguments.AreMade.single {args : Arguments} {s : Store} {function : String} {v : Value}
    (made : args.AreMade s) (read : args.single function = .ok v) : v.IsMade s :=
  made v (single_eq read ▸ List.mem_cons_self)

theorem Arguments.number_addNative (f : Native) (args : Arguments) (s : Store) (function : String) (index : Nat) :
    args.number (s.addNative f).2 function index = args.number s function index := by
  simp only [number, Store.typeName_addNative]

namespace Builtin

variable {host : Host} {calls : Calls} {f : Native} {s : State} {args : Arguments}

theorem textOf_stays {v : Value} {text : String} {t : State} (read : textOf host v s = .ok text t) : t = s := by
  unfold textOf at read
  change Exec.ofStore (StoreM.ofOption (s.store.text? host.rules v)) s = _ at read
  cases found : s.store.text? host.rules v <;> rw [found] at read <;> cases read
  rfl

theorem textOf_overlooks (whole : s.store.IsMade) {v : Value} (made : v.IsMade s.store) :
    (textOf host v).Overlooks f s := by
  refine .get ?_ ?_
  · change Exec.ofStore (StoreM.ofOption ((s.store.addNative f).2.text? host.rules v)) = _
    rw [Store.text?_addNative f whole made]
  · cases s.store.text? host.rules v <;> rfl

theorem texts_overlook (whole : s.store.IsMade) {values : List Value} (made : ∀ v ∈ values, v.IsMade s.store) :
    (values.mapM (textOf host)).Overlooks f s := by
  induction values with
  | nil => exact .pure []
  | cons v rest ih =>
    rw [List.mapM_cons]
    refine .bind (textOf_overlooks whole (made v List.mem_cons_self)) fun text t read => ?_
    obtain rfl := textOf_stays read
    exact .bind (ih fun w member => made w (List.mem_cons_of_mem _ member)) fun _ _ _ => .pure _

/-- A method that a value answers by itself, without looking at anything else. -/
theorem size_overlooks {v : Value} : (Exec.ofStore (Method.call host.rules v "size" [])).Overlooks f s := by
  cases v <;> rfl

/-- Checks of arguments that pass leave the state as it is. -/
theorem checked_first {α β : Type} {c : Except RuntimeError α} {g : α → Exec RuntimeError β}
    (rest : ∀ a, c = .ok a → (g a).Overlooks f s) : (Exec.ofExcept c >>= g).Overlooks f s := by
  refine .bind (.ofExcept c) fun a t passed => ?_
  obtain ⟨read, rfl⟩ := ofExcept_eq_ok_iff.mp passed
  exact rest a read

theorem call_overlooks (whole : s.store.IsMade) (made : args.AreMade s.store) (b : Builtin)
    (asked : ∀ r, b = .len → args.single "len" = .ok (.object r) →
      ((Member.callOnObject host calls r "size" []).holding (.ofValues [.object r])).Overlooks f s) :
    (b.call host calls args).Overlooks f s := by
  cases b with
  | print =>
    refine .get rfl (checked_first fun values read => ?_)
    refine .bind (texts_overlook whole (made.withoutKeywords read)) fun texts t _ => ?_
    exact .bind (.print _) fun _ _ _ => .pure _
  | str =>
    refine .get rfl (checked_first fun v read => ?_)
    exact .bind (textOf_overlooks whole (made.single read)) fun text t _ => .pure _
  | len =>
    refine .get rfl (checked_first fun v read => ?_)
    cases v with
    | object r => exact asked r rfl read
    | _ => exact size_overlooks
  | range =>
    have bounds : rangeBounds (s.store.addNative f).2 args = rangeBounds s.store args := by
      simp only [rangeBounds, Arguments.number_addNative]
    refine .get (by simp only [State.holdNative, bounds]; rfl)
      (checked_first fun bounds _ => checked_first fun items _ => ?_)
    exact .allocate rfl rfl
  | list => exact .get rfl (checked_first fun values _ => .allocate rfl rfl)
  | map =>
    have entries : mapEntries (s.store.addNative f).2 = mapEntries s.store := by
      funext values
      simp only [mapEntries, Store.typeName_addNative]
    have dict : dictOf host.rules (s.store.addNative f).2 = dictOf host.rules s.store := by
      funext entries
      simp only [dictOf, Store.key_addNative, Store.sameKey_addNative]
    refine .get (by simp only [State.holdNative, entries, dict]) (checked_first fun values _ => ?_)
    exact checked_first fun entries _ => checked_first fun d _ => .allocate rfl rfl
  | set =>
    have keys : keysOf host.rules (s.store.addNative f).2 = keysOf host.rules s.store := by
      funext values
      simp only [keysOf, Store.key_addNative, Store.sameKey_addNative]
    refine .get (by simp only [State.holdNative, keys]) (checked_first fun values _ => checked_first fun d _ => ?_)
    exact .allocate rfl rfl
  | pair =>
    refine .get rfl (checked_first fun _ _ => checked_first fun _ _ => ?_)
    exact checked_first fun first _ => checked_first fun second _ => .allocate rfl rfl
  | typeOf =>
    refine .get (by simp only [State.holdNative, Store.typeName_addNative]) (checked_first fun v _ => .pure _)
  | raise =>
    refine .get rfl (checked_first fun v read => ?_)
    exact .bind (textOf_overlooks whole (made.single read)) fun text t _ => .fail _
  | min =>
    refine .get ?_ (.ofExcept _)
    simp only [State.holdNative, extreme, Arguments.number_addNative]
  | max =>
    refine .get ?_ (.ofExcept _)
    simp only [State.holdNative, extreme, Arguments.number_addNative]

end Builtin

/-- Every native function that something in a store refers to was made. -/
def Store.HasNatives (s : Store) : Prop := ∀ h i, .cell .native i ∈ s.heldBy h → i < s.natives.size

theorem Store.HasNatives.isMade {s : Store} (has : s.HasNatives) : s.IsMade :=
  fun h held => Nat.lt_irrefl _ (has h _ held)

theorem Store.empty_hasNatives : Store.empty.HasNatives := by
  intro h i held
  cases h with
  | cell kind => cases kind <;> cases held
  | procedure => cases held
  | classDef => cases held

/-- What a program refers to that was compiled is no native function. -/
theorem Program.IsNumbered.holds {program : ProgramId} {p : Program} (numbered : p.IsNumbered program) :
    (∀ q ∈ p.procedures, ∀ i, .cell .native i ∉ q.holders) ∧
      ∀ c ∈ p.classes, ∀ i, .cell .native i ∉ c.methods.entries.map (Holder.procedure ·.2) ++
        bindingHolders c.statics := by
  have plain {v : Value} {n i : Nat} (numbered : v.IsNumbered program n) : Holder.cell .native i ∉ v.holders := by
    cases numbered with
    | plain none => exact none ▸ List.not_mem_nil
    | procedure => exact fun held => by cases List.mem_singleton.mp held
    | classRef => exact fun held => by cases List.mem_singleton.mp held
  constructor
  · intro q member i held
    rcases List.mem_append.mp held with default | constant
    · obtain ⟨param, declared, held⟩ := List.mem_flatMap.mp default
      obtain ⟨v, has, held⟩ := List.mem_flatMap.mp held
      rw [numbered.defaults q member param declared v (Option.mem_toList.mp has)] at held
      cases held
    · obtain ⟨instruction, here, held⟩ := List.mem_flatMap.mp constant
      cases instruction with
      | value v => exact plain (numbered.code q member _ here) held
      | _ => cases held
  · intro c member i held
    rcases List.mem_append.mp held with method | static
    · obtain ⟨_, _, same⟩ := List.mem_map.mp method
      cases same
    · obtain ⟨entry, among, held⟩ := List.mem_flatMap.mp static
      exact plain ((numbered.classes c member).statics entry among) held

/-- A program that was compiled brings in no native function. -/
theorem Store.HasNatives.addProgram {s : Store} (has : s.HasNatives) {program : ProgramId} {p : Program}
    (numbered : p.IsNumbered program) : (s.addProgram p).2.HasNatives := by
  obtain ⟨procedures, classes⟩ := numbered.holds
  intro h i held
  cases h with
  | cell kind index =>
    have same : (s.addProgram p).2.heldBy (.cell kind index) = s.heldBy (.cell kind index) := by cases kind <;> rfl
    exact has (.cell kind index) i (same ▸ held)
  | procedure q =>
    change _ ∈ ((s.addProgram p).2.procedure q).holders at held
    rw [Store.procedure] at held
    rcases s.program_addProgram_cases p q.program with same | same
    · rw [same] at held
      exact has (.procedure q) i held
    · rw [same, Array.getD_eq_getD_getElem?] at held
      cases found : p.procedures[q.index]? with
      | none =>
        rw [found] at held
        cases held
      | some own =>
        rw [found] at held
        exact absurd held (procedures own (Array.mem_of_getElem? found) i)
  | classDef c =>
    change _ ∈ (let d := (s.addProgram p).2.classDef c
      d.methods.entries.map (Holder.procedure ·.2) ++ bindingHolders d.statics) at held
    rw [Store.classDef] at held
    rcases s.program_addProgram_cases p c.program with same | same
    · rw [same] at held
      exact has (.classDef c) i held
    · rw [same, Array.getD_eq_getD_getElem?] at held
      cases found : p.classes[c.index]? with
      | none =>
        rw [found] at held
        cases held
      | some own =>
        rw [found] at held
        exact absurd held (classes own (Array.mem_of_getElem? found) i)

theorem Engine.load_hasNatives {source file : String} {breakpoints : Bool} {tree : ModuleTree}
    (parsed : ModuleTree.ofSource source = .ok tree) {s s' : State} (has : s.store.HasNatives) {id : ProgramId}
    (loaded : (Engine.load source file breakpoints : Exec ScriptError ProgramId) s = .ok id s') :
    s'.store.HasNatives := by
  cases loaded
  exact has.addProgram (Program.ofSource_isNumbered parsed)

/-- A built-in function that is loaded refers to nothing. -/
theorem Store.HasNatives.addBuiltin {s : Store} (has : s.HasNatives) (name : String) (b : Builtin) :
    (s.addNative ⟨name, .builtin b⟩).2.HasNatives := by
  have others (h : Holder) (other : ∀ index, h ≠ .cell .native index) :
      (s.addNative ⟨name, .builtin b⟩).2.heldBy h = s.heldBy h := by
    cases h with
    | cell kind index => cases kind <;> first | rfl | exact absurd rfl (other index)
    | _ => rfl
  have size : (s.addNative ⟨name, .builtin b⟩).2.natives.size = s.natives.size + 1 := Array.size_push _
  intro h i held
  rw [size]
  by_cases native : ∃ index, h = .cell .native index
  · obtain ⟨index, rfl⟩ := native
    change _ ∈ ((s.addNative ⟨name, .builtin b⟩).2.native ⟨index⟩).holders at held
    by_cases new : index = s.natives.size
    · rw [new, Store.native, Store.addNative, Array.getD_eq_getD_getElem?, Array.getElem?_push_size] at held
      cases held
    · rw [Store.native_addNative _ new] at held
      exact Nat.lt_succ_of_lt (has (.cell .native index) i held)
  · rw [others h fun index same => native ⟨index, same⟩] at held
    exact Nat.lt_succ_of_lt (has h i held)

namespace Name

/-- What looking a name up comes to. -/
inductive Finding where
  | value (v : Value)
  | builtin (b : Builtin)
  | nothing
  | failure (halt : Halt RuntimeError)

section

variable (host : Host) (calls : Calls)

/-- Modules are asked for a name one after the other, and none of them has it. -/
inductive PassedOver (name : String) : List Value → State → State → Prop
  | nil (s : State) : PassedOver name [] s s
  | cons {m : Value} {rest : List Value} {kind missing : String} {s t u : State} :
    Member.get host calls m name s = .error (.failed (.unknownMember kind missing)) t →
      PassedOver name rest t u → PassedOver name (m :: rest) s u

/-- The order of the places where a name is looked up: the variables of the frame, the statics of its class, the
members of its program, the modules of the program, the one registered last first, and the built-in functions. -/
inductive Finds (f : Frame) (name : String) (s : State) : Finding → State → Prop
  | variable {v : Value} : f.locals.get? name = some v → Finds f name s (.value v) s
  | static {v : Value} : f.locals.get? name = none → f.static? s.store name = some v → Finds f name s (.value v) s
  | member {v : Value} : f.locals.get? name = none → f.static? s.store name = none →
    (s.store.program f.program).members.get? name = some v → Finds f name s (.value v) s
  | module {before after : List Value} {m v : Value} {t u : State} : f.lookup s.store name = none →
    (s.store.program f.program).modules = before ++ m :: after → PassedOver host calls name before s t →
    Member.get host calls m name t = .ok v u → Finds f name s (.value v) u
  | failure {before after : List Value} {m : Value} {halt : Halt RuntimeError} {t u : State} :
    f.lookup s.store name = none → (s.store.program f.program).modules = before ++ m :: after →
    PassedOver host calls name before s t → Member.get host calls m name t = .error halt u →
    (∀ kind missing, halt ≠ .failed (.unknownMember kind missing)) → Finds f name s (.failure halt) u
  | builtin {b : Builtin} {t : State} : f.lookup s.store name = none →
    PassedOver host calls name (s.store.program f.program).modules s t → Builtin.ofName? name = some b →
    Finds f name s (.builtin b) t
  | nothing {t : State} : f.lookup s.store name = none →
    PassedOver host calls name (s.store.program f.program).modules s t → Builtin.ofName? name = none →
    Finds f name s .nothing t

end

variable {host : Host} {calls : Calls} {f : Frame} {name : String} {s t u : State}

/-- Modules without a name leave it to those behind them. -/
theorem PassedOver.inModules {before : List Value} (passed : PassedOver host calls name before s t)
    (rest : List Value) :
    Member.inModules host calls name (before ++ rest) s = Member.inModules host calls name rest t := by
  induction passed with
  | nil s => rfl
  | @cons m rest kind missing s t u asked _ ih =>
    simp only [List.cons_append, Member.inModules, asked]
    exact ih

/-- The modules are all passed over, or else those before one that is not. -/
theorem passedOver_cases (name : String) (modules : List Value) (s : State) :
    (∃ t, PassedOver host calls name modules s t) ∨
      ∃ before m after t, modules = before ++ m :: after ∧ PassedOver host calls name before s t ∧
        ∀ kind missing u, Member.get host calls m name t ≠ .error (.failed (.unknownMember kind missing)) u := by
  induction modules generalizing s with
  | nil => exact .inl ⟨s, .nil s⟩
  | cons m rest ih =>
    by_cases asked : ∃ kind missing t, Member.get host calls m name s = .error (.failed (.unknownMember kind missing)) t
    · obtain ⟨kind, missing, t, asked⟩ := asked
      rcases ih t with ⟨u, passed⟩ | ⟨before, next, after, u, rfl, passed, stops⟩
      · exact .inl ⟨u, .cons asked passed⟩
      · exact .inr ⟨m :: before, next, after, u, rfl, .cons asked passed, stops⟩
    · refine .inr ⟨[], m, rest, s, rfl, .nil s, fun kind missing t here => ?_⟩
      exact asked ⟨kind, missing, t, here⟩

/-- The result of a lookup in terms of what was found. -/
def Finding.result (t : State) : Finding → EStateM.Result (Halt RuntimeError) State Meaning
  | .value v => .ok (.value v) t
  | .builtin b => .ok (.builtin b) t
  | .nothing => .ok .unknown t
  | .failure halt => .error halt t

theorem resolve_eq (f : Frame) (name : String) (s : State) :
    resolve host calls f name s = match f.lookup s.store name with
      | some v => .ok (.value v) s
      | none => match Member.inModules host calls name (s.store.program f.program).modules s with
        | .ok (some v) t => .ok (.value v) t
        | .ok none t => .ok ((Builtin.ofName? name).elim .unknown .builtin) t
        | .error halt t => .error halt t := by
  unfold resolve
  refine (bind_ok rfl).trans ?_
  cases f.lookup s.store name with
  | some v => rfl
  | none =>
    dsimp only
    cases run : Member.inModules host calls name (s.store.program f.program).modules s with
    | error halt t => exact bind_error run
    | ok found t =>
      refine (bind_ok run).trans ?_
      cases found with
      | some v => rfl
      | none => cases Builtin.ofName? name <;> rfl

theorem Finds.resolve_eq {finding : Finding} (finds : Finds host calls f name s finding t) :
    resolve host calls f name s = finding.result t := by
  rw [Name.resolve_eq]
  cases finds with
  | «variable» here => simp [Frame.lookup, here, Finding.result]
  | static none here => simp [Frame.lookup, none, here, Finding.result]
  | member none unseen here => simp [Frame.lookup, none, unseen, here, Finding.result]
  | module unseen order passed here =>
    rw [unseen, order]
    simp only [passed.inModules, Member.inModules, here, Finding.result]
  | @failure before after m halt t u unseen order passed here other =>
    rw [unseen, order]
    simp only [passed.inModules, Member.inModules, here, Finding.result]
  | builtin unseen passed named =>
    have asked := passed.inModules []
    rw [List.append_nil] at asked
    simp only [unseen, asked, Member.inModules, named]
    rfl
  | nothing unseen passed named =>
    have asked := passed.inModules []
    rw [List.append_nil] at asked
    simp only [unseen, asked, Member.inModules, named]
    rfl

theorem finds_exists (f : Frame) (name : String) (s : State) :
    ∃ finding t, Finds host calls f name s finding t := by
  cases unseen : f.lookup s.store name with
  | some v =>
    cases own : f.locals.get? name with
    | some w => exact ⟨_, _, .variable own⟩
    | none =>
      cases shared : f.static? s.store name with
      | some w => exact ⟨_, _, .static own shared⟩
      | none =>
        refine ⟨.value v, s, .member own shared ?_⟩
        simpa [Frame.lookup, own, shared] using unseen
  | none =>
    rcases passedOver_cases name (s.store.program f.program).modules s with
      ⟨t, passed⟩ | ⟨before, m, after, t, order, passed, stops⟩
    · cases named : Builtin.ofName? name with
      | some b => exact ⟨_, t, .builtin unseen passed named⟩
      | none => exact ⟨_, t, .nothing unseen passed named⟩
    · cases asked : Member.get host calls m name t with
      | ok v u => exact ⟨_, u, .module unseen order passed asked⟩
      | error halt u =>
        refine ⟨_, u, .failure unseen order passed asked ?_⟩
        rintro kind missing rfl
        exact stops kind missing u asked

/-- `len` is called with what answers `size` by itself: an instance or a class. -/
def Answers (b : Builtin) (args : Arguments) : Prop :=
  b = .len ∧ ((∃ r, args.single "len" = .ok (.inst r)) ∨ ∃ id, args.single "len" = .ok (.classRef id))

/-- The method of an object that `len` calls takes no notice of a native function that nothing refers to. -/
def Unnoticed (host : Host) (calls : Calls) (b : Builtin) (args : Arguments) (made : Native) (s : State) : Prop :=
  ∀ r, b = .len → args.single "len" = .ok (.object r) →
    ((Member.callOnObject host calls r "size" []).holding (.ofValues [.object r])).Overlooks made s

/-- How calling a name compares with loading it, when looking the name up comes to a finding in a state. -/
def Agree (host : Host) (calls : Calls) (f : Frame) (name : String) (args : Arguments) (s t : State) : Finding → Prop
  | .value v => load host calls f name s = .ok v t ∧
      call host calls f name args s = Invoke.value host calls f.site v none args t
  | .builtin b =>
    let made : Native := ⟨name, .builtin b⟩
    let v := (t.store.addNative made).1
    let run := (b.call host calls args).mapError f.site.locate
    load host calls f name s = .ok v (t.addNative made) ∧
      (∀ v, b = .len → args.single "len" = .ok v →
        call host calls f name args s = Invoke.send host calls f.site v "size" [] t) ∧
      (¬ Answers b args → call host calls f name args s = run t) ∧
      Invoke.value host calls f.site v none args (t.addNative made) =
        run.holding (.ofValues [v]) (t.addNative made) ∧
      (¬ Answers b args → t.store.IsMade → args.AreMade t.store → Unnoticed host calls b args made t →
        Invoke.value host calls f.site v none args (t.addNative made) =
          mapState (·.addNative made) (call host calls f name args s))
  | .nothing => load host calls f name s = .error (.failed (.unknownVariable name)) t ∧
      call host calls f name args s = .error (.failed (f.site.locate (.unknownFunction name))) t
  | .failure halt => load host calls f name s = .error halt t ∧
      call host calls f name args s = .error (halt.map f.site.locate) t

theorem mapError_ok {ε δ α : Type} {x : Exec ε α} {g : ε → δ} {a : α} (run : x s = .ok a t) :
    x.mapError g s = .ok a t := by
  unfold Exec.mapError
  rw [run]

theorem mapError_error {ε δ α : Type} {x : Exec ε α} {g : ε → δ} {halt : Halt ε} (run : x s = .error halt t) :
    x.mapError g s = .error (halt.map g) t := by
  unfold Exec.mapError
  rw [run]

theorem mapError_holding {ε δ α : Type} (x : Exec ε α) (g : ε → δ) (h : Hold) :
    (x.holding h).mapError g = (x.mapError g).holding h := by
  funext s
  rw [holding_eq]
  unfold Exec.mapError
  rw [holding_eq]
  cases x ⟨s.store, s.control.hold h⟩ <;> rfl

/-- What works on the store alone takes no notice of what is held. -/
theorem holding_ofStore {α : Type} (x : StoreM α) (h : Hold) : (Exec.ofStore x).holding h = Exec.ofStore x := by
  funext s
  rw [holding_eq]
  unfold Exec.ofStore
  dsimp only
  cases x s.store <;> rfl

/-- What is sent `size` and does not answer by itself does what `len` does with it. -/
theorem send_size {site : Site} {v : Value} (noInstance : ∀ r, v ≠ .inst r) (noClass : ∀ id, v ≠ .classRef id) :
    Invoke.send host calls site v "size" [] = Exec.mapError site.locate (match v with
      | .object r => (Member.callOnObject host calls r "size" []).holding (.ofValues [v])
      | _ => Exec.ofStore (Method.call host.rules v "size" [])) := by
  funext t
  have plain (answers : Invoke.answer t.store v "size" = .builtin) :
      Invoke.send host calls site v "size" [] t =
        (Exec.ofStore (Method.call host.rules v "size" [])).mapError site.locate t := by
    rw [← holding_ofStore _ (.ofValues [v]), mapError_holding]
    refine holding_congr ((bind_ok rfl).trans ?_)
    dsimp only
    rw [answers]
  cases v with
  | inst r => exact absurd rfl (noInstance r)
  | classRef id => exact absurd rfl (noClass id)
  | object r =>
    rw [mapError_holding]
    refine holding_congr ((bind_ok rfl).trans ?_)
    rfl
  | _ => exact plain rfl

/-- Calling `len` is checking its argument, and then asking it for its size. -/
theorem call_len (args : Arguments) : Builtin.len.call host calls args t = (do
    let v ← Exec.ofExcept (args.single "len")
    match v with
    | .object r => (Member.callOnObject host calls r "size" []).holding (.ofValues [v])
    | _ => Exec.ofStore (Method.call host.rules v "size" [])) t := rfl

theorem ofName?_eq_len (named : Builtin.ofName? name = some .len) : name = "len" := by
  unfold Builtin.ofName? at named
  split at named <;> cases named
  rfl

/-- Calling `len` by name sends `size` to its argument. -/
theorem call_sends {args : Arguments} {v : Value} (named : Builtin.ofName? name = some .len)
    (means : resolve host calls f name s = .ok (.builtin .len) t) (single : args.single "len" = .ok v) :
    call host calls f name args s = Invoke.send host calls f.site v "size" [] t := by
  obtain rfl := ofName?_eq_len named
  refine (bind_ok (mapError_ok means)).trans (bind_ok ?_)
  rw [single]
  rfl

/-- What is called by name when the name means a built-in function. -/
theorem call_builtin {b : Builtin} {args : Arguments} (named : Builtin.ofName? name = some b)
    (means : resolve host calls f name s = .ok (.builtin b) t) (plain : ¬ Answers b args) :
    call host calls f name args s = (b.call host calls args).mapError f.site.locate t := by
  cases b with
  | len =>
    cases single : args.single "len" with
    | error e =>
      obtain rfl := ofName?_eq_len named
      rw [mapError_error ((call_len args).trans (bind_error (by rw [single]; rfl)))]
      refine (bind_ok (mapError_ok means)).trans (bind_error ?_)
      rw [single]
      rfl
    | ok v =>
      have noInstance (r : Ref .inst) : v ≠ .inst r := fun same => plain ⟨rfl, .inl ⟨r, same ▸ single⟩⟩
      have noClass (id : ClassId) : v ≠ .classRef id := fun same => plain ⟨rfl, .inr ⟨id, same ▸ single⟩⟩
      rw [call_sends named means single, send_size noInstance noClass]
      refine mapError_congr (((call_len args).trans (bind_ok ?_)).symm)
      rw [single]
      rfl
  | _ => exact bind_ok (mapError_ok means)

theorem native_builtin {r : Ref .native} {b : Builtin} {args : Arguments}
    (found : s.store.native r = ⟨name, .builtin b⟩) :
    Invoke.native host calls r args s = b.call host calls args s := by
  have read : (Exec.readStore (·.native r) : Exec RuntimeError Native) s = .ok (s.store.native r) s := rfl
  refine (bind_ok read).trans ?_
  rw [found]

/-- Invoking a native function that runs a built-in one, right after it was made. -/
theorem invoke_builtin {b : Builtin} {site : Site} {args : Arguments} :
    let made : Native := ⟨name, .builtin b⟩
    let v := (t.store.addNative made).1
    Invoke.value host calls site v none args (t.addNative made) =
      ((b.call host calls args).mapError site.locate).holding (.ofValues [v]) (t.addNative made) := by
  have found : (t.store.addNative ⟨name, .builtin b⟩).2.native ⟨t.store.natives.size⟩ = ⟨name, .builtin b⟩ := by
    simp [Store.native, Store.addNative]
  exact holding_congr (mapError_congr (native_builtin found))

theorem Finds.agree {finding : Finding} (finds : Finds host calls f name s finding t) (args : Arguments) :
    Agree host calls f name args s t finding := by
  have means := finds.resolve_eq
  cases finding with
  | value v => exact ⟨bind_ok means, bind_ok (mapError_ok means)⟩
  | nothing => exact ⟨bind_ok means, bind_ok (mapError_ok means)⟩
  | failure halt => exact ⟨bind_error means, bind_error (mapError_error means)⟩
  | builtin b =>
    have named : Builtin.ofName? name = some b := by
      cases finds
      assumption
    refine ⟨bind_ok means, ?_, call_builtin named means, invoke_builtin, fun plain whole made unnoticed => ?_⟩
    · rintro v rfl single
      exact call_sends named means single
    · have overlooks := Builtin.call_overlooks whole made b unnoticed
      rw [call_builtin named means plain, invoke_builtin]
      exact (overlooks.mapError f.site.locate).release

/-- A module that is registered comes before all others. -/
theorem modules_addModule {p : ProgramId} (m : Value) (loaded : p < s.store.programs.size) :
    ((finalState ((Engine.addModule p m : Exec ScriptError Unit) s)).store.program p).modules =
      m :: (s.store.program p).modules := by
  change ((s.store.modifyProgram p _).program p).modules = _
  simp [Store.modifyProgram, Store.program, loaded, Array.getElem_modify]

/-- Calling a name agrees with loading it, whatever the name means. It means one thing, and modules that were
registered later come first. -/
theorem call_agrees_with_load (host : Host) (calls : Calls) (f : Frame) (name : String) (args : Arguments) :
    (∀ s, ∃ finding t, Finds host calls f name s finding t ∧
      (∀ other u, Finds host calls f name s other u → other = finding ∧ u = t) ∧
        Agree host calls f name args s t finding) ∧
      ∀ (s : State) (m : Value), f.program < s.store.programs.size →
        ((finalState ((Engine.addModule f.program m : Exec ScriptError Unit) s)).store.program f.program).modules =
          m :: (s.store.program f.program).modules := by
  refine ⟨fun s => ?_, fun s m loaded => modules_addModule m loaded⟩
  obtain ⟨finding, t, finds⟩ : ∃ finding t, Finds host calls f name s finding t := finds_exists f name s
  refine ⟨finding, t, finds, fun other u same => ?_, finds.agree args⟩
  have results := same.resolve_eq.symm.trans finds.resolve_eq
  cases other <;> cases finding <;> cases results <;> exact ⟨rfl, rfl⟩

/-- What loading `str` makes. -/
def madeStr : Native := ⟨"str", .builtin .str⟩

/-- The calls that a host makes of a program. -/
def fewCalls : Calls := .nested .none 8 8

/-- In a program that was loaded, `str` is loaded, and then called by name with what this gave. Invoking what it gives
when it is loaded once more comes to the same. -/
theorem loadedStr_agrees :
    ∃ s v t, (Engine.load "x = null;" "demo" false : Exec ScriptError ProgramId) .start = .ok 0 s ∧
      ∃ f, f = Frame.enter s (s.store.procedure ⟨0, 0⟩) 0 (.topLevel .empty) ∧
        load .none fewCalls f "str" s = .ok v t ∧
        ¬ Answers .str [⟨none, v⟩] ∧ t.store.IsMade ∧ Arguments.AreMade [⟨none, v⟩] t.store ∧
        Unnoticed .none fewCalls .str [⟨none, v⟩] madeStr t ∧
        Invoke.value .none fewCalls f.site (t.store.addNative madeStr).1 none [⟨none, v⟩] (t.addNative madeStr) =
          mapState (·.addNative madeStr) (call .none fewCalls f "str" [⟨none, v⟩] t) := by
  obtain ⟨tree, parsed, _⟩ := spellsOnly_iff.mp (show spellsOnly "x = null;" (fun _ => true) = true by decide +kernel)
  obtain ⟨s, loaded, unseen, modules⟩ : ∃ s : State,
      (Engine.load "x = null;" "demo" false : Exec ScriptError ProgramId) .start = .ok 0 s ∧
      ((Frame.enter s (s.store.procedure ⟨0, 0⟩) 0 (.topLevel .empty)).lookup s.store "str").isNone = true ∧
      (s.store.program 0).modules.isEmpty = true := ⟨_, rfl, by decide +kernel, by decide +kernel⟩
  obtain ⟨f, same⟩ : ∃ f, f = Frame.enter s (s.store.procedure ⟨0, 0⟩) 0 (.topLevel .empty) := ⟨_, rfl⟩
  rw [← same, Option.isNone_iff_eq_none] at unseen
  have none : (s.store.program f.program).modules = [] := same ▸ List.isEmpty_iff.mp modules
  have agrees (args : Arguments) (t : State) (unseen : f.lookup t.store "str" = .none)
      (none : (t.store.program f.program).modules = []) : Agree .none fewCalls f "str" args t t (.builtin .str) := by
    have passed : PassedOver .none fewCalls "str" (t.store.program f.program).modules t t := by
      rw [none]
      exact .nil t
    obtain ⟨finding, u, _, unique, agree⟩ := (call_agrees_with_load .none fewCalls f "str" args).1 t
    obtain ⟨rfl, rfl⟩ := unique _ _ (.builtin unseen passed rfl)
    exact agree
  have has : s.store.HasNatives := Engine.load_hasNatives parsed Store.empty_hasNatives loaded
  have natives : s.store.natives.size = 0 := by
    cases loaded
    rfl
  have given : (s.store.addNative madeStr).1 = .native ⟨0⟩ := congrArg (Value.native ⟨·⟩) natives
  obtain ⟨first, -⟩ := agrees [] s unseen none
  obtain ⟨-, -, -, -, second⟩ := agrees [⟨.none, .native ⟨0⟩⟩] (s.addNative madeStr) unseen none
  have plain : ¬ Answers .str [⟨.none, .native ⟨0⟩⟩] := nofun
  have whole : (s.addNative madeStr).store.IsMade := (has.addBuiltin "str" .str).isMade
  have made : Arguments.AreMade [⟨.none, .native ⟨0⟩⟩] (s.addNative madeStr).store := by
    have size : (s.addNative madeStr).store.natives.size = 1 := (Array.size_push _).trans (congrArg (· + 1) natives)
    refine List.forall_mem_singleton.mpr fun held => ?_
    rw [size] at held
    cases List.mem_singleton.mp held
  have unnoticed : Unnoticed .none fewCalls .str [⟨.none, .native ⟨0⟩⟩] madeStr (s.addNative madeStr) := nofun
  exact ⟨s, .native ⟨0⟩, s.addNative madeStr, loaded, f, same, given ▸ first, plain, whole, made, unnoticed,
    second plain whole made unnoticed⟩

end Name

end ScriptEngine
