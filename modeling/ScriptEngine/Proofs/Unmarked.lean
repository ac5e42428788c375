import ScriptEngine.Proofs.Marking
import ScriptEngine.Proofs.Naming

/-! # Stores without markers

A store is read in many ways, but never for the markers in the code of its procedures. So reading it, changing it and
the built-in methods come to the same in the store without markers: a reading that is blind gives the same there, and
a change or a computation that is natural leads from the one store without markers to the other.
-/

namespace ScriptEngine

/-- A store with all its programs as if markers had not been wanted. -/
def Store.withoutMarkers (s : Store) : Store := { s with programs := s.programs.map Program.withoutMarkers }

/-- A reading of the store that gives the same without markers. -/
def Store.Blind {α : Type} (f : Store → α) : Prop := ∀ s : Store, f s.withoutMarkers = f s

/-- A change of the store that does the same without markers. -/
def Store.Natural (g : Store → Store) : Prop := ∀ s : Store, g s.withoutMarkers = (g s).withoutMarkers

theorem Procedure.withoutMarkers_default : (default : Procedure).withoutMarkers = default := rfl

theorem Program.withoutMarkers_default : (default : Program).withoutMarkers = default := by
  have none : (default : ProgramParts).procedures.map Procedure.withoutMarkers = #[] := Array.map_empty
  change Program.withoutMarkers (.ofParts "" .zero default) = _
  simp only [ofParts, withoutMarkers, ProgramParts.withoutMarkers, none]
  rfl

/-- What the constants of a list of instructions hold does not depend on its markers. -/
theorem holders_unmarkAt (f : Nat → Nat) (k : Nat) (is : List Instruction) :
    (unmarkAt f k is).flatMap (fun | .value v => v.holders | _ => []) =
      is.flatMap fun | .value v => v.holders | _ => [] := by
  induction is generalizing k with
  | nil => rfl
  | cons i rest ih => cases i <;> simp [unmarkAt, Instruction.isStop, Instruction.renumber, ih]

theorem Procedure.holders_withoutMarkers (p : Procedure) : p.withoutMarkers.holders = p.holders := by
  exact congrArg (_ ++ ·) (holders_unmarkAt _ 0 p.code.toList)

namespace Store

variable (rules : ObjectRules) (s : Store)

@[simp] theorem program_withoutMarkers (id : ProgramId) :
    s.withoutMarkers.program id = (s.program id).withoutMarkers := by
  unfold program withoutMarkers
  simp only [Array.getD_eq_getD_getElem?, Array.getElem?_map]
  cases s.programs[id]? with
  | none => exact Program.withoutMarkers_default.symm
  | some p => rfl

@[simp] theorem procedure_withoutMarkers (id : ProcedureId) :
    s.withoutMarkers.procedure id = (s.procedure id).withoutMarkers := by
  unfold procedure
  rw [program_withoutMarkers]
  change ((s.program id.program).procedures.map Procedure.withoutMarkers).getD id.index default = _
  simp only [Array.getD_eq_getD_getElem?, Array.getElem?_map]
  cases (s.program id.program).procedures[id.index]? with
  | none => exact Procedure.withoutMarkers_default.symm
  | some p => rfl

variable {α : Type} in
/-- What is read of a program that does not depend on its markers. -/
theorem Blind.program {f : Program → α} (same : ∀ p : Program, f p.withoutMarkers = f p) (id : ProgramId) :
    Blind fun s => f (s.program id) :=
  fun s => (congrArg f (s.program_withoutMarkers id)).trans (same _)

variable {α : Type} in
theorem Blind.procedure {f : Procedure → α} (same : ∀ p : Procedure, f p.withoutMarkers = f p) (id : ProcedureId) :
    Blind fun s => f (s.procedure id) :=
  fun s => (congrArg f (s.procedure_withoutMarkers id)).trans (same _)

@[simp] theorem classDef_withoutMarkers (id : ClassId) : s.withoutMarkers.classDef id = s.classDef id := by
  unfold classDef
  rw [program_withoutMarkers]
  rfl

@[simp] theorem classOf_withoutMarkers (r : Ref .inst) : s.withoutMarkers.classOf r = s.classOf r := by
  unfold classOf
  simp only [classDef_withoutMarkers]
  rfl

@[simp] theorem typeName_withoutMarkers : s.withoutMarkers.typeName = s.typeName := by
  funext v
  cases v with
  | inst r => simp only [typeName, classOf_withoutMarkers]
  | _ => rfl

@[simp] theorem equals_withoutMarkers : s.withoutMarkers.equals rules = s.equals rules := by
  funext v w
  induction v generalizing w with
  | pair i a b first second => cases w <;> first | rfl | simp only [equals, first, second]
  | method a p ih => cases w <;> first | rfl | simp only [equals, ih]
  | _ => cases w <;> rfl

@[simp] theorem hashCode_withoutMarkers : s.withoutMarkers.hashCode rules = s.hashCode rules := by
  funext v
  induction v with
  | pair i a b first second => simp only [hashCode, first, second]
  | method a p ih => simp only [hashCode, ih]
  | _ => rfl

@[simp] theorem key_withoutMarkers : s.withoutMarkers.key rules = s.key rules := by
  funext v
  simp only [key, hashCode_withoutMarkers]

@[simp] theorem sameKey_withoutMarkers : s.withoutMarkers.sameKey rules = s.sameKey rules := by
  funext a b
  simp only [sameKey, equals_withoutMarkers]

theorem textWith_withoutMarkers (element : Value → Option String) :
    s.withoutMarkers.textWith rules element = s.textWith rules element := by
  funext v
  induction v with
  | procedure id | method receiver id =>
    simp only [textWith, procedure_withoutMarkers]
    rfl
  | classRef id => simp only [textWith, classDef_withoutMarkers]
  | inst r => simp only [textWith, classOf_withoutMarkers]
  | pair i a b first second => simp only [textWith, first, second]
  | _ => rfl

@[simp] theorem text?_withoutMarkers : s.withoutMarkers.text? rules = s.text? rules := by
  have within (depth : Nat) : s.withoutMarkers.textWithin rules depth = s.textWithin rules depth := by
    induction depth with
    | zero => exact s.textWith_withoutMarkers rules _
    | succ depth ih =>
      unfold textWithin
      rw [ih, textWith_withoutMarkers]
  funext v
  exact congrFun (within s.nesting) v

theorem heldBy_withoutMarkers : s.withoutMarkers.heldBy = s.heldBy := by
  funext h
  cases h with
  | cell kind i => cases kind <;> rfl
  | procedure id =>
    simp only [heldBy, procedure_withoutMarkers]
    exact Procedure.holders_withoutMarkers _
  | classDef id => simp only [heldBy, classDef_withoutMarkers]

theorem allHolders_withoutMarkers : s.withoutMarkers.allHolders = s.allHolders := by
  unfold allHolders withoutMarkers
  dsimp only
  rw [Array.toList_map, List.zipIdx_map, List.flatMap_map]
  simp [Program.withoutMarkers, ProgramParts.withoutMarkers]

theorem lasting_withoutMarkers (roots among : List Holder) :
    s.withoutMarkers.lasting roots among = s.lasting roots among := by
  have held (among : List Holder) : s.withoutMarkers.stillHeld roots among = s.stillHeld roots among := by
    unfold stillHeld
    rw [heldBy_withoutMarkers]
  induction among using Store.lasting.induct s roots with
  | case1 among next fewer ih =>
    rw [lasting, lasting.eq_def s, held]
    simp only [next] at fewer ih
    simp only [if_pos fewer, ih]
  | case2 among next same =>
    simp only [next] at same
    rw [lasting, lasting.eq_def s, held]
    simp only [if_neg same]

theorem isDeclared_withoutMarkers (c : ClassId) : s.withoutMarkers.isDeclared c = s.isDeclared c := by
  unfold isDeclared
  simp only [program_withoutMarkers, classDef_withoutMarkers]
  rfl

theorem modifyProgram_natural (id : ProgramId) {f : Program → Program}
    (same : ∀ p : Program, f p.withoutMarkers = (f p).withoutMarkers) : Natural (·.modifyProgram id f) := by
  intro s
  have programs : (s.programs.map Program.withoutMarkers).modify id f =
      (s.programs.modify id f).map Program.withoutMarkers := by
    refine Array.ext_getElem? fun k => ?_
    simp only [Array.getElem?_modify, Array.getElem?_map]
    cases s.programs[k]? with
    | none => simp
    | some p => simp only [Option.map_some]; split <;> simp only [Option.map_some, same]
  exact congrArg (fun programs => { s with programs }) programs

theorem define_natural (id : ProgramId) (name : String) (v : Value) : Natural (·.define id name v) :=
  modifyProgram_natural id fun _ => rfl

theorem setStatic_natural (id : ClassId) (name : String) (v : Value) : Natural (·.setStatic id name v) :=
  modifyProgram_natural id.program fun _ => rfl

end Store

/-- A state with a store without markers. -/
def State.withoutMarkers (s : State) : State := ⟨s.store.withoutMarkers, s.control⟩

/-- Whether a class is still held does not depend on markers. -/
theorem State.ownerOf?_withoutMarkers (s : State) (p : Procedure) (locals : Bindings) :
    s.withoutMarkers.ownerOf? p.withoutMarkers locals = s.ownerOf? p locals := by
  have roots : s.withoutMarkers.roots locals = s.roots locals := by
    unfold State.roots State.withoutMarkers Store.withoutMarkers
    dsimp only
    rw [Array.toList_map, List.flatMap_map]
    rfl
  have keeps (c : ClassId) : s.withoutMarkers.keeps c locals = s.keeps c locals := by
    unfold State.keeps
    rw [roots]
    simp only [State.withoutMarkers, Store.isDeclared_withoutMarkers, Store.heldBy_withoutMarkers,
      Store.lasting_withoutMarkers, Store.allHolders_withoutMarkers]
  unfold State.ownerOf?
  simp only [keeps]
  rfl

/-- A computation on the store that comes to the same without markers. -/
def StoreM.Natural {α : Type} (x : StoreM α) : Prop :=
  ∀ s : Store, x s.withoutMarkers = mapState Store.withoutMarkers (x s)

namespace StoreM.Natural

variable {α β : Type} {x : StoreM α} {f : α → StoreM β}

theorem pure (a : α) : Natural (Pure.pure a) := fun _ => rfl

theorem fail (e : RuntimeError) : Natural (StoreM.fail e : StoreM α) := fun _ => rfl

theorem ofExcept (c : Except RuntimeError α) : Natural (StoreM.ofExcept c) := by
  intro s
  cases c <;> rfl

theorem ofOption (o : Option α) : Natural (StoreM.ofOption o) := by
  intro s
  cases o <;> rfl

theorem bind (first : Natural x) (rest : ∀ a, Natural (f a)) : Natural (x >>= f) := by
  intro s
  have here := first s
  simp only [Bind.bind, EStateM.bind]
  cases run : x s with
  | ok a t =>
    rw [run] at here
    rw [here]
    exact rest a t
  | error halt t =>
    rw [run] at here
    rw [here]
    rfl

/-- What reads the whole store may look at it in ways that are blind. -/
theorem get {f : Store → StoreM α} (rest : ∀ s, Natural (f s)) (blind : Store.Blind f) :
    Natural (MonadState.get >>= f) := by
  intro s
  change f s.withoutMarkers s.withoutMarkers = mapState Store.withoutMarkers (f s s)
  rw [blind s]
  exact rest s s

theorem read {f : Store → α} (blind : Store.Blind f) : Natural (StoreM.read f) :=
  get (fun s => pure (f s)) fun s => congrArg Pure.pure (blind s)

theorem modify {g : Store → Store} (natural : Store.Natural g) : Natural (modify g : StoreM PUnit) :=
  fun s => congrArg (EStateM.Result.ok PUnit.unit) (natural s)

theorem allocate {g : Store → α × Store} (same : ∀ s : Store, g s.withoutMarkers = ((g s).1, (g s).2.withoutMarkers)) :
    Natural (StoreM.allocate g) := by
  intro s
  unfold StoreM.allocate
  rw [same]
  rfl

/-- The store after it does not depend on markers. -/
theorem final (natural : Natural x) : Store.Natural fun s => finalState (x s) := by
  intro s
  change finalState (x s.withoutMarkers) = (finalState (x s)).withoutMarkers
  rw [natural s]
  cases x s <;> rfl

/-- How it ends does not depend on markers. -/
theorem outcome (natural : Natural x) : Store.Blind fun s => mapState (fun _ => ()) (x s) := by
  intro s
  change mapState (fun _ => ()) (x s.withoutMarkers) = mapState (fun _ => ()) (x s)
  rw [natural s]
  cases x s <;> rfl

end StoreM.Natural

section

variable (s : Store) (args : Arguments) (name : String)

@[simp] theorem Arguments.number_withoutMarkers (index : Nat) :
    args.number s.withoutMarkers name index = args.number s name index := by
  simp only [Arguments.number, Store.typeName_withoutMarkers]

@[simp] theorem Store.index_withoutMarkers (v : Value) (length : Nat) :
    s.withoutMarkers.index v length = s.index v length := by
  simp only [Store.index, typeName_withoutMarkers]

namespace Method

@[simp] theorem operand_withoutMarkers : operand s.withoutMarkers name args = operand s name args := by
  simp only [operand, Arguments.number_withoutMarkers]

@[simp] theorem textOperand_withoutMarkers : textOperand s.withoutMarkers name args = textOperand s name args := by
  simp only [textOperand, Store.typeName_withoutMarkers]

@[simp] theorem indexOperand_withoutMarkers (length : Nat) :
    indexOperand s.withoutMarkers name args length = indexOperand s name args length := by
  simp only [indexOperand, Store.index_withoutMarkers]

theorem number_withoutMarkers (n : Float) : number s.withoutMarkers n name args = number s n name args := by
  simp only [number, divide, operand_withoutMarkers]

theorem pair_withoutMarkers (first second : Value) :
    pair s.withoutMarkers first second name args = pair s first second name args := by
  simp only [pair, indexOperand_withoutMarkers]

theorem pureText_withoutMarkers (t : String) : pureText s.withoutMarkers t name args = pureText s t name args := by
  simp only [pureText, compareText, substring, textOperand_withoutMarkers, indexOperand_withoutMarkers,
    Store.index_withoutMarkers]

end Method

end

namespace Method

open StoreM (Natural)

variable {rules : ObjectRules} {name : String} {args : Arguments}

theorem newList_natural {items : Store → Array Value} (blind : Store.Blind items) :
    Natural (StoreM.allocate fun s => s.addList (items s)) :=
  .allocate fun s => by
    rw [blind s]
    rfl

theorem writeList_natural {r : Ref .list} (f : Array Value → Array Value) : Natural (writeList r f) :=
  .modify fun _ => rfl

theorem text_natural (t : String) : Natural (text rules t name args) := by
  unfold text
  refine .get (fun s => ?_) fun s => ?_
  · split
    · exact (Natural.ofExcept _).bind fun v => (Natural.ofOption _).bind fun more => .pure _
    · refine (Natural.ofExcept _).bind fun separator => ?_
      split
      · exact .fail _
      · exact newList_natural fun _ => rfl
    · exact .ofExcept _
  · simp only [Store.text?_withoutMarkers, textOperand_withoutMarkers, pureText_withoutMarkers]

theorem list_natural (r : Ref .list) : Natural (list rules r name args) := by
  unfold list
  refine (Natural.read fun _ => rfl).bind fun length => ?_
  have item (name : String) : Natural (do
      let s ← get
      let i ← StoreM.ofExcept (indexOperand s name args length)
      pure ((s.list r).getD i .null)) :=
    .get (fun s => (Natural.ofExcept _).bind fun _ => .pure _) fun s => by
      simp only [indexOperand_withoutMarkers]
      rfl
  have put (name : String) : Natural (do
      let p ← StoreM.ofExcept (two name args)
      let i ← StoreM.read fun s => s.index p.1 length
      let i ← StoreM.ofExcept i
      writeList r (·.setIfInBounds i p.2)
      pure p.2) :=
    (Natural.ofExcept _).bind fun p => (Natural.read fun s => s.index_withoutMarkers _ _).bind fun _ =>
      (Natural.ofExcept _).bind fun _ => (writeList_natural _).bind fun _ => .pure _
  split
  case h_1 => exact .ofExcept _
  case h_2 | h_3 | h_4 => exact item _
  case h_5 | h_6 => exact put _
  case h_7 =>
    refine (Natural.ofExcept _).bind fun operands => ?_
    refine (Natural.read fun s => s.index_withoutMarkers _ _).bind fun i => (Natural.ofExcept _).bind fun i => ?_
    exact (writeList_natural _).bind fun _ => .pure _
  case h_8 => exact (Natural.ofExcept _).bind fun v => (writeList_natural _).bind fun _ => .pure _
  case h_9 =>
    refine (Natural.read fun s => indexOperand_withoutMarkers s args _ _).bind fun i => ?_
    refine (Natural.ofExcept _).bind fun i => (Natural.read fun _ => rfl).bind fun v => ?_
    exact (writeList_natural _).bind fun _ => .pure _
  case h_10 =>
    refine (Natural.ofExcept _).bind fun _ => (Natural.read fun _ => rfl).bind fun last => ?_
    cases last with
    | none => exact .fail _
    | some v => exact (writeList_natural _).bind fun _ => .pure _
  case h_11 | h_12 =>
    refine (Natural.ofExcept _).bind fun needle => .read fun s => ?_
    simp only [Store.equals_withoutMarkers]
    rfl
  case h_13 => exact (Natural.ofExcept _).bind fun _ => (writeList_natural _).bind fun _ => .pure _
  case h_14 =>
    refine (Natural.ofExcept _).bind fun other => ?_
    split
    · exact newList_natural fun _ => rfl
    · exact .get (fun s => .fail _) fun s => by rw [Store.typeName_withoutMarkers]
  case h_15 => exact .fail _

theorem keyOf_natural (v : Value) : Natural (keyOf rules v) :=
  .get (fun s => .ofExcept _) fun s => by rw [Store.key_withoutMarkers]

theorem keyOperand_natural : Natural (keyOperand rules name args) :=
  (Natural.ofExcept _).bind fun v => keyOf_natural v

theorem lookUp_natural (r : Ref .map) (key : Key) : Natural (lookUp rules r key) :=
  .read fun s => by
    rw [Store.sameKey_withoutMarkers]
    rfl

/-- Writing to a map by the equality of its keys. -/
theorem writeMap_natural {r : Ref .map} (f : (Key → Key → Bool) → Dict Key Value → Dict Key Value) :
    Natural (modify fun s => s.modifyMap r (f (s.sameKey rules)) : StoreM PUnit) :=
  .modify fun s => by
    rw [Store.sameKey_withoutMarkers]
    rfl

theorem writeSet_natural {r : Ref .set} (f : (Key → Key → Bool) → Dict Key Unit → Dict Key Unit) :
    Natural (modify fun s => s.modifySet r (f (s.sameKey rules)) : StoreM PUnit) :=
  .modify fun s => by
    rw [Store.sameKey_withoutMarkers]
    rfl

theorem map_natural (r : Ref .map) : Natural (map rules r name args) := by
  unfold map
  split
  case h_1 => exact (Natural.ofExcept _).bind fun _ => .read fun _ => rfl
  case h_2 => exact keyOperand_natural.bind fun key => (lookUp_natural r key).bind fun found => .pure _
  case h_3 =>
    refine keyOperand_natural.bind fun key => (lookUp_natural r key).bind fun found => ?_
    cases found with
    | some v => exact .pure v
    | none =>
      refine .get (fun s => (Natural.ofOption _).bind fun text => .fail _) fun s => ?_
      rw [Store.text?_withoutMarkers]
  case h_4 | h_5 | h_6 =>
    refine (Natural.ofExcept _).bind fun _ => (keyOf_natural _).bind fun key => ?_
    exact (writeMap_natural fun same d => d.insert same key _).bind fun _ => .pure _
  case h_7 =>
    refine keyOperand_natural.bind fun key => (lookUp_natural r key).bind fun found => ?_
    exact (writeMap_natural fun same d => d.erase same key).bind fun _ => .pure _
  case h_8 =>
    refine keyOperand_natural.bind fun key => .read fun s => ?_
    rw [Store.sameKey_withoutMarkers]
    rfl
  case h_9 | h_10 => exact (Natural.ofExcept _).bind fun _ => newList_natural fun _ => rfl
  case h_11 =>
    refine .get (fun s => (Natural.ofExcept _).bind fun i => ?_) fun s => ?_
    · split
      · exact .allocate fun _ => rfl
      · exact .fail _
    · simp only [indexOperand_withoutMarkers]
      rfl
  case h_12 => exact .fail _

theorem set_natural (r : Ref .set) : Natural (set rules r name args) := by
  unfold set
  have present (key : Key) : Natural (isIn rules r key) := .read fun s => by
    rw [Store.sameKey_withoutMarkers]
    rfl
  split
  case h_1 => exact (Natural.ofExcept _).bind fun _ => .read fun _ => rfl
  case h_2 =>
    refine keyOperand_natural.bind fun key => (present key).bind fun _ => ?_
    exact (writeSet_natural fun same d => d.insert same key ()).bind fun _ => .pure _
  case h_3 =>
    refine keyOperand_natural.bind fun key => (present key).bind fun _ => ?_
    exact (writeSet_natural fun same d => d.erase same key).bind fun _ => .pure _
  case h_4 => exact keyOperand_natural.bind fun key => (present key).bind fun _ => .pure _
  case h_5 => exact (Natural.ofExcept _).bind fun _ => newList_natural fun _ => rfl
  case h_6 =>
    refine .get (fun s => (Natural.ofExcept _).bind fun i => ?_) fun s => ?_
    · split
      · exact .pure _
      · exact .fail _
    · simp only [indexOperand_withoutMarkers]
      rfl
  case h_7 => exact .fail _

theorem ofKind_natural (receiver : Value) : Natural (ofKind rules receiver name args) := by
  unfold ofKind
  refine .get (fun s => ?_) fun s => ?_
  · split
    · exact .ofExcept _
    · exact text_natural _
    · exact .ofExcept _
    · exact list_natural _
    · exact map_natural _
    · exact set_natural _
    · exact .ofExcept _
    · exact .fail _
  · simp only [number_withoutMarkers, pair_withoutMarkers, Store.typeName_withoutMarkers]

variable (rules name args) in
/-- A built-in method does not notice markers. -/
theorem call_natural (receiver : Value) : Natural (call rules receiver name args) := by
  unfold call
  split
  · refine (Natural.ofExcept _).bind fun other => .read fun s => ?_
    rw [Store.equals_withoutMarkers]
  · refine (Natural.ofExcept _).bind fun other => .read fun s => ?_
    rw [Store.equals_withoutMarkers]
  · refine (Natural.ofExcept _).bind fun _ => .get (fun s => (Natural.ofOption _).bind fun _ => .pure _) fun s => ?_
    rw [Store.text?_withoutMarkers]
  · exact ofKind_natural receiver

end Method

end ScriptEngine
