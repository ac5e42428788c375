import ScriptEngine.Proofs.Containers

/-! # Histories of maps and sets

A history of a map or a set has the calls on it since it was made, with whatever else happens to the store between
them. The calls say what finite map the container is, and this says what the container answers to the next call.
-/

namespace ScriptEngine

/-- A list, a map, a set or an instance is changed in any way. -/
inductive Store.Mutates (s : Store) : CellKind → Nat → Store → Prop
  | list (r : Ref .list) (f : Array Value → Array Value) : Mutates s .list r.index (s.modifyList r f)
  | map (r : Ref .map) (f : Dict Key Value → Dict Key Value) : Mutates s .map r.index (s.modifyMap r f)
  | set (r : Ref .set) (f : Dict Key Unit → Dict Key Unit) : Mutates s .set r.index (s.modifySet r f)
  | inst (r : Ref .inst) (f : Instance → Instance) :
    Mutates s .inst r.index { s with instances := s.instances.modify r.index f }

/-- A change of a store that leaves the objects that are there as they are, and a container as well. -/
structure Store.Spares {α : Type} (cell : Store → Option (Dict Key α)) (s s' : Store) : Prop where
  objects : s.IsPartOf s'
  cell : cell s' = cell s

namespace Store

variable {s s' : Store} {kind : CellKind} {index : Nat}

theorem IsPartOf.of_objects (same : s'.objects = s.objects) : s.IsPartOf s' :=
  ⟨Nat.le_of_eq (congrArg Array.size same.symm), fun r _ => congrArg (·.getD r.index default) same⟩

/-- Whatever happens to another cell, a map is spared. -/
theorem Mutates.spares_map (mutates : s.Mutates kind index s') {r : Ref .map}
    (other : (kind, index) ≠ (.map, r.index)) : s.Spares (·.maps[r.index]?) s' := by
  cases mutates with
  | map q f =>
    have apart : q.index ≠ r.index := fun same => other (same ▸ rfl)
    exact ⟨.of_objects rfl, by simp [modifyMap, Array.getElem?_modify, apart]⟩
  | _ => exact ⟨.of_objects rfl, rfl⟩

end Store

/-- The calls on a container, and the store after them: the container is made with some of them, and then there are
calls and changes that spare it. -/
inductive Timeline {C α : Type} (cell : Store → Option (Dict Key α)) (made : List C → Store → Prop)
    (call : C → Store → Store → Prop) : List C → Store → Prop
  | made {calls : List C} {s : Store} : made calls s → Timeline cell made call calls s
  | call {calls : List C} {c : C} {s s' : Store} :
    Timeline cell made call calls s → call c s s' → Timeline cell made call (calls ++ [c]) s'
  | spare {calls : List C} {s s' : Store} :
    Timeline cell made call calls s → s.Spares cell s' → Timeline cell made call calls s'

/-- No two keys are equal. -/
def Store.KeepsApart {α : Type} (rules : ObjectRules) (s : Store) (d : Dict Key α) : Prop :=
  d.entries.Pairwise fun e f => s.equals rules e.1.value f.1.value = false

/-- Entries that are written one after the other, with the keys that values become. -/
def Store.written {α : Type} (rules : ObjectRules) (s : Store) (entries : List (Value × α)) (d : Dict Key α) :
    Except RuntimeError (Dict Key α) :=
  entries.foldlM (fun d e => do
    let key ← s.key rules e.1
    pure (d.insert (s.sameKey rules) key e.2)) d

namespace KeyedContainer

variable {C α : Type} (K : KeyedContainer C α) (rules : ObjectRules) (parts : Nat → Value × Value)

/-- What a call makes of a finite map. -/
noncomputable def effect (w : Store) (m : ClassMap α) (c : C) : ClassMap α := m.changed rules parts w (K.change? c)

/-- A call on a container with a sound value as its key, and the store that it leaves. -/
def Happens (c : C) (s s' : Store) : Prop :=
  (∀ k ∈ K.key? c, k.IsSound parts s) ∧
    ∃ args : Arguments, args.values = K.operands c ∧
      Reply.store (Method.call rules K.receiver (K.name c) args s) = s'

/-- A container has some entries, which calls would have written one after the other. -/
inductive IsBuilt (calls : List C) (s : Store) : Prop
  | of {t : Store} {d : Dict Key α} {entries : List (Value × α)} (sound : ∀ e ∈ entries, e.1.IsSound parts t)
    (written : t.written rules entries .empty = .ok d) (part : t.IsPartOf s) (found : K.cell s = some d)
    (writes : calls.map K.change? = entries.map fun e => some (e.1, some e.2))

/-- A container is a finite map on classes of equal keys: it has one entry for each class, answers every call with keys
as the finite map does, and refuses a value that cannot be a key without any change. -/
structure Is (s : Store) (m : ClassMap α) : Prop where
  apart : s.KeepsApart rules (K.dict s)
  size_eq : (K.dict s).size = m.size
  answers : ∀ (c : C) (args : Arguments), args.values = K.operands c → (∀ k ∈ K.key? c, s.IsKey rules parts k) →
    K.IsAnswered rules parts s m s (Method.call rules K.receiver (K.name c) args s) c
  refuses : ∀ (c : C) (args : Arguments), args.values = K.operands c →
    ∀ k ∈ K.key? c, ∀ e, s.hashCode rules k = .error e →
      Method.call rules K.receiver (K.name c) args s = .error (.failed e) s

/-- A container of a store is a finite map on classes, as a store with more objects has them. -/
def Holds (w s : Store) (m : ClassMap α) : Prop := ∃ d, K.cell s = some d ∧ d.Represents rules parts s w m

end KeyedContainer

/-- A map is made of some entries as if they were written one after the other. -/
inductive MapCall.Make (host : Host) (parts : Nat → Value × Value) (r : Ref .map) : List MapCall → Store → Prop
  /-- A script calls the function of that name, or it has a literal. -/
  | call {runs : Calls} {t : State} {s : Store} {control : Control} {args : Arguments}
      {entries : List (Nat × Value × Value)} :
    args.values = entries.map (fun e => .pair e.1 e.2.1 e.2.2) → (∀ e ∈ entries, e.2.1.IsSound parts t.store) →
      Builtin.call host runs .map args t = .ok (.map r) ⟨s, control⟩ →
      Make host parts r (entries.map fun e => .set e.2.1 e.2.2) s
  /-- A host makes it of keys and values. -/
  | host {t s : Store} {d : Dict Key Value} {entries : List (Value × Value)} :
    (∀ e ∈ entries, e.1.IsSound parts t) → Builtin.dictOf host.rules t entries = .ok d → t.IsPartOf s →
      s.maps[r.index]? = some d → Make host parts r (entries.map fun e => .set e.1 e.2) s

/-- A set is made of some values as if they were inserted one after the other. -/
inductive SetCall.Make (host : Host) (parts : Nat → Value × Value) (r : Ref .set) : List SetCall → Store → Prop
  /-- A script calls the function of that name. -/
  | call {runs : Calls} {t : State} {s : Store} {control : Control} {args : Arguments} :
    (∀ v ∈ args.values, v.IsSound parts t.store) → Builtin.call host runs .set args t = .ok (.set r) ⟨s, control⟩ →
      Make host parts r (args.values.map .insert) s
  /-- A host makes it of values. -/
  | host {t s : Store} {d : Dict Key Unit} {values : List Value} :
    (∀ v ∈ values, v.IsSound parts t) → Builtin.keysOf host.rules t values = .ok d → t.IsPartOf s →
      s.sets[r.index]? = some d → Make host parts r (values.map .insert) s

/-- The calls on a map since it was made, and the store after them. -/
abbrev MapCall.History (host : Host) (parts : Nat → Value × Value) (r : Ref .map) : List MapCall → Store → Prop :=
  Timeline (container r).cell (Make host parts r) ((container r).Happens host.rules parts)

/-- The calls on a set since it was made, and the store after them. -/
abbrev SetCall.History (host : Host) (parts : Nat → Value × Value) (r : Ref .set) : List SetCall → Store → Prop :=
  Timeline (container r).cell (Make host parts r) ((container r).Happens host.rules parts)

section

variable {rules : ObjectRules} {parts : Nat → Value × Value} {s s' w : Store}

/-- Entries written in order after others are written in order to the finite map. -/
theorem Dict.Represents.written {α : Type} (lawful : rules.IsLawful w) (part : s.IsPartOf w)
    {entries : List (Value × α)} (sound : ∀ e ∈ entries, e.1.IsSound parts s) {d d' : Dict Key α} {m : ClassMap α}
    (rep : d.Represents rules parts s w m) (made : s.written rules entries d = .ok d') :
    d'.Represents rules parts s w
      ((entries.map fun e => some (e.1, some e.2)).foldl (ClassMap.changed rules parts w) m) := by
  induction entries generalizing d m with
  | nil =>
    cases made
    exact rep
  | cons first rest ih =>
    obtain ⟨k, a⟩ := first
    obtain ⟨here, others⟩ := List.forall_mem_cons.mp sound
    unfold Store.written at made
    rw [List.foldlM_cons] at made
    dsimp only at made
    cases keyed : s.key rules k with
    | error e =>
      rw [keyed] at made
      cases made
    | ok key =>
      rw [keyed] at made
      obtain ⟨rfl, has⟩ := Store.hasKey_of_key here keyed
      rw [List.map_cons, List.foldl_cons, ClassMap.changed, if_pos (part.isKey has.isKey)]
      exact ih others (rep.insert part lawful has) made

/-- Entries of distinct classes have keys that differ. -/
theorem Dict.Represents.keepsApart {α : Type} (lawful : rules.IsLawful s) {d : Dict Key α} {m : ClassMap α}
    (rep : d.Represents rules parts s s m) : s.KeepsApart rules d := by
  refine (List.pairwise_map.mp rep.distinct).imp_of_mem fun {e f} left right other => ?_
  rw [Bool.eq_false_iff]
  intro same
  exact other ((Store.keyClass_eq_iff lawful (rep.keys e left).isKey (rep.keys f right).isKey).mpr same)

namespace KeyedContainer

variable {C α : Type} {K : KeyedContainer C α} {c : C} {calls : List C} {m : ClassMap α}

/-- A container that was just made is what the calls make of the empty map that would have written its entries. -/
theorem IsBuilt.holds (built : K.IsBuilt rules parts calls s) (lawful : rules.IsLawful w) (part : s.IsPartOf w) :
    K.Holds rules parts w s (calls.foldl (K.effect rules parts w) .empty) := by
  obtain ⟨sound, written, before, found, writes⟩ := built
  have rep := Dict.Represents.empty.written lawful (before.trans part) sound written
  rw [← writes, List.foldl_map] at rep
  exact ⟨_, found, rep.mono before⟩

theorem reply_isPartOf {key : Key} : s.IsPartOf (K.reply rules s key c).store :=
  .of_objects (K.reply_objects rules s key c)

/-- After a call a container is what the call makes of it. -/
theorem Holds.reply {key : Key} (lawful : rules.IsLawful w) (part : s.IsPartOf w) (holds : K.Holds rules parts w s m)
    (made : ∀ k ∈ K.key? c, key.value = k ∧ s.HasKey rules parts key) :
    K.Holds rules parts w (K.reply rules s key c).store (K.effect rules parts w m c) := by
  obtain ⟨d, found, rep⟩ := holds
  have cell := K.reply_cell rules key c found
  unfold effect
  cases change : K.change? c with
  | none =>
    rw [change] at cell
    exact ⟨d, cell, rep.mono reply_isPartOf⟩
  | some entry =>
    obtain ⟨k, b⟩ := entry
    obtain ⟨rfl, keyed⟩ := made k (K.keyed change)
    rw [change] at cell
    rw [ClassMap.changed, if_pos (part.isKey keyed.isKey)]
    exact ⟨_, cell, (rep.changed part lawful keyed b).mono reply_isPartOf⟩

/-- A call with a value that is no key makes nothing of a finite map. -/
theorem effect_of_not_isKey {k : Value} (asked : k ∈ K.key? c) (other : ¬w.IsKey rules parts k) :
    K.effect rules parts w m c = m := by
  unfold effect
  cases change : K.change? c with
  | none => rfl
  | some entry =>
    obtain ⟨k', b⟩ := entry
    cases (K.keyed change).symm.trans asked
    exact if_neg other

theorem Happens.isPartOf (happens : K.Happens rules parts c s s') : s.IsPartOf s' := by
  obtain ⟨sound, args, given, rfl⟩ := happens
  rw [K.call_eq c given]
  rcases Store.replied_cases sound with ⟨key, same, _⟩ | ⟨k, asked, e, refused⟩
  · exact same ▸ reply_isPartOf
  · rw [Store.replied_refused asked refused]
    exact .refl s

theorem Happens.holds (happens : K.Happens rules parts c s s') (lawful : rules.IsLawful w) (part : s.IsPartOf w)
    (holds : K.Holds rules parts w s m) : K.Holds rules parts w s' (K.effect rules parts w m c) := by
  obtain ⟨sound, args, given, rfl⟩ := happens
  rw [K.call_eq c given]
  rcases Store.replied_cases sound with ⟨key, same, made⟩ | ⟨k, asked, e, refused⟩
  · exact same ▸ holds.reply lawful part made
  · rw [Store.replied_refused asked refused, effect_of_not_isKey asked (part.not_isKey (sound k asked) refused)]
    exact holds

/-- A container is what the calls on it make of the empty map, whatever happens to the store between them. -/
theorem holds {made : List C → Store → Prop} (timeline : Timeline K.cell made (K.Happens rules parts) calls s)
    (built : ∀ calls s, made calls s → K.IsBuilt rules parts calls s) (lawful : rules.IsLawful w)
    (part : s.IsPartOf w) : K.Holds rules parts w s (calls.foldl (K.effect rules parts w) .empty) := by
  induction timeline with
  | made here => exact (built _ _ here).holds lawful part
  | call _ happens ih =>
    have before := happens.isPartOf.trans part
    rw [List.foldl_append]
    exact happens.holds lawful before (ih before)
  | spare _ spares ih =>
    obtain ⟨d, found, rep⟩ := ih (spares.objects.trans part)
    exact ⟨d, spares.cell.trans found, rep.mono spares.objects⟩

theorem Holds.is (lawful : rules.IsLawful s) (holds : K.Holds rules parts s s m) : K.Is rules parts s m := by
  obtain ⟨d, found, rep⟩ := holds
  have here := K.dict_eq found
  refine ⟨here ▸ rep.keepsApart lawful, here ▸ rep.size_eq, fun c args given keys => ?_,
    fun c args given k asked e refused => ?_⟩
  · obtain ⟨key, same, made⟩ := Store.replied_of_isKey keys
    rw [K.call_eq c given, same]
    exact K.reply_answers c (.refl s) lawful found rep made
  · rw [K.call_eq c given]
    exact Store.replied_refused asked refused

end KeyedContainer

variable {host : Host} {runs : Calls} {t t' : State} {args : Arguments}

theorem Builtin.mapEntries_pairs (entries : List (Nat × Value × Value)) :
    mapEntries s (entries.map fun e => .pair e.1 e.2.1 e.2.2) = .ok (entries.map Prod.snd) := by
  unfold mapEntries
  induction entries with
  | nil => rfl
  | cons first rest ih =>
    rw [List.map_cons, List.mapM_cons, ih]
    rfl

theorem Builtin.call_map {r : Ref .map} (made : call host runs .map args t = .ok (.map r) t') :
    ∃ entries d, mapEntries t.store args.values = .ok entries ∧ dictOf host.rules t.store entries = .ok d ∧
      t'.store.objects = t.store.objects ∧ t'.store.maps[r.index]? = some d := by
  change (Exec.ofExcept (args.withoutKeywords "Map") >>= _) t = _ at made
  obtain ⟨values, _, read, made⟩ := bind_eq_ok_iff.mp made
  obtain ⟨given, rfl⟩ := ofExcept_eq_ok_iff.mp read
  obtain ⟨entries, _, read, made⟩ := bind_eq_ok_iff.mp made
  obtain ⟨paired, rfl⟩ := ofExcept_eq_ok_iff.mp read
  obtain ⟨d, _, read, made⟩ := bind_eq_ok_iff.mp made
  obtain ⟨written, rfl⟩ := ofExcept_eq_ok_iff.mp read
  cases made
  exact ⟨entries, d, Arguments.withoutKeywords_eq given ▸ paired, written, rfl, Array.getElem?_push_size⟩

theorem Builtin.call_set {r : Ref .set} (made : call host runs .set args t = .ok (.set r) t') :
    ∃ d, keysOf host.rules t.store args.values = .ok d ∧ t'.store.objects = t.store.objects ∧
      t'.store.sets[r.index]? = some d := by
  change (Exec.ofExcept (args.withoutKeywords "Set") >>= _) t = _ at made
  obtain ⟨values, _, read, made⟩ := bind_eq_ok_iff.mp made
  obtain ⟨given, rfl⟩ := ofExcept_eq_ok_iff.mp read
  obtain ⟨d, _, read, made⟩ := bind_eq_ok_iff.mp made
  obtain ⟨inserted, rfl⟩ := ofExcept_eq_ok_iff.mp read
  cases made
  exact ⟨d, Arguments.withoutKeywords_eq given ▸ inserted, rfl, Array.getElem?_push_size⟩

/-- The entries of a map that was just made are those that it was made of. -/
theorem MapCall.Make.isBuilt {r : Ref .map} {calls : List MapCall} (made : Make host parts r calls s) :
    (container r).IsBuilt host.rules parts calls s := by
  cases made with
  | host sound written before found =>
    exact .of sound written before found (by rw [List.map_map]; rfl)
  | call given sound made =>
    obtain ⟨read, d, paired, written, same, found⟩ := Builtin.call_map made
    rw [given, Builtin.mapEntries_pairs] at paired
    cases paired
    exact .of (List.forall_mem_map.mpr sound) written (.of_objects same) found (by rw [List.map_map, List.map_map]; rfl)

/-- The keys of a set that was just made are the values that it was made of. -/
theorem SetCall.Make.isBuilt {r : Ref .set} {calls : List SetCall} (made : Make host parts r calls s) :
    (container r).IsBuilt host.rules parts calls s := by
  have keys {t : Store} {values : List Value} {d : Dict Key Unit} (sound : ∀ v ∈ values, v.IsSound parts t)
      (inserted : Builtin.keysOf host.rules t values = .ok d) (before : t.IsPartOf s)
      (found : s.sets[r.index]? = some d) : (container r).IsBuilt host.rules parts (values.map .insert) s := by
    have written : t.written host.rules (values.map fun v => (v, ())) .empty = .ok d := by
      unfold Store.written
      rw [List.foldlM_map]
      exact inserted
    exact .of (List.forall_mem_map.mpr sound) written before found (by rw [List.map_map, List.map_map]; rfl)
  cases made with
  | host sound inserted before found => exact keys sound inserted before found
  | call sound made =>
    obtain ⟨d, inserted, same, found⟩ := Builtin.call_set made
    exact keys sound inserted (.of_objects same) found

end

/-- After any calls on it, a map is the finite map that the calls make of the empty one, and so is a set. The last
write to a class counts, a removal takes the whole class away, and what happens to other containers, to instances or
to what keys refer to makes no difference. -/
theorem Store.refines_class_map (host : Host) (parts : Nat → Value × Value) (s : Store)
    (lawful : host.rules.IsLawful s) :
    (∀ r calls, MapCall.History host parts r calls s →
      (MapCall.container r).Is host.rules parts s
        (calls.foldl ((MapCall.container r).effect host.rules parts s) .empty)) ∧
    ∀ r calls, SetCall.History host parts r calls s →
      (SetCall.container r).Is host.rules parts s
        (calls.foldl ((SetCall.container r).effect host.rules parts s) .empty) :=
  ⟨fun _ _ history => (KeyedContainer.holds history (fun _ _ made => made.isBuilt) lawful (.refl s)).is lawful,
    fun _ _ history => (KeyedContainer.holds history (fun _ _ made => made.isBuilt) lawful (.refl s)).is lawful⟩

/-- A host whose objects are keys that are known by their identity. -/
def Host.keyed : Host := { Host.none with rules := { ObjectRules.identity with hashKey := fun _ => some 0 } }

/-- An object and a list, as the parts of every pair. -/
def objectParts (_ : Nat) : Value × Value := (.object ⟨0⟩, .list ⟨0⟩)

/-- A pair of that object and that list: equal to the others, under its own identity. -/
def objectPair (identity : Nat) : Value := .pair identity (.object ⟨0⟩) (.list ⟨0⟩)

/-- The list in a key is changed between a write and another one with an equal key. -/
theorem Store.changedKey_refines :
    ∃ s, Host.keyed.rules.IsLawful s ∧
      MapCall.History .keyed objectParts ⟨0⟩
        [.set (objectPair 1) (.string "old"), .set (objectPair 2) (.string "new")] s ∧
      (MapCall.container ⟨0⟩).Is Host.keyed.rules objectParts s
        ([MapCall.set (objectPair 1) (.string "old"), .set (objectPair 2) (.string "new")].foldl
          ((MapCall.container ⟨0⟩).effect Host.keyed.rules objectParts s) .empty) := by
  have lawful (s : Store) : Host.keyed.rules.IsLawful s := ObjectRules.isLawful_of_identity (fun _ _ => rfl) s
  have sound {t : Store} (i : Nat) (there : 0 < t.objects.size) : (objectPair i).IsSound objectParts t :=
    ⟨rfl, there, trivial⟩
  let t : State := ⟨((Store.empty.addList #[]).2.addObject default).2, .start⟩
  let entry : Arguments := [⟨none, .pair 0 (objectPair 1) (.string "old")⟩]
  obtain ⟨s, made, there⟩ : ∃ s, Builtin.call .keyed (.nested .keyed 0 0) .map entry t = .ok (.map ⟨0⟩) ⟨s, .start⟩ ∧
      0 < s.objects.size := ⟨_, rfl, by decide⟩
  have built : MapCall.Make .keyed objectParts ⟨0⟩ [.set (objectPair 1) (.string "old")] s :=
    @MapCall.Make.call _ _ _ _ t _ _ _ [(0, objectPair 1, .string "old")] rfl
      (List.forall_mem_singleton.mpr (sound 1 (by decide))) made
  have mutated := (Store.Mutates.list (s := s) ⟨0⟩ (·.push .null)).spares_map (r := ⟨0⟩) nofun
  obtain ⟨s', written⟩ : ∃ s', (MapCall.container ⟨0⟩).Happens Host.keyed.rules objectParts
      (.set (objectPair 2) (.string "new")) (s.modifyList ⟨0⟩ (·.push .null)) s' := by
    refine ⟨_, ?_, .positional [objectPair 2, .string "new"], rfl, rfl⟩
    rintro _ ⟨⟩
    exact sound 2 there
  have history := ((Timeline.made built).spare mutated).call written
  exact ⟨s', lawful s', history, (refines_class_map .keyed objectParts s' (lawful s')).1 _ _ history⟩

end ScriptEngine
