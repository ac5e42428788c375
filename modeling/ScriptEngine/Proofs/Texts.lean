import Mathlib.Data.List.Chain
import Mathlib.Data.List.Perm.Subperm
import Mathlib.Logic.Relation
import ScriptEngine.Proofs.Atomicity

/-! # Which values have a text

A value has no text if a container in it contains itself, and has one otherwise. For the text of a container is made
of those of its elements, so the elements of a container that is not read to its end nest without end; but there are
only so many containers in a store, and one of them comes again. A method call puts a container into itself only if
the container is in an argument already, so all other calls take no text away.
-/

namespace ScriptEngine

open Relation (ReflTransGen TransGen)

/-- The containers in a value that are in no other container. -/
def Value.containers : Value → List Container
  | .list r => [.list r]
  | .map r => [.map r]
  | .set r => [.set r]
  | .pair _ first second => first.containers ++ second.containers
  | _ => []

namespace Store

variable (s : Store)

/-- The values in a container, keys included. -/
def elements : Container → List Value
  | .list r => (s.list r).toList
  | .map r => (s.map r).entries.flatMap fun entry => [entry.1.value, entry.2]
  | .set r => (s.set r).entries.map fun entry => entry.1.value

/-- A container has another one as an element, or in one. -/
def Contains (c d : Container) : Prop := ∃ v ∈ s.elements c, d ∈ v.containers

/-- Somewhere in a value is a container that contains itself, in whatever it contains. -/
def IsCyclic (v : Value) : Prop :=
  ∃ c ∈ v.containers, ∃ d, ReflTransGen s.Contains c d ∧ TransGen s.Contains d d

/-- The containers of a store. -/
def containers : List Container :=
  (List.range s.lists.size).map (fun i => .list ⟨i⟩) ++ (List.range s.maps.size).map (fun i => .map ⟨i⟩) ++
    (List.range s.sets.size).map fun i => .set ⟨i⟩

theorem length_containers : s.containers.length = s.nesting := by
  simp only [containers, List.length_append, List.length_map, List.length_range, nesting]

variable {s} {c d : Container}

theorem elements_ne_nil (contains : s.Contains c d) : s.elements c ≠ [] := by
  obtain ⟨e, among, -⟩ := contains
  exact List.ne_nil_of_mem among

/-- A container that has elements is one of the store. -/
theorem mem_containers (some : s.elements c ≠ []) : c ∈ s.containers := by
  cases c with
  | list r =>
    have inside : r.index < s.lists.size := Nat.lt_of_not_le fun past => some (by simp [elements, list, past])
    refine List.mem_append_left _ (List.mem_append_left _ ?_)
    exact List.mem_map.mpr ⟨r.index, List.mem_range.mpr inside, rfl⟩
  | map r =>
    have inside : r.index < s.maps.size :=
      Nat.lt_of_not_le fun past => some (by simp [elements, map, past, Dict.empty])
    refine List.mem_append_left _ (List.mem_append_right _ ?_)
    exact List.mem_map.mpr ⟨r.index, List.mem_range.mpr inside, rfl⟩
  | set r =>
    have inside : r.index < s.sets.size :=
      Nat.lt_of_not_le fun past => some (by simp [elements, set, past, Dict.empty])
    refine List.mem_append_right _ ?_
    exact List.mem_map.mpr ⟨r.index, List.mem_range.mpr inside, rfl⟩

end Store

section

variable {α β : Type} {f : α → Option β} {as : List α}

theorem isSome_mapM : (as.mapM f).isSome ↔ ∀ a ∈ as, (f a).isSome := by
  induction as with
  | nil => simp
  | cons a rest ih =>
    rw [List.mapM_cons, List.forall_mem_cons, ← ih]
    cases f a with
    | none => simp
    | some b => cases rest.mapM f <;> simp

theorem isSome_bind_pure {o : Option α} {h : α → β} : (o >>= fun a => pure (h a)).isSome = o.isSome := by
  cases o <;> rfl

theorem mapM_congr {m : Type → Type} [Monad m] [LawfulMonad m] {g h : α → m β} (same : ∀ a ∈ as, g a = h a) :
    as.mapM g = as.mapM h := by
  induction as with
  | nil => rfl
  | cons a rest ih =>
    rw [List.mapM_cons, List.mapM_cons, same a List.mem_cons_self,
      ih fun b member => same b (List.mem_cons_of_mem _ member)]

end

namespace Store

variable {rules : ObjectRules} {s : Store} {element element' : Value → Option String} {v : Value} {c d : Container}
  {depth : Nat}

/-- The text of a value depends on those of the elements of the containers in it. -/
theorem textWith_congr (same : ∀ c ∈ v.containers, ∀ e ∈ s.elements c, element e = element' e) :
    s.textWith rules element v = s.textWith rules element' v := by
  induction v with
  | list r =>
    have each : ∀ e ∈ (s.list r).toList, element e = element' e := same (.list r) List.mem_cons_self
    rw [textWith, textWith, mapM_congr each]
  | map r =>
    have each : ∀ entry ∈ (s.map r).entries, element entry.1.value = element' entry.1.value ∧
        element entry.2 = element' entry.2 := by
      intro entry member
      have among (e : Value) (part : e ∈ [entry.1.value, entry.2]) : element e = element' e :=
        same (.map r) List.mem_cons_self e (List.mem_flatMap.mpr ⟨entry, member, part⟩)
      exact ⟨among _ (by simp), among _ (by simp)⟩
    rw [textWith, textWith, mapM_congr fun entry member => ?_]
    obtain ⟨key, value⟩ := each entry member
    simp only [key, value]
  | set r =>
    have each : ∀ entry ∈ (s.set r).entries, element entry.1.value = element' entry.1.value := fun entry member =>
      same (.set r) List.mem_cons_self _ (List.mem_map.mpr ⟨entry, member, rfl⟩)
    rw [textWith, textWith, mapM_congr fun entry member => ?_]
    exact each entry member
  | pair i a b first second =>
    have left := first fun c among => same c (List.mem_append_left _ among)
    have right := second fun c among => same c (List.mem_append_right _ among)
    rw [textWith, textWith, left, right]
  | _ => rfl

theorem isSome_textWith :
    (s.textWith rules element v).isSome ↔ ∀ c ∈ v.containers, ∀ e ∈ s.elements c, (element e).isSome := by
  induction v with
  | list r =>
    rw [textWith, isSome_bind_pure, isSome_mapM]
    simp only [Value.containers, List.forall_mem_singleton, elements]
  | map r =>
    have both (entry : Key × Value) : (do
        let k ← element entry.1.value
        let t ← element entry.2
        pure s!"{k}: {t}" : Option String).isSome ↔ ∀ e ∈ [entry.1.value, entry.2], (element e).isSome := by
      cases key : element entry.1.value <;> cases value : element entry.2 <;> simp [key, value]
    rw [textWith, isSome_bind_pure, isSome_mapM]
    simp only [both, Value.containers, List.forall_mem_singleton, elements, List.forall_mem_flatMap]
  | set r =>
    rw [textWith, isSome_bind_pure, isSome_mapM]
    simp only [Value.containers, List.forall_mem_singleton, elements, List.forall_mem_map]
  | pair i a b first second =>
    rw [Value.containers, List.forall_mem_append, ← first, ← second, textWith]
    cases s.textWith rules element a <;> cases s.textWith rules element b <;> simp
  | _ => simp [textWith, Value.containers]

/-- The text of a value is there when those of the containers in it are. -/
theorem isSome_textWithin : (s.textWithin rules depth v).isSome ↔
    ∀ c ∈ v.containers, (s.textWithin rules depth c.value).isSome := by
  have own (c : Container) : c.value.containers = [c] := by cases c <;> rfl
  cases depth with
  | zero => simp only [textWithin, isSome_textWith, own, List.forall_mem_singleton]
  | succ depth => simp only [textWithin, isSome_textWith, own, List.forall_mem_singleton]

/-- At the bottom only containers without elements have a text. -/
theorem isSome_textWithin_zero : (s.textWithin rules 0 c.value).isSome ↔ s.elements c = [] := by
  have own : c.value.containers = [c] := by cases c <;> rfl
  rw [textWithin, isSome_textWith, own, List.forall_mem_singleton]
  simp [List.eq_nil_iff_forall_not_mem]

/-- A container has a text if those in it have one, one level further down. -/
theorem isSome_textWithin_succ : (s.textWithin rules (depth + 1) c.value).isSome ↔
    ∀ d, s.Contains c d → (s.textWithin rules depth d.value).isSome := by
  have own : c.value.containers = [c] := by cases c <;> rfl
  rw [textWithin, isSome_textWith, own, List.forall_mem_singleton]
  constructor
  · rintro each d ⟨e, among, inside⟩
    exact isSome_textWithin.mp (each e among) d inside
  · intro each e among
    exact isSome_textWithin.mpr fun d inside => each d ⟨e, among, inside⟩

/-- What a container contains nests less deep. -/
theorem nests_less (contains : s.Contains c d) (nests : (s.textWithin rules depth c.value).isSome) :
    ∃ less < depth, (s.textWithin rules less d.value).isSome := by
  cases depth with
  | zero =>
    obtain ⟨e, among, -⟩ := contains
    rw [isSome_textWithin_zero.mp nests] at among
    cases among
  | succ depth => exact ⟨depth, Nat.lt_succ_self depth, isSome_textWithin_succ.mp nests d contains⟩

theorem nests_less_trans (contains : TransGen s.Contains c d) (nests : (s.textWithin rules depth c.value).isSome) :
    ∃ less < depth, (s.textWithin rules less d.value).isSome := by
  induction contains with
  | single contains => exact nests_less contains nests
  | tail _ contains ih =>
    obtain ⟨less, fewer, nests⟩ := ih
    obtain ⟨least, fewest, nests⟩ := nests_less contains nests
    exact ⟨least, Nat.lt_trans fewest fewer, nests⟩

/-- A container that has a text does not contain itself: it would nest less deep than it does. -/
theorem not_contains_self (nests : (s.textWithin rules depth c.value).isSome) : ¬ TransGen s.Contains c c := by
  intro contains
  induction depth using Nat.strong_induction_on with
  | _ depth ih =>
    obtain ⟨less, fewer, nests⟩ := nests_less_trans contains nests
    exact ih less fewer nests

/-- A value in which a container contains itself has no text, however deep its containers may nest. -/
theorem textWithin_cyclic (cyclic : s.IsCyclic v) (depth : Nat) : s.textWithin rules depth v = none := by
  obtain ⟨c, among, d, reached, itself⟩ := cyclic
  rw [← Option.not_isSome_iff_eq_none]
  intro nests
  have here := isSome_textWithin.mp nests c among
  rcases Relation.reflTransGen_iff_eq_or_transGen.mp reached with rfl | further
  · exact not_contains_self here itself
  · obtain ⟨less, -, nests⟩ := nests_less_trans further here
    exact not_contains_self nests itself

/-- Where a container has no text, containers with elements are in one another, one more than it may nest. -/
theorem chain_of_not_nests (deep : ¬ (s.textWithin rules depth c.value).isSome) :
    ∃ chain : List Container, chain.length = depth ∧ (c :: chain).IsChain s.Contains ∧
      ∀ d ∈ c :: chain, s.elements d ≠ [] := by
  induction depth generalizing c with
  | zero =>
    rw [isSome_textWithin_zero] at deep
    exact ⟨[], rfl, .singleton c, by simpa using deep⟩
  | succ depth ih =>
    rw [isSome_textWithin_succ] at deep
    obtain ⟨d, contains, deep⟩ : ∃ d, s.Contains c d ∧ ¬ (s.textWithin rules depth d.value).isSome := by
      simpa using deep
    obtain ⟨chain, length, linked, full⟩ := ih deep
    refine ⟨d :: chain, by rw [List.length_cons, length], .cons_cons contains linked, ?_⟩
    exact List.forall_mem_cons.mpr ⟨elements_ne_nil contains, full⟩

/-- A chain has no more links than there are containers, if none of them contains itself. -/
theorem length_chain {chain : List Container} (linked : chain.IsChain s.Contains)
    (full : ∀ d ∈ chain, s.elements d ≠ []) (acyclic : ∀ d ∈ chain, ¬ TransGen s.Contains d d) :
    chain.length ≤ s.nesting := by
  have further : chain.IsChain (TransGen s.Contains) := linked.imp fun _ _ => .single
  have distinct : chain.Nodup := by
    refine further.pairwise.imp_of_mem ?_
    rintro c d among - contains rfl
    exact acyclic c among contains
  rw [← length_containers]
  exact (distinct.subperm fun d among => mem_containers (full d among)).length_le

/-- The containers of a chain are reached from its first one. -/
theorem reached_of_chain {chain : List Container} (linked : (c :: chain).IsChain s.Contains) :
    ∀ d ∈ c :: chain, ReflTransGen s.Contains c d := by
  induction chain generalizing c with
  | nil =>
    intro d member
    rw [List.mem_singleton.mp member]
  | cons first rest ih =>
    obtain ⟨contains, linked⟩ := List.isChain_cons_cons.mp linked
    refine List.forall_mem_cons.mpr ⟨.refl, fun d member => ?_⟩
    exact .head contains (ih linked d member)

/-- **A value has no text exactly if a container in it contains itself.** -/
theorem text?_eq_none_iff : s.text? rules v = none ↔ s.IsCyclic v := by
  constructor
  · intro missing
    have deep : ¬ (s.textWithin rules s.nesting v).isSome := by
      rw [Option.not_isSome_iff_eq_none]
      exact missing
    rw [isSome_textWithin] at deep
    obtain ⟨c, among, deep⟩ : ∃ c ∈ v.containers, ¬ (s.textWithin rules s.nesting c.value).isSome := by
      simpa using deep
    obtain ⟨chain, length, linked, full⟩ := chain_of_not_nests deep
    by_contra acyclic
    have short := length_chain linked full fun d member itself =>
      acyclic ⟨c, among, d, reached_of_chain linked d member, itself⟩
    rw [List.length_cons, length] at short
    exact absurd short (Nat.not_succ_le_self _)
  · exact fun cyclic => textWithin_cyclic cyclic s.nesting

/-- A text is not changed by room for deeper nesting. -/
theorem textWithin_succ {t : String} (has : s.textWithin rules depth v = some t) :
    s.textWithin rules (depth + 1) v = some t := by
  induction depth generalizing v t with
  | zero =>
    rw [← has]
    refine textWith_congr fun c among e member => ?_
    have none := isSome_textWith.mp (Option.isSome_of_eq_some has) c among e member
    cases none
  | succ depth ih =>
    rw [← has]
    refine textWith_congr fun c among e member => ?_
    obtain ⟨u, each⟩ := Option.isSome_iff_exists.mp
      (isSome_textWith.mp (Option.isSome_of_eq_some has) c among e member)
    exact (ih each).trans each.symm

theorem textWithin_add {t : String} (has : s.textWithin rules depth v = some t) (more : Nat) :
    s.textWithin rules (depth + more) v = some t := by
  induction more with
  | zero => exact has
  | succ more ih => exact textWithin_succ ih

/-- The text of a value is the one that it has with room enough for its nesting, whatever that is. -/
theorem text?_eq_some_iff {t : String} : s.text? rules v = some t ↔ ∃ depth, s.textWithin rules depth v = some t := by
  constructor
  · exact fun has => ⟨s.nesting, has⟩
  · rintro ⟨depth, has⟩
    have acyclic : ¬ s.IsCyclic v := fun cyclic => by
      rw [textWithin_cyclic cyclic depth] at has
      cases has
    obtain ⟨u, text⟩ := Option.ne_none_iff_exists'.mp fun missing => acyclic (text?_eq_none_iff.mp missing)
    have most := textWithin_add has s.nesting
    rw [Nat.add_comm, textWithin_add text depth] at most
    rw [text, most]

variable {t : Store} {receiver : Value} {added : List Value}

/-- A store after a change that puts values into one container at most, and takes others out. -/
def Gains (s t : Store) (receiver : Value) (added : List Value) : Prop :=
  ∀ d, ∀ e ∈ t.elements d, e ∈ s.elements d ∨ d.value = receiver ∧ e ∈ added

/-- What is contained after the change was contained before, or is in the values that were put in. -/
theorem Gains.contains (gains : Gains s t receiver added) (contains : t.Contains c d) :
    s.Contains c d ∨ c.value = receiver ∧ ∃ a ∈ added, d ∈ a.containers := by
  obtain ⟨e, among, inside⟩ := contains
  rcases gains c e among with old | ⟨here, new⟩
  · exact .inl ⟨e, old, inside⟩
  · exact .inr ⟨here, e, new, inside⟩

/-- What is reached after the change was reached before, or is reached from the values that were put in. -/
theorem Gains.reached (gains : Gains s t receiver added) (reached : ReflTransGen t.Contains c d) :
    ReflTransGen s.Contains c d ∨ ∃ a ∈ added, ∃ b ∈ a.containers, ReflTransGen s.Contains b d := by
  induction reached with
  | refl => exact .inl .refl
  | tail _ contains ih =>
    rcases gains.contains contains with old | ⟨-, a, new, inside⟩
    · rcases ih with ih | ⟨a, new, b, inside, ih⟩
      · exact .inl (ih.tail old)
      · exact .inr ⟨a, new, b, inside, ih.tail old⟩
    · exact .inr ⟨a, new, _, inside, .refl⟩

theorem Gains.contained (gains : Gains s t receiver added) (contained : TransGen t.Contains c d) :
    TransGen s.Contains c d ∨ (∃ x : Container, x.value = receiver ∧ ReflTransGen t.Contains c x) ∧
      ∃ a ∈ added, ∃ b ∈ a.containers, ReflTransGen s.Contains b d := by
  induction contained with
  | single contains =>
    rcases gains.contains contains with old | ⟨own, a, new, inside⟩
    · exact .inl (.single old)
    · exact .inr ⟨⟨_, own, .refl⟩, a, new, _, inside, .refl⟩
  | tail further contains ih =>
    rcases gains.contains contains with old | ⟨own, a, new, inside⟩
    · rcases ih with ih | ⟨here, a, new, b, inside, ih⟩
      · exact .inl (ih.tail old)
      · exact .inr ⟨here, a, new, b, inside, ih.tail old⟩
    · exact .inr ⟨⟨_, own, further.to_reflTransGen⟩, a, new, _, inside, .refl⟩

theorem Gains.refl : Gains s s receiver added := fun _ _ among => .inl among

/-- A value that contains a container, in whatever it contains. -/
def Reaches (s : Store) (v : Value) (c : Container) : Prop := ∃ b ∈ v.containers, ReflTransGen s.Contains b c

theorem not_isCyclic (has : (s.text? rules v).isSome) : ¬ s.IsCyclic v := by
  intro cyclic
  rw [text?_eq_none_iff.mpr cyclic] at has
  cases has

/-- A change takes no text away if the values that are put into a container have texts and do not contain it. -/
theorem Gains.isSome_text? (gains : Gains s t receiver added) (texts : ∀ a ∈ added, (s.text? rules a).isSome)
    (apart : ∀ x : Container, x.value = receiver → ∀ a ∈ added, ¬ s.Reaches a x) (has : (s.text? rules v).isSome) :
    (t.text? rules v).isSome := by
  rw [← Option.ne_none_iff_isSome]
  intro missing
  obtain ⟨c, among, d, reached, itself⟩ := text?_eq_none_iff.mp missing
  -- The way round does not lead through what was put in, since none leads on from there to the container.
  have before : TransGen s.Contains d d := by
    rcases gains.contained itself with before | ⟨⟨x, own, here⟩, a, new, b, inside, onward⟩
    · exact before
    · rcases gains.reached here with back | ⟨a', new', back⟩
      · exact absurd ⟨b, inside, onward.trans back⟩ (apart x own a new)
      · exact absurd back (apart x own a' new')
  rcases gains.reached reached with old | ⟨a, new, b, inside, onward⟩
  · exact not_isCyclic has ⟨c, among, d, old, before⟩
  · exact not_isCyclic (texts a new) ⟨b, inside, d, onward, before⟩

theorem getD_modify {α : Type} (cells : Array α) (i j : Nat) (f : α → α) (empty : α) :
    (cells.modify i f).getD j empty = cells.getD j empty ∨
      j = i ∧ (cells.modify i f).getD j empty = f (cells.getD j empty) := by
  simp only [Array.getD_eq_getD_getElem?, Array.getElem?_modify]
  split
  · next here =>
    cases cells[j]? with
    | none => exact .inl rfl
    | some cell => exact .inr ⟨here.symm, rfl⟩
  · exact .inl rfl

theorem gains_modifyList {r : Ref .list} {f : Array Value → Array Value}
    (puts : ∀ e ∈ (f (s.list r)).toList, e ∈ (s.list r).toList ∨ e ∈ added) :
    Gains s (s.modifyList r f) (.list r) added := by
  intro d e among
  cases d with
  | list q =>
    rcases getD_modify s.lists r.index q.index f #[] with same | ⟨here, changed⟩
    · exact .inl (by rwa [elements, list, modifyList, same] at among)
    · obtain rfl : q = r := congrArg Ref.mk here
      rw [elements, list, modifyList, changed] at among
      exact (puts e among).imp_right fun new => ⟨rfl, new⟩
  | map q => exact .inl among
  | set q => exact .inl among

theorem gains_modifyMap {r : Ref .map} {f : Dict Key Value → Dict Key Value}
    (puts : ∀ entry ∈ (f (s.map r)).entries, ∀ e ∈ [entry.1.value, entry.2], e ∈ s.elements (.map r) ∨ e ∈ added) :
    Gains s (s.modifyMap r f) (.map r) added := by
  intro d e among
  cases d with
  | list q => exact .inl among
  | map q =>
    rcases getD_modify s.maps r.index q.index f .empty with same | ⟨here, changed⟩
    · exact .inl (by rwa [elements, map, modifyMap, same] at among)
    · obtain rfl : q = r := congrArg Ref.mk here
      rw [elements, map, modifyMap, changed] at among
      obtain ⟨entry, member, part⟩ := List.mem_flatMap.mp among
      exact (puts entry member e part).imp_right fun new => ⟨rfl, new⟩
  | set q => exact .inl among

theorem gains_modifySet {r : Ref .set} {f : Dict Key Unit → Dict Key Unit}
    (puts : ∀ entry ∈ (f (s.set r)).entries, entry.1.value ∈ s.elements (.set r) ∨ entry.1.value ∈ added) :
    Gains s (s.modifySet r f) (.set r) added := by
  intro d e among
  cases d with
  | list q => exact .inl among
  | map q => exact .inl among
  | set q =>
    rcases getD_modify s.sets r.index q.index f .empty with same | ⟨here, changed⟩
    · exact .inl (by rwa [elements, set, modifySet, same] at among)
    · obtain rfl : q = r := congrArg Ref.mk here
      rw [elements, set, modifySet, changed] at among
      obtain ⟨entry, member, rfl⟩ := List.mem_map.mp among
      exact (puts entry member).imp_right fun new => ⟨rfl, new⟩

end Store

namespace Method

open StoreM (Atomic)

variable {rules : ObjectRules} {receiver : Value} {name : String} {args : Arguments} {R : Store → Value → Store → Prop}

/-- What a call that succeeds, and makes no list, does to the containers: at most, it puts arguments into the
receiver. -/
def Adds (receiver : Value) (name : String) (args : Arguments) (s : Store) (_ : Value) (t : Store) : Prop :=
  makesList receiver name = false → s.Gains t receiver args.values

theorem reads_adds {x : StoreM Value} (reads : Atomic x fun s _ t => t = s) : Atomic x (Adds receiver name args) :=
  reads.of_reads fun _ _ _ => .refl

theorem pure_adds (v : Value) : Atomic (pure v) (Adds receiver name args) := .pure fun _ _ => .refl

theorem newList_adds {f : Store → Value × Store} (makes : makesList receiver name = true) :
    Atomic (StoreM.allocate f) (Adds receiver name args) :=
  .allocate fun _ other => by rw [makes] at other; cases other

/-- The first step only checks arguments. -/
theorem atomic_bind_except {α : Type} {c : Except RuntimeError α} {f : α → StoreM Value}
    (rest : ∀ a, c = .ok a → Atomic (f a) R) : Atomic (StoreM.ofExcept c >>= f) R := by
  cases checked : c with
  | error e => exact fun _ => rfl
  | ok a => exact rest a checked

theorem atomic_bind_key {k : Value} {f : Key → StoreM Value} (rest : ∀ key : Key, key.value = k → Atomic (f key) R) :
    Atomic (keyOf rules k >>= f) R := by
  apply (Atomic.get.bind fun s => atomic_bind_except fun key made => ?_ :
    Atomic (get >>= fun s => StoreM.ofExcept (s.key rules k) >>= f) R)
  apply rest key
  unfold Store.key at made
  cases coded : s.hashCode rules k with
  | error e =>
    rw [coded] at made
    cases made
  | ok code =>
    rw [coded] at made
    cases made
    rfl

theorem expect_mem {index : Nat} {v : Value} (given : args.expect name index = .ok v) : v ∈ args.values := by
  unfold Arguments.expect at given
  split at given
  · next found =>
    cases given
    exact List.mem_of_getElem? found
  · cases given

theorem one_mem {v : Value} (given : one name args = .ok v) : v ∈ args.values := by
  unfold one at given
  cases counted : args.expectCount name 1 with
  | error e =>
    rw [counted] at given
    cases given
  | ok =>
    rw [counted] at given
    exact expect_mem given

theorem two_mem {a b : Value} (given : two name args = .ok (a, b)) : a ∈ args.values ∧ b ∈ args.values := by
  unfold two at given
  cases counted : args.expectCount name 2 with
  | error e =>
    rw [counted] at given
    cases given
  | ok =>
  cases first : args.expect name 0 with
  | error e =>
    rw [counted, first] at given
    cases given
  | ok =>
  cases second : args.expect name 1 with
  | error e =>
    rw [counted, first, second] at given
    cases given
  | ok =>
    rw [counted, first, second] at given
    cases given
    exact ⟨expect_mem first, expect_mem second⟩

theorem writeList_adds {r : Ref .list} {f : Array Value → Array Value} {v : Value}
    (puts : ∀ items : Array Value, ∀ e ∈ (f items).toList, e ∈ items.toList ∨ e ∈ args.values) :
    Atomic (writeList r f >>= fun _ => pure v) (Adds (.list r) name args) :=
  .write fun s _ => Store.gains_modifyList (puts (s.list r))

theorem list_adds (r : Ref .list) : Atomic (list rules r name args) (Adds (.list r) name args) := by
  unfold list
  apply (Atomic.read _).bind
  intro length
  have item (name : String) : Atomic (do
      let s ← get
      let i ← StoreM.ofExcept (indexOperand s name args length)
      pure ((s.list r).getD i .null)) (Adds (.list r) name args) :=
    Atomic.get.bind fun _ => (Atomic.ofExcept _).bind fun _ => pure_adds _
  have put (name : String) : Atomic (do
      let p ← StoreM.ofExcept (two name args)
      let i ← StoreM.read fun s => s.index p.1 length
      let i ← StoreM.ofExcept i
      writeList r (·.setIfInBounds i p.2)
      pure p.2) (Adds (.list r) name args) := by
    refine atomic_bind_except fun p given => (Atomic.read _).bind fun _ => (Atomic.ofExcept _).bind fun i => ?_
    refine writeList_adds fun items e member => ?_
    rw [Array.toList_setIfInBounds] at member
    exact (List.mem_or_eq_of_mem_set member).imp_right (by rintro rfl; exact (two_mem given).2)
  split
  case h_1 => exact reads_adds (.ofExcept _)
  case h_2 | h_3 | h_4 => exact item _
  case h_5 | h_6 => exact put _
  case h_7 =>
    refine atomic_bind_except fun p given => (Atomic.read _).bind fun _ => (Atomic.ofExcept _).bind fun i => ?_
    refine writeList_adds fun items e member => ?_
    unfold Array.insertIdxIfInBounds at member
    split at member
    · rcases Array.mem_insertIdx.mp (Array.mem_toList_iff.mp member) with rfl | old
      · exact .inr (two_mem given).2
      · exact .inl (Array.mem_toList_iff.mpr old)
    · exact .inl member
  case h_8 =>
    refine atomic_bind_except fun v given => writeList_adds fun items e member => ?_
    rw [Array.toList_push, List.mem_append, List.mem_singleton] at member
    exact member.imp_right (by rintro rfl; exact one_mem given)
  case h_9 =>
    refine (Atomic.read _).bind fun _ => (Atomic.ofExcept _).bind fun i => (Atomic.read _).bind fun v => ?_
    refine writeList_adds fun items e member => .inl ?_
    unfold Array.eraseIdxIfInBounds at member
    split at member
    · exact Array.mem_toList_iff.mpr (Array.mem_of_mem_eraseIdx (Array.mem_toList_iff.mp member))
    · exact member
  case h_10 =>
    refine (Atomic.ofExcept _).bind fun _ => (Atomic.read _).bind fun last => ?_
    cases last with
    | none => exact .fail _
    | some v =>
      refine writeList_adds fun items e member => .inl ?_
      rw [Array.toList_pop] at member
      exact List.dropLast_subset _ member
  case h_11 | h_12 => exact (Atomic.ofExcept _).bind fun _ => reads_adds (.read _)
  case h_13 => exact (Atomic.ofExcept _).bind fun _ => writeList_adds fun items e member => by simp at member
  case h_14 =>
    refine (Atomic.ofExcept _).bind fun other => ?_
    split
    · exact newList_adds rfl
    · exact Atomic.get.bind fun _ => .fail _
  case h_15 => exact .fail _

theorem atomic_bind_keyOperand {f : Key → StoreM Value}
    (rest : ∀ key : Key, key.value ∈ args.values → Atomic (f key) R) : Atomic (keyOperand rules name args >>= f) R := by
  unfold keyOperand
  rw [bind_assoc]
  refine atomic_bind_except fun v given => atomic_bind_key fun key same => rest key ?_
  exact same ▸ one_mem given

/-- Putting an entry into a map puts its key and its value there. -/
theorem put_adds {r : Ref .map} {key : Key} {v : Value} (keyed : key.value ∈ args.values) (given : v ∈ args.values) :
    Atomic (modify (fun s => s.modifyMap r fun d => d.insert (s.sameKey rules) key v) >>= fun _ => pure v)
      (Adds (.map r) name args) := by
  refine .write fun s _ => Store.gains_modifyMap ?_
  have old (entry : Key × Value) (member : entry ∈ (s.map r).entries) (e : Value)
      (part : e ∈ [entry.1.value, entry.2]) : e ∈ s.elements (.map r) ∨ e ∈ args.values :=
    .inl (List.mem_flatMap.mpr ⟨entry, member, part⟩)
  intro entry member e part
  obtain ⟨first, second⟩ := Dict.forall_put
    (P := fun k => k.value ∈ s.elements (.map r) ∨ k.value ∈ args.values)
    (Q := fun w => w ∈ s.elements (.map r) ∨ w ∈ args.values)
    (fun entry member => ⟨old entry member _ (by simp), old entry member _ (by simp)⟩) (.inr keyed) (.inr given)
    entry member
  simp only [List.mem_cons, List.not_mem_nil, or_false] at part
  rcases part with rfl | rfl
  · exact first
  · exact second

theorem map_put_adds {r : Ref .map} : Atomic (do
      let (k, v) ← StoreM.ofExcept (two name args)
      let key ← keyOf rules k
      modify fun s => s.modifyMap r fun d => d.insert (s.sameKey rules) key v
      pure v) (Adds (.map r) name args) := by
  refine atomic_bind_except fun p given => ?_
  obtain ⟨k, v⟩ := p
  refine atomic_bind_key fun key same => put_adds ?_ (two_mem given).2
  exact same ▸ (two_mem given).1

theorem map_adds (r : Ref .map) : Atomic (map rules r name args) (Adds (.map r) name args) := by
  unfold map
  split
  case h_1 => exact (Atomic.ofExcept _).bind fun _ => reads_adds (.read _)
  case h_2 => exact keyOperand_reads.bind fun key => (Atomic.read _).bind fun found => pure_adds _
  case h_3 =>
    refine keyOperand_reads.bind fun key => (Atomic.read _).bind fun found => ?_
    cases found with
    | some v => exact pure_adds v
    | none => exact Atomic.get.bind fun _ => (Atomic.ofOption _).bind fun _ => .fail _
  case h_4 | h_5 | h_6 => exact map_put_adds
  case h_7 =>
    refine keyOperand_reads.bind fun key => (Atomic.read _).bind fun found => .write fun s _ => ?_
    refine Store.gains_modifyMap fun entry member e part => .inl ?_
    exact List.mem_flatMap.mpr ⟨entry, List.mem_of_mem_eraseP member, part⟩
  case h_8 => exact keyOperand_reads.bind fun key => reads_adds (.read _)
  case h_9 | h_10 => exact (Atomic.ofExcept _).bind fun _ => newList_adds rfl
  case h_11 =>
    refine Atomic.get.bind fun s => (Atomic.ofExcept _).bind fun i => ?_
    split
    · exact .allocate fun s _ => .refl
    · exact .fail _
  case h_12 => exact .fail _

theorem set_adds (r : Ref .set) : Atomic (set rules r name args) (Adds (.set r) name args) := by
  unfold set
  split
  case h_1 => exact (Atomic.ofExcept _).bind fun _ => reads_adds (.read _)
  case h_2 =>
    refine atomic_bind_keyOperand fun key given => (Atomic.read _).bind fun present => .write fun s _ => ?_
    refine Store.gains_modifySet fun entry member => ?_
    have old (entry : Key × Unit) (member : entry ∈ (s.set r).entries) :
        entry.1.value ∈ s.elements (.set r) ∨ entry.1.value ∈ args.values :=
      .inl (List.mem_map.mpr ⟨entry, member, rfl⟩)
    exact (Dict.forall_put (P := fun k => k.value ∈ s.elements (.set r) ∨ k.value ∈ args.values)
      (Q := fun _ => True) (fun entry member => ⟨old entry member, trivial⟩) (.inr given) trivial entry member).1
  case h_3 =>
    refine keyOperand_reads.bind fun key => (Atomic.read _).bind fun present => .write fun s _ => ?_
    refine Store.gains_modifySet fun entry member => .inl ?_
    exact List.mem_map.mpr ⟨entry, List.mem_of_mem_eraseP member, rfl⟩
  case h_4 => exact keyOperand_reads.bind fun key => (Atomic.read _).bind fun present => pure_adds _
  case h_5 => exact (Atomic.ofExcept _).bind fun _ => newList_adds rfl
  case h_6 =>
    refine Atomic.get.bind fun s => (Atomic.ofExcept _).bind fun i => ?_
    split
    · exact pure_adds _
    · exact .fail _
  case h_7 => exact .fail _

theorem text_adds (t : String) : Atomic (text rules t name args) (Adds (.string t) name args) := by
  unfold text
  refine Atomic.get.bind fun s => ?_
  split
  · exact (Atomic.ofExcept _).bind fun v => (Atomic.ofOption _).bind fun more => pure_adds _
  · refine (Atomic.ofExcept _).bind fun separator => ?_
    split
    · exact .fail _
    · exact newList_adds rfl
  · exact reads_adds (.ofExcept _)

theorem ofKind_adds : Atomic (ofKind rules receiver name args) (Adds receiver name args) := by
  unfold ofKind
  refine Atomic.get.bind fun s => ?_
  split
  · exact reads_adds (.ofExcept _)
  · exact text_adds _
  · exact reads_adds (.ofExcept _)
  · exact list_adds _
  · exact map_adds _
  · exact set_adds _
  · exact reads_adds (.ofExcept _)
  · exact .fail _

variable (rules receiver name args) in
/-- A call that makes no list puts at most its arguments into its receiver. -/
theorem call_adds : Atomic (call rules receiver name args) (Adds receiver name args) := by
  unfold call
  split
  · exact (Atomic.ofExcept _).bind fun other => reads_adds (.read _)
  · exact (Atomic.ofExcept _).bind fun other => reads_adds (.read _)
  · exact (Atomic.ofExcept _).bind fun _ => Atomic.get.bind fun s => (Atomic.ofOption _).bind fun text => pure_adds _
  · exact ofKind_adds

/-- **A call takes no text away**, unless it makes a list or an argument of it contains the receiver: the values that
had a text before have one afterwards, if the arguments have. -/
theorem call_isSome_text? (rules : ObjectRules) (s : Store) (receiver : Value) (name : String) (args : Arguments)
    (other : makesList receiver name = false) (texts : ∀ a ∈ args.values, (s.text? rules a).isSome)
    (apart : ∀ c : Container, c.value = receiver → ∀ a ∈ args.values, ¬ s.Reaches a c) {v : Value}
    (has : (s.text? rules v).isSome) :
    match call rules receiver name args s with
    | .ok _ t | .error _ t => (t.text? rules v).isSome := by
  have adds := call_adds rules receiver name args s
  cases ran : call rules receiver name args s with
  | ok u t =>
    rw [ran] at adds
    exact (adds other).isSome_text? texts apart has
  | error halt t =>
    rw [ran] at adds
    cases adds
    exact has

/-- A list that is appended to itself has no text afterwards, with whatever room for nesting. -/
theorem append_itself (rules : ObjectRules) (s : Store) (r : Ref .list) (made : r.index < s.lists.size) (depth : Nat) :
    match call rules (.list r) "append" (.positional [.list r]) s with
    | .ok _ t => t.textWithin rules depth (.list r) = none
    | .error _ _ => False := by
  have ran : call rules (.list r) "append" (.positional [.list r]) s =
      .ok .null (s.modifyList r (·.push (.list r))) := rfl
  rw [ran]
  have itself : (s.modifyList r (·.push (.list r))).Contains (.list r) (.list r) := by
    refine ⟨.list r, ?_, List.mem_cons_self⟩
    simp [Store.elements, Store.list, Store.modifyList, Array.getElem_modify, made]
  exact Store.textWithin_cyclic ⟨.list r, List.mem_cons_self, .list r, .refl, .single itself⟩ depth

end Method

end ScriptEngine
