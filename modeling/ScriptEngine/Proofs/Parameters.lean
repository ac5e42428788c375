import Mathlib.Data.List.Nodup
import Mathlib.Tactic.ByContra
import ScriptEngine.Call.Binding

/-! # Arguments and their parameters

What binding comes to, told without slots: which argument gives a value to which parameter, when the arguments of a call
fit the parameters, and which argument is the first that does not. Binding succeeds exactly if they fit. Then every
parameter has the value that is given to it, or its default; otherwise the error names the first cause in the order of
the rules.
-/

namespace ScriptEngine

namespace Table

variable {α : Type}

theorem get?_foldl_set (entries : List (String × α)) (t : Table α) (name : String) (a : α)
    (distinct : (entries.map Prod.fst).Nodup) :
    (entries.foldl (fun t (name, a) => t.set name a) t).get? name = some a ↔
      (name, a) ∈ entries ∨ name ∉ entries.map Prod.fst ∧ t.get? name = some a := by
  induction entries generalizing t with
  | nil => simp
  | cons entry rest ih =>
    obtain ⟨first, b⟩ := entry
    obtain ⟨fresh, others⟩ := List.nodup_cons.mp distinct
    rw [List.foldl_cons, ih _ others, get?_set]
    by_cases here : name = first
    · subst here
      have absent : (name, a) ∉ rest := fun member => fresh (List.mem_map.mpr ⟨_, member, rfl⟩)
      simp [fresh, absent, eq_comm]
    · simp [here]

/-- A table that is made from entries with distinct names has those entries. -/
theorem get?_ofList {entries : List (String × α)} (distinct : (entries.map Prod.fst).Nodup) (name : String) (a : α) :
    (ofList entries).get? name = some a ↔ (name, a) ∈ entries := by
  rw [ofList, get?_foldl_set entries empty name a distinct]
  simp [empty, get?, find?]

end Table

namespace Binding

/-- The argument at an index of a call gives a value to a parameter: without a keyword to the parameter at the same
index, with one to the parameter of that name. -/
def Gives (params : List Parameter) (args : Arguments) (i : Nat) (p : Parameter) (v : Value) : Prop :=
  args[i]? = some ⟨none, v⟩ ∧ params[i]? = some p ∨ args[i]? = some ⟨some p.name, v⟩ ∧ p ∈ params

/-- A call gives no value to a parameter. -/
def Leaves (params : List Parameter) (args : Arguments) (p : Parameter) : Prop := ∀ i v, ¬ Gives params args i p v

/-- The arguments of a call fit some parameters. -/
structure Fits (params : List Parameter) (args : Arguments) : Prop where
  few : args.length ≤ params.length
  ordered : ∀ (i j : Nat) (name : String) (v w : Value), args[i]? = some ⟨some name, v⟩ → args[j]? = some ⟨none, w⟩ →
    ¬ i < j
  known : ∀ (i : Nat) (name : String) (v : Value), args[i]? = some ⟨some name, v⟩ → ∃ p ∈ params, p.name = name
  once : ∀ (i j : Nat) (p : Parameter) (v w : Value), Gives params args i p v → Gives params args j p w → i = j
  complete : ∀ p ∈ params, p.default = none → ¬ Leaves params args p

/-- A table has the values that a call gives to parameters, their defaults where it gives none, and nothing else. -/
structure Binds (params : List Parameter) (args : Arguments) (bound : Bindings) : Prop where
  names : ∀ name, bound.contains name = true ↔ ∃ p ∈ params, p.name = name
  positional : ∀ (i : Nat) (p : Parameter) (v : Value), args[i]? = some ⟨none, v⟩ → params[i]? = some p →
    bound.get? p.name = some v
  keyword : ∀ (i : Nat) (name : String) (v : Value), args[i]? = some ⟨some name, v⟩ → bound.get? name = some v
  default : ∀ p ∈ params, Leaves params args p → bound.get? p.name = p.default

/-- What is wrong with the argument at an index of a call, given those before it. -/
inductive Offends (function : String) (params : List Parameter) (args : Arguments) (i : Nat) : RuntimeError → Prop
  | misplaced {v w : Value} {name : String} {j : Nat} : args[i]? = some ⟨none, v⟩ → j < i →
    args[j]? = some ⟨some name, w⟩ → Offends function params args i (.positionalAfterKeyword function)
  | unknown {name : String} {v : Value} : args[i]? = some ⟨some name, v⟩ → (∀ p ∈ params, p.name ≠ name) →
    Offends function params args i (.unknownKeyword function name)
  | repeated {p : Parameter} {v w : Value} {j : Nat} : args[i]? = some ⟨some p.name, v⟩ → j < i →
    Gives params args j p w → Offends function params args i (.duplicateArgument function p.name)

/-- An argument is the first one of a call with which something is wrong. -/
def OffendsFirst (function : String) (params : List Parameter) (args : Arguments) (e : RuntimeError) : Prop :=
  ∃ i, Offends function params args i e ∧ ∀ j < i, ∀ e', ¬ Offends function params args j e'

/-- Nothing is wrong with any argument of a call. -/
def Proper (function : String) (params : List Parameter) (args : Arguments) : Prop :=
  ∀ i e, ¬ Offends function params args i e

/-- The first parameter in the order of declaration that a call would have to give a value to and does not. -/
def LacksFirst (params : List Parameter) (args : Arguments) (p : Parameter) : Prop :=
  ∃ k, params[k]? = some p ∧ p.default = none ∧ Leaves params args p ∧
    ∀ (j : Nat) (q : Parameter), j < k → params[j]? = some q → q.default = none → ¬ Leaves params args q

variable {function : String} {params : List Parameter} {args before rest : Arguments} {slots : Slots}

/-- Parameters with distinct names are known by their names. -/
theorem eq_of_name (distinct : (params.map Parameter.name).Nodup) {p q : Parameter} (here : p ∈ params)
    (there : q ∈ params) (same : p.name = q.name) : p = q :=
  List.inj_on_of_nodup_map distinct here there same

theorem index_inj (distinct : (params.map Parameter.name).Nodup) {i j : Nat} {p : Parameter}
    (here : params[i]? = some p) (there : params[j]? = some p) : i = j :=
  (List.getElem?_inj (List.getElem?_eq_some_iff.mp here).1 distinct.of_map).mp (here.trans there.symm)

theorem Gives.mem {i : Nat} {p : Parameter} {v : Value} (gives : Gives params args i p v) : p ∈ params := by
  rcases gives with ⟨_, here⟩ | ⟨_, here⟩
  · exact List.mem_of_getElem? here
  · exact here

theorem Gives.lt {i : Nat} {p : Parameter} {v : Value} (gives : Gives params args i p v) : i < args.length := by
  rcases gives with ⟨found, _⟩ | ⟨found, _⟩ <;> exact (List.getElem?_eq_some_iff.mp found).1

/-- More arguments behind those of a call take nothing back. -/
theorem gives_append {i : Nat} {p : Parameter} {v : Value} (inside : i < before.length) :
    Gives params (before ++ rest) i p v ↔ Gives params before i p v := by
  rw [Gives, Gives, List.getElem?_append_left inside]

/-- The slots of the parameters hold what a call gives to them. -/
structure Filled (params : List Parameter) (args : Arguments) (slots : Slots) : Prop where
  length : slots.length = params.length
  holds : ∀ (k : Nat) (p : Parameter) (v : Value), params[k]? = some p →
    (slots[k]? = some (some v) ↔ ∃ i, Gives params args i p v)

/-- A call without arguments fills no slot. -/
theorem Filled.nil (params : List Parameter) : Filled params [] (params.map fun _ => none) where
  length := List.length_map _
  holds := fun k p v found => by
    rw [List.getElem?_map, found]
    exact ⟨nofun, fun ⟨_, gives⟩ => absurd gives.lt (Nat.not_lt_zero _)⟩

/-- A slot that is still empty is that of a parameter to which the call gives nothing. -/
theorem Filled.leaves_iff (filled : Filled params args slots) {k : Nat} {p : Parameter} (found : params[k]? = some p) :
    slots[k]? = some none ↔ Leaves params args p := by
  have below : k < slots.length := by
    rw [filled.length]
    exact (List.getElem?_eq_some_iff.mp found).1
  have holds (v : Value) := filled.holds k p v found
  rw [List.getElem?_eq_getElem below] at holds ⊢
  cases slot : slots[k] with
  | none =>
    refine iff_of_true rfl fun i v gives => ?_
    have := (holds v).mpr ⟨i, gives⟩
    rw [slot] at this
    cases this
  | some v =>
    obtain ⟨i, gives⟩ := (holds v).mp (by rw [slot])
    exact iff_of_false nofun fun leaves => leaves i v gives

/-- Slots are the same if the calls that fill them give the same. -/
theorem Filled.unique {args' : Arguments} {slots' : Slots} (first : Filled params args slots)
    (second : Filled params args' slots')
    (same : ∀ p v, (∃ i, Gives params args i p v) ↔ ∃ i, Gives params args' i p v) : slots = slots' := by
  refine List.ext_getElem? fun k => ?_
  by_cases below : k < params.length
  · have found := List.getElem?_eq_getElem below
    have here := List.getElem?_eq_getElem (l := slots) (first.length ▸ below)
    have there := List.getElem?_eq_getElem (l := slots') (second.length ▸ below)
    have holds (v : Value) : slots[k]? = some (some v) ↔ slots'[k]? = some (some v) :=
      (first.holds k _ v found).trans ((same _ v).trans (second.holds k _ v found).symm)
    rw [here, there] at holds ⊢
    congr 1
    exact Option.ext fun v => by simpa using holds v
  · rw [List.getElem?_eq_none_iff.mpr (first.length ▸ Nat.not_lt.mp below),
      List.getElem?_eq_none_iff.mpr (second.length ▸ Nat.not_lt.mp below)]

theorem gives_snoc {arg : Argument} {i : Nat} {p : Parameter} {v : Value} :
    Gives params (before ++ [arg]) i p v ↔
      Gives params before i p v ∨ i = before.length ∧ Gives params (before ++ [arg]) before.length p v := by
  constructor
  · intro gives
    have := gives.lt
    rw [List.length_append, List.length_singleton] at this
    by_cases inside : i < before.length
    · exact .inl ((gives_append inside).mp gives)
    · obtain rfl : i = before.length := by omega
      exact .inr ⟨rfl, gives⟩
  · rintro (gives | ⟨rfl, gives⟩)
    · exact (gives_append gives.lt).mpr gives
    · exact gives

/-- The slot of one more parameter is filled. -/
theorem Filled.set (distinct : (params.map Parameter.name).Nodup) (filled : Filled params before slots)
    {arg : Argument} {k : Nat} {p : Parameter} {v : Value} (found : params[k]? = some p)
    (leaves : Leaves params before p)
    (gives : ∀ q w, Gives params (before ++ [arg]) before.length q w ↔ q = p ∧ w = v) :
    Filled params (before ++ [arg]) (slots.set k (some v)) where
  length := by rw [List.length_set, filled.length]
  holds := by
    intro j q w there
    have below : k < slots.length := by
      rw [filled.length]
      exact (List.getElem?_eq_some_iff.mp found).1
    simp only [gives_snoc, gives, exists_or, exists_and_right, exists_eq, true_and]
    by_cases here : j = k
    · subst here
      obtain rfl : p = q := Option.some.inj (found.symm.trans there)
      have none : ¬ ∃ i, Gives params before i p w := fun ⟨i, given⟩ => leaves i w given
      simp [List.getElem?_set_self below, none, eq_comm]
    · have other : q ≠ p := fun same => here (index_inj distinct (same ▸ there) found)
      rw [List.getElem?_set_ne (Ne.symm here), filled.holds j q w there]
      simp [other]

theorem Offends.lt {i : Nat} {e : RuntimeError} (offends : Offends function params args i e) : i < args.length := by
  cases offends with
  | misplaced found | unknown found | repeated found => exact (List.getElem?_eq_some_iff.mp found).1

/-- Whether something is wrong with an argument does not depend on those behind it. -/
theorem offends_append {i : Nat} {e : RuntimeError} (inside : i < before.length) :
    Offends function params (before ++ rest) i e ↔ Offends function params before i e := by
  have same {j : Nat} (le : j ≤ i) : (before ++ rest)[j]? = before[j]? :=
    List.getElem?_append_left (by omega)
  constructor
  · rintro (⟨found, less, there⟩ | ⟨found, unknown⟩ | ⟨found, less, gives⟩)
    · exact .misplaced (same (Nat.le_refl i) ▸ found) less (same (Nat.le_of_lt less) ▸ there)
    · exact .unknown (same (Nat.le_refl i) ▸ found) unknown
    · exact .repeated (same (Nat.le_refl i) ▸ found) less ((gives_append (by omega)).mp gives)
  · rintro (⟨found, less, there⟩ | ⟨found, unknown⟩ | ⟨found, less, gives⟩)
    · exact .misplaced ((same (Nat.le_refl i)).trans found) less ((same (Nat.le_of_lt less)).trans there)
    · exact .unknown ((same (Nat.le_refl i)).trans found) unknown
    · exact .repeated ((same (Nat.le_refl i)).trans found) less ((gives_append (by omega)).mpr gives)

theorem Proper.nil : Proper function params [] := fun _ _ offends => absurd offends.lt (Nat.not_lt_zero _)

theorem Proper.snoc (proper : Proper function params before) {arg : Argument}
    (last : ∀ e, ¬ Offends function params (before ++ [arg]) before.length e) :
    Proper function params (before ++ [arg]) := by
  intro i e offends
  have below := offends.lt
  rw [List.length_append, List.length_singleton] at below
  by_cases inside : i < before.length
  · exact proper i e ((offends_append inside).mp offends)
  · obtain rfl : i = before.length := by omega
    exact last e offends

theorem Proper.offendsFirst (proper : Proper function params before) {arg : Argument} {e : RuntimeError}
    (offends : Offends function params (before ++ [arg]) before.length e) :
    OffendsFirst function params (before ++ arg :: rest) e := by
  rw [List.append_cons]
  refine ⟨before.length, (offends_append (by simp)).mpr offends, fun j less e' other => ?_⟩
  rw [offends_append (by rw [List.length_append]; omega), offends_append less] at other
  exact proper j e' other

/-- An argument does well behind others: it gives its value to one parameter, to which they give nothing, and nothing is
wrong with it. -/
structure Suits (function : String) (params : List Parameter) (before : Arguments) (arg : Argument) (p : Parameter) :
    Prop where
  leaves : Leaves params before p
  gives : ∀ q w, Gives params (before ++ [arg]) before.length q w ↔ q = p ∧ w = arg.value
  fine : ∀ e, ¬ Offends function params (before ++ [arg]) before.length e

/-- An argument without a keyword suits the parameter at its index if there is no keyword before it. -/
theorem Suits.positional (distinct : (params.map Parameter.name).Nodup) {v : Value} {p : Parameter}
    (unnamed : before.any (·.name.isSome) = false) (found : params[before.length]? = some p) :
    Suits function params before ⟨none, v⟩ p := by
  have last : (before ++ [⟨none, v⟩])[before.length]? = some ⟨none, v⟩ := List.getElem?_concat_length
  have keyless {j : Nat} {name : String} {w : Value} (there : before[j]? = some ⟨some name, w⟩) : False := by
    have := List.any_eq_false.mp unnamed _ (List.mem_of_getElem? there)
    exact this rfl
  refine ⟨fun i w gives => ?_, fun q w => ?_, fun e offends => ?_⟩
  · rcases gives with ⟨there, here⟩ | ⟨there, _⟩
    · have := index_inj distinct here found
      have := (List.getElem?_eq_some_iff.mp there).1
      omega
    · exact keyless there
  · simp [Gives, found, eq_comm, and_comm]
  · rcases offends with ⟨_, less, there⟩ | ⟨there, _⟩ | ⟨there, _, _⟩
    · exact keyless ((List.getElem?_append_left less).symm.trans there)
    · cases last.symm.trans there
    · cases last.symm.trans there

/-- An argument with a keyword suits the parameter of that name if this one has no value yet. -/
theorem Suits.keyword (distinct : (params.map Parameter.name).Nodup) {v : Value} {p : Parameter} (member : p ∈ params)
    (leaves : Leaves params before p) : Suits function params before ⟨some p.name, v⟩ p := by
  have last : (before ++ [⟨some p.name, v⟩])[before.length]? = some ⟨some p.name, v⟩ := List.getElem?_concat_length
  have named {q : Parameter} {w : Value}
      (there : (before ++ [⟨some p.name, v⟩])[before.length]? = some ⟨some q.name, w⟩) (known : q ∈ params) :
      q = p ∧ w = v := by
    injection last.symm.trans there with same
    injection same with same value
    exact ⟨(eq_of_name distinct member known (Option.some.inj same)).symm, value.symm⟩
  refine ⟨leaves, fun q w => ⟨?_, ?_⟩, fun e offends => ?_⟩
  · rintro (⟨there, _⟩ | ⟨there, known⟩)
    · cases last.symm.trans there
    · exact named there known
  · rintro ⟨rfl, rfl⟩
    exact .inr ⟨last, member⟩
  · generalize place : before.length = i at offends last
    cases offends with
    | misplaced there => cases last.symm.trans there
    | unknown there unknown =>
      cases last.symm.trans there
      exact unknown p member rfl
    | @repeated q _ w j there less gives =>
      obtain ⟨rfl, _⟩ := named (place ▸ there) gives.mem
      exact leaves j w ((gives_append (place ▸ less)).mp gives)

/-- Binding arguments behind some that are bound already: all slots are filled as the call says and nothing is wrong
with any argument, or it fails with what is wrong with the first one. -/
theorem bindArguments_cases (distinct : (params.map Parameter.name).Nodup) (filled : Filled params before slots)
    (proper : Proper function params before) (few : (before ++ rest).length ≤ params.length) :
    (∃ slots', bindArguments function params before.length (before.any (·.name.isSome)) slots rest = .ok slots' ∧
        Filled params (before ++ rest) slots' ∧ Proper function params (before ++ rest)) ∨
      ∃ e, bindArguments function params before.length (before.any (·.name.isSome)) slots rest = .error e ∧
        OffendsFirst function params (before ++ rest) e := by
  induction rest generalizing before slots with
  | nil =>
    rw [List.append_nil]
    exact .inl ⟨slots, rfl, filled, proper⟩
  | cons arg rest ih =>
    have last : (before ++ [arg])[before.length]? = some arg := List.getElem?_concat_length
    have inside : before.length < params.length := by
      rw [List.length_append, List.length_cons] at few
      omega
    -- The rest of the arguments, once this one has filled the slot at `k`.
    have onward {k : Nat} {p : Parameter} (found : params[k]? = some p) (suits : Suits function params before arg p) :=
      ih (filled.set distinct found suits.leaves suits.gives) (proper.snoc suits.fine) (by rwa [← List.append_cons])
    simp only [← List.append_cons, List.length_append, List.length_singleton, List.any_append, List.any_cons,
      List.any_nil, Bool.or_false] at onward
    obtain ⟨_ | name, v⟩ := arg
    · cases seen : before.any (·.name.isSome) with
      | true =>
        obtain ⟨other, among, keyword⟩ := List.any_eq_true.mp seen
        obtain ⟨j, there⟩ := List.mem_iff_getElem?.mp among
        obtain ⟨_ | word, w⟩ := other
        · cases keyword
        have less := (List.getElem?_eq_some_iff.mp there).1
        have there : (before ++ [⟨none, v⟩])[j]? = some ⟨some word, w⟩ := (List.getElem?_append_left less).trans there
        exact .inr ⟨_, rfl, proper.offendsFirst (.misplaced last less there)⟩
      | false =>
        have found := List.getElem?_eq_getElem inside
        have goes := onward found (.positional distinct seen found)
        rwa [seen] at goes
    · rw [bindArguments, bindKeyword]
      cases search : params.findIdx? (·.name == name) with
      | none =>
        have unknown : ∀ p ∈ params, p.name ≠ name := by simpa using List.findIdx?_eq_none_iff.mp search
        exact .inr ⟨_, rfl, proper.offendsFirst (.unknown last unknown)⟩
      | some k =>
        obtain ⟨below, named, _⟩ := List.findIdx?_eq_some_iff_getElem.mp search
        obtain ⟨p, found, rfl⟩ : ∃ p, params[k]? = some p ∧ p.name = name :=
          ⟨params[k], List.getElem?_eq_getElem below, by simpa using named⟩
        dsimp only
        cases slot : slots[k]? with
        | none =>
          have := List.getElem?_eq_none_iff.mp slot
          rw [filled.length] at this
          omega
        | some held =>
          cases held with
          | some w =>
            obtain ⟨j, gives⟩ := (filled.holds k p w found).mp slot
            exact .inr ⟨_, rfl, proper.offendsFirst (.repeated last gives.lt ((gives_append gives.lt).mpr gives))⟩
          | none =>
            have leaves := (filled.leaves_iff found).mp slot
            have goes := onward found (.keyword distinct (List.mem_of_getElem? found) leaves)
            rwa [Option.isSome_some, Bool.or_true] at goes

/-- Arguments fit if there are not too many of them, nothing is wrong with any, and no parameter lacks one. -/
theorem fits_iff (distinct : (params.map Parameter.name).Nodup) (function : String) :
    Fits params args ↔ args.length ≤ params.length ∧ Proper function params args ∧
      ∀ p ∈ params, p.default = none → ¬ Leaves params args p := by
  constructor
  · rintro ⟨few, ordered, known, once, complete⟩
    refine ⟨few, fun i e offends => ?_, complete⟩
    cases offends with
    | misplaced there less before => exact ordered _ i _ _ _ before there less
    | unknown there unknown =>
      obtain ⟨p, member, named⟩ := known i _ _ there
      exact unknown p member named
    | repeated there less gives =>
      have := once _ i _ _ _ gives (.inr ⟨there, gives.mem⟩)
      omega
  · rintro ⟨few, proper, complete⟩
    have once {i j : Nat} {p : Parameter} {v w : Value} (first : Gives params args i p v)
        (second : Gives params args j p w) : ¬ i < j := by
      intro less
      rcases second with ⟨there, here⟩ | ⟨there, _⟩
      · rcases first with ⟨_, before⟩ | ⟨before, _⟩
        · have := index_inj distinct before here
          omega
        · exact proper j _ (.misplaced there less before)
      · exact proper j _ (.repeated there less first)
    refine ⟨few, ?_, ?_, ?_, complete⟩
    · intro i j name v w first second less
      exact proper j _ (.misplaced second less first)
    · intro i name v there
      by_contra none
      exact proper i _ (.unknown there fun p member named => none ⟨p, member, named⟩)
    · intro i j p v w first second
      have := once first second
      have := once second first
      omega

/-- Completing slots: every parameter has an entry, with what its slot holds or its default, or it fails with the first
parameter that has neither. -/
theorem complete_cases (slots : Slots) (length : slots.length = params.length) :
    (∃ entries, complete function params slots = .ok entries ∧ entries.map Prod.fst = params.map Parameter.name ∧
        ∀ (k : Nat) (p : Parameter), params[k]? = some p → ∃ v, entries[k]? = some (p.name, v) ∧
          (slots[k]? = some (some v) ∨ slots[k]? = some none ∧ p.default = some v)) ∨
      ∃ k p, params[k]? = some p ∧ slots[k]? = some none ∧ p.default = none ∧
        complete function params slots = .error (.missingArgument function p.name) ∧
        ∀ (j : Nat) (q : Parameter), j < k → params[j]? = some q → slots[j]? = some none → q.default ≠ none := by
  induction params generalizing slots with
  | nil =>
    cases slots with
    | nil => exact .inl ⟨[], rfl, rfl, nofun⟩
    | cons => cases length
  | cons p rest ih =>
    cases slots with
    | nil => cases length
    | cons slot slots =>
      rw [complete]
      cases held : slot <|> p.default with
      | none =>
        obtain ⟨rfl, none⟩ : slot = none ∧ p.default = none := by simpa using held
        exact .inr ⟨0, p, rfl, rfl, none, rfl, fun j q less => absurd less (Nat.not_lt_zero j)⟩
      | some v =>
        rcases ih slots (Nat.succ.inj length) with
          ⟨entries, completed, names, each⟩ | ⟨k, q, found, empty, none, failed, first⟩
        · refine .inl ⟨(p.name, v) :: entries, by rw [completed]; rfl, by simp [names], fun k q found => ?_⟩
          cases k with
          | zero =>
            cases found
            refine ⟨v, rfl, ?_⟩
            cases slot with
            | none => exact .inr ⟨rfl, held⟩
            | some w => exact .inl (congrArg some held)
          | succ k => exact each k q found
        · refine .inr ⟨k + 1, q, found, empty, none, by rw [failed]; rfl, fun j r less there open_ => ?_⟩
          cases j with
          | zero =>
            cases there
            cases open_
            rintro lacks
            rw [lacks] at held
            cases held
          | succ j => exact first j r (Nat.lt_of_succ_lt_succ less) there open_

/-- Filled slots tell the table: entries for the parameters in order. -/
theorem complete_binds (keys : (params.map Parameter.name).Nodup) (filled : Filled params args slots)
    {entries : List (String × Value)} (names : entries.map Prod.fst = params.map Parameter.name)
    (proper : Proper function params args)
    (each : ∀ (k : Nat) (p : Parameter), params[k]? = some p → ∃ v, entries[k]? = some (p.name, v) ∧
      (slots[k]? = some (some v) ∨ slots[k]? = some none ∧ p.default = some v)) :
    Binds params args (Table.ofList entries) := by
  rw [← names] at keys
  have given {i : Nat} {p : Parameter} {v : Value} (gives : Gives params args i p v) :
      (Table.ofList entries).get? p.name = some v := by
    obtain ⟨k, found⟩ := List.mem_iff_getElem?.mp gives.mem
    obtain ⟨w, there, held⟩ := each k p found
    rw [(filled.holds k p v found).mpr ⟨i, gives⟩] at held
    obtain rfl : v = w := by simpa using held
    exact (Table.get?_ofList keys _ _).mpr (List.mem_of_getElem? there)
  refine ⟨fun name => ?_, fun i p v there here => given (.inl ⟨there, here⟩), fun i name v there => ?_,
    fun p member leaves => ?_⟩
  · rw [Table.contains, Option.isSome_iff_exists]
    simp only [Table.get?_ofList keys]
    rw [← List.mem_map, ← names, List.mem_map]
    simp
  · obtain ⟨p, member, rfl⟩ : ∃ p ∈ params, p.name = name := by
      by_contra none
      exact proper i _ (.unknown there fun p member named => none ⟨p, member, named⟩)
    exact given (.inr ⟨there, member⟩)
  · obtain ⟨k, found⟩ := List.mem_iff_getElem?.mp member
    obtain ⟨w, there, held⟩ := each k p found
    rw [(filled.leaves_iff found).mpr leaves] at held
    have default : p.default = some w := by simpa using held
    rw [default]
    exact (Table.get?_ofList keys _ _).mpr (List.mem_of_getElem? there)

/-- Why binding fails: there are too many arguments, or else something is wrong with one, or else a parameter lacks a
value. The first cause in the order of the call, or of the declaration, counts. -/
inductive Fails (function : String) (params : List Parameter) (args : Arguments) : RuntimeError → Prop
  | many : params.length < args.length →
    Fails function params args (.tooManyArguments function params.length args.length)
  | offence {e : RuntimeError} : args.length ≤ params.length → OffendsFirst function params args e →
    Fails function params args e
  | lack {p : Parameter} : args.length ≤ params.length → Proper function params args → LacksFirst params args p →
    Fails function params args (.missingArgument function p.name)

theorem Offends.unique {i : Nat} {e e' : RuntimeError}
    (first : Offends function params args i e) (second : Offends function params args i e') : e = e' := by
  cases first with
  | misplaced here =>
    cases second with
    | misplaced => rfl
    | unknown there | repeated there => cases here.symm.trans there
  | unknown here unknown =>
    cases second with
    | misplaced there => cases here.symm.trans there
    | unknown there =>
      cases here.symm.trans there
      rfl
    | repeated there _ gives =>
      cases here.symm.trans there
      exact absurd rfl (unknown _ gives.mem)
  | @repeated p v w j here _ given =>
    cases second with
    | misplaced there => cases here.symm.trans there
    | unknown there unknown =>
      cases here.symm.trans there
      exact absurd rfl (unknown _ given.mem)
    | @repeated q v' w' j' there _ gives =>
      have same := here.symm.trans there
      injection same with same
      injection same with same
      rw [Option.some.inj same]

theorem OffendsFirst.unique {e e' : RuntimeError} (first : OffendsFirst function params args e)
    (second : OffendsFirst function params args e') : e = e' := by
  obtain ⟨i, here, before⟩ := first
  obtain ⟨j, there, before'⟩ := second
  rcases Nat.lt_trichotomy i j with less | rfl | less
  · exact absurd here (before' i less e)
  · exact here.unique there
  · exact absurd there (before j less e')

theorem LacksFirst.unique {p q : Parameter} (first : LacksFirst params args p) (second : LacksFirst params args q) :
    p = q := by
  obtain ⟨k, found, none, leaves, before⟩ := first
  obtain ⟨j, there, none', leaves', before'⟩ := second
  rcases Nat.lt_trichotomy k j with less | rfl | less
  · exact absurd leaves (before' k p less found none)
  · exact Option.some.inj (found.symm.trans there)
  · exact absurd leaves' (before j q less there none')

theorem OffendsFirst.not_proper {e : RuntimeError} (first : OffendsFirst function params args e) :
    ¬ Proper function params args := by
  obtain ⟨i, offends, _⟩ := first
  exact fun proper => proper i e offends

/-- A call fails for one cause only. -/
theorem Fails.unique {e e' : RuntimeError} (first : Fails function params args e)
    (second : Fails function params args e') : e = e' := by
  cases first with
  | many more =>
    cases second with
    | many => rfl
    | offence few | lack few => omega
  | offence few here =>
    cases second with
    | many more => omega
    | offence _ there => exact here.unique there
    | lack _ proper => exact absurd proper here.not_proper
  | lack few proper here =>
    cases second with
    | many more => omega
    | offence _ there => exact absurd proper there.not_proper
    | lack _ _ there => rw [here.unique there]

theorem Fails.not_fits (distinct : (params.map Parameter.name).Nodup) {e : RuntimeError}
    (fails : Fails function params args e) : ¬ Fits params args := by
  intro fits
  obtain ⟨few, proper, complete⟩ := (fits_iff distinct function).mp fits
  cases fails with
  | many more => omega
  | offence _ first => exact first.not_proper proper
  | lack _ _ first =>
    obtain ⟨k, found, none, leaves, _⟩ := first
    exact complete _ (List.mem_of_getElem? found) none leaves

/-- Binding fills slots and completes them, if nothing is wrong with any argument. -/
theorem bind_eq (distinct : (params.map Parameter.name).Nodup) (few : args.length ≤ params.length)
    (proper : Proper function params args) :
    ∃ slots, Filled params args slots ∧
      bind function params args = (complete function params slots >>= fun entries => pure (Table.ofList entries)) := by
  rcases bindArguments_cases distinct (.nil params) .nil few with ⟨slots, ran, filled, _⟩ | ⟨e, _, first⟩
  · refine ⟨slots, filled, ?_⟩
    rw [bind, if_neg (Nat.not_lt.mpr few)]
    rw [show bindArguments function params 0 false (params.map fun _ => none) args = .ok slots from ran]
    rfl
  · exact absurd proper first.not_proper

theorem bind_cases (distinct : (params.map Parameter.name).Nodup) (function : String) (args : Arguments) :
    (∃ bound, bind function params args = .ok bound ∧ Fits params args ∧ Binds params args bound) ∨
      ∃ e, bind function params args = .error e ∧ Fails function params args e := by
  rcases Nat.lt_or_ge params.length args.length with many | few
  · exact .inr ⟨_, by rw [bind, if_pos many], .many many⟩
  by_cases proper : Proper function params args
  · obtain ⟨slots, filled, bound⟩ := bind_eq distinct few proper
    rcases @complete_cases function params slots filled.length with
      ⟨entries, completed, names, each⟩ | ⟨k, p, found, empty, none, failed, first⟩
    · rw [completed] at bound
      refine .inl ⟨_, bound, (fits_iff distinct function).mpr ⟨few, proper, fun p member lacks leaves => ?_⟩,
        complete_binds distinct filled names proper each⟩
      obtain ⟨k, found⟩ := List.mem_iff_getElem?.mp member
      obtain ⟨v, _, held⟩ := each k p found
      rw [(filled.leaves_iff found).mpr leaves, lacks] at held
      simp at held
    · rw [failed] at bound
      refine .inr ⟨_, bound, .lack few proper ⟨k, found, none, (filled.leaves_iff found).mp empty, ?_⟩⟩
      exact fun j q less there lacks leaves => first j q less there ((filled.leaves_iff there).mpr leaves) lacks
  · have proper₀ : Proper function params [] := .nil
    rcases bindArguments_cases distinct (.nil params) proper₀ few with
      ⟨slots, _, _, fine⟩ | ⟨e, failed, first⟩
    · exact absurd fine proper
    · refine .inr ⟨e, ?_, .offence few first⟩
      rw [bind, if_neg (Nat.not_lt.mpr few)]
      rw [show bindArguments function params 0 false (params.map fun _ => none) args = .error e from failed]
      rfl

section Shuffled

variable {values : List Value} {named named' : Arguments}

theorem getElem?_positional (keyworded : ∀ arg ∈ named, arg.name.isSome = true) {i : Nat} {v : Value} :
    (Arguments.positional values ++ named)[i]? = some ⟨none, v⟩ ↔ values[i]? = some v := by
  have length : (Arguments.positional values).length = values.length := List.length_map _
  rcases Nat.lt_or_ge i values.length with inside | behind
  · rw [List.getElem?_append_left (length ▸ inside), Arguments.positional, List.getElem?_map]
    simp [inside]
  · rw [List.getElem?_append_right (length ▸ behind), List.getElem?_eq_none_iff.mpr behind]
    exact iff_of_false (fun there => nomatch keyworded _ (List.mem_of_getElem? there)) nofun

theorem getElem?_keyword {i : Nat} {name : String} {v : Value} :
    (Arguments.positional values ++ named)[i]? = some ⟨some name, v⟩ ↔
      ∃ j, i = values.length + j ∧ named[j]? = some ⟨some name, v⟩ := by
  have length : (Arguments.positional values).length = values.length := List.length_map _
  rcases Nat.lt_or_ge i values.length with inside | behind
  · rw [List.getElem?_append_left (length ▸ inside), Arguments.positional, List.getElem?_map,
      List.getElem?_eq_getElem inside]
    exact iff_of_false nofun fun ⟨j, same, _⟩ => by omega
  · obtain ⟨j, rfl⟩ := Nat.exists_eq_add_of_le behind
    rw [List.getElem?_append_right (length ▸ behind), length, Nat.add_sub_cancel_left]
    exact ⟨fun found => ⟨j, rfl, found⟩, fun ⟨k, same, found⟩ => Nat.add_left_cancel same ▸ found⟩

variable (keyworded : ∀ arg ∈ named, arg.name.isSome = true) (perm : named.Perm named')
include keyworded perm

theorem keyworded_shuffle : ∀ arg ∈ named', arg.name.isSome = true :=
  fun arg among => keyworded arg (perm.mem_iff.mpr among)

/-- What a call gives to a parameter does not depend on the order of its keyword arguments. -/
theorem Gives.shuffle {i : Nat} {p : Parameter} {v : Value} (gives : Gives params (.positional values ++ named) i p v) :
    ∃ j, Gives params (.positional values ++ named') j p v := by
  rcases gives with ⟨there, here⟩ | ⟨there, member⟩
  · rw [getElem?_positional keyworded] at there
    exact ⟨i, .inl ⟨(getElem?_positional (keyworded_shuffle keyworded perm)).mpr there, here⟩⟩
  · obtain ⟨_, rfl, found⟩ := getElem?_keyword.mp there
    obtain ⟨j, found⟩ := List.mem_iff_getElem?.mp (perm.mem_iff.mp (List.mem_of_getElem? found))
    exact ⟨values.length + j, .inr ⟨getElem?_keyword.mpr ⟨j, rfl, found⟩, member⟩⟩

/-- Whether arguments fit does not depend on the order of the keyword arguments. -/
theorem Fits.shuffle (distinct : (params.map Parameter.name).Nodup)
    (fits : Fits params (.positional values ++ named)) : Fits params (.positional values ++ named') := by
  have keyworded' := keyworded_shuffle keyworded perm
  -- The keywords of the call are distinct, since each of them names a parameter.
  have names : (named.filterMap Argument.name).Nodup := by
    rw [List.Nodup, List.pairwise_filterMap, List.pairwise_iff_getElem]
    rintro i j _ _ less name first name' second rfl
    have there {k : Nat} (below : k < named.length) (word : named[k].name = some name) :
        (Arguments.positional values ++ named)[values.length + k]? = some ⟨some name, named[k].value⟩ := by
      refine getElem?_keyword.mpr ⟨k, rfl, ?_⟩
      rw [List.getElem?_eq_getElem below, ← word]
    obtain ⟨p, member, rfl⟩ := fits.known _ _ _ (there _ first)
    have := fits.once _ _ p _ _ (.inr ⟨there _ first, member⟩) (.inr ⟨there _ second, member⟩)
    omega
  have names' : (named'.filterMap Argument.name).Nodup := (perm.filterMap _).nodup_iff.mp names
  have apart {i j : Nat} {name : String} {v w : Value}
      (first : (Arguments.positional values ++ named')[i]? = some ⟨some name, v⟩)
      (second : (Arguments.positional values ++ named')[j]? = some ⟨some name, w⟩) : ¬ i < j := by
    intro less
    rw [List.Nodup, List.pairwise_filterMap, List.pairwise_iff_getElem] at names'
    obtain ⟨i, rfl, found⟩ := getElem?_keyword.mp first
    obtain ⟨j, rfl, found'⟩ := getElem?_keyword.mp second
    obtain ⟨below, here⟩ := List.getElem?_eq_some_iff.mp found
    obtain ⟨below', there⟩ := List.getElem?_eq_some_iff.mp found'
    exact names' i j below below' (by omega) name (by rw [here]) name (by rw [there]) rfl
  -- No parameter has both a positional and a keyword argument.
  have mixed {i j : Nat} {p : Parameter} {v w : Value}
      (first : (Arguments.positional values ++ named')[i]? = some ⟨none, v⟩) (here : params[i]? = some p)
      (second : (Arguments.positional values ++ named')[j]? = some ⟨some p.name, w⟩) : False := by
    rw [getElem?_positional keyworded'] at first
    obtain ⟨_, rfl, found⟩ := getElem?_keyword.mp second
    obtain ⟨k, found⟩ := List.mem_iff_getElem?.mp (perm.mem_iff.mpr (List.mem_of_getElem? found))
    have := fits.once i (values.length + k) p v w (.inl ⟨(getElem?_positional keyworded).mpr first, here⟩)
      (.inr ⟨getElem?_keyword.mpr ⟨k, rfl, found⟩, List.mem_of_getElem? here⟩)
    have := (List.getElem?_eq_some_iff.mp first).1
    omega
  refine ⟨?_, ?_, ?_, ?_, ?_⟩
  · rw [List.length_append, ← perm.length_eq, ← List.length_append]
    exact fits.few
  · intro i j name v w first second less
    obtain ⟨i, rfl, _⟩ := getElem?_keyword.mp first
    have := (List.getElem?_eq_some_iff.mp ((getElem?_positional keyworded').mp second)).1
    omega
  · intro i name v there
    obtain ⟨_, rfl, found⟩ := getElem?_keyword.mp there
    obtain ⟨j, found⟩ := List.mem_iff_getElem?.mp (perm.mem_iff.mpr (List.mem_of_getElem? found))
    exact fits.known (values.length + j) name v (getElem?_keyword.mpr ⟨j, rfl, found⟩)
  · intro i j p v w first second
    rcases first with ⟨there, here⟩ | ⟨there, _⟩ <;> rcases second with ⟨there', here'⟩ | ⟨there', _⟩
    · exact index_inj distinct here here'
    · exact (mixed there here there').elim
    · exact (mixed there' here' there).elim
    · have := apart there there'
      have := apart there' there
      omega
  · intro p member lacks leaves
    refine fits.complete p member lacks fun i v gives => ?_
    obtain ⟨j, gives⟩ := gives.shuffle keyworded perm
    exact leaves j v gives

/-- The table does not depend on the order of the keyword arguments. -/
theorem bind_shuffle (distinct : (params.map Parameter.name).Nodup)
    (fits : Fits params (.positional values ++ named)) :
    bind function params (.positional values ++ named') = bind function params (.positional values ++ named) := by
  obtain ⟨few, proper, _⟩ := (fits_iff distinct function).mp fits
  obtain ⟨few', proper', _⟩ := (fits_iff distinct function).mp (fits.shuffle keyworded perm distinct)
  obtain ⟨slots, filled, bound⟩ := bind_eq distinct few proper
  obtain ⟨slots', filled', bound'⟩ := bind_eq distinct few' proper'
  suffices same : slots' = slots by rw [bound, bound', same]
  refine filled'.unique filled fun p v => ⟨fun ⟨i, gives⟩ => ?_, fun ⟨i, gives⟩ => gives.shuffle keyworded perm⟩
  exact gives.shuffle (keyworded_shuffle keyworded perm) perm.symm

end Shuffled

/-- Binding is exact. It succeeds if and only if the arguments fit the parameters; then the table has what is given to
each parameter, or its default, and the order of the keyword arguments does not matter. Otherwise it fails for the first
cause in the order of the rules. -/
theorem bind_iff_fits (distinct : (params.map Parameter.name).Nodup) (function : String) (args : Arguments) :
    ((∃ bound, bind function params args = .ok bound) ↔ Fits params args) ∧
      (∀ bound, bind function params args = .ok bound → Binds params args bound) ∧
      (∀ values named named', args = .positional values ++ named → (∀ arg ∈ named, arg.name.isSome = true) →
        named.Perm named' → ∀ bound, bind function params args = .ok bound →
          bind function params (.positional values ++ named') = .ok bound) ∧
      ∀ e, bind function params args = .error e ↔ Fails function params args e := by
  rcases bind_cases distinct function args with ⟨bound, ran, fits, binds⟩ | ⟨e, failed, fails⟩
  · refine ⟨iff_of_true ⟨bound, ran⟩ fits, fun other same => ?_, ?_, fun e => ?_⟩
    · cases ran.symm.trans same
      exact binds
    · rintro values named named' rfl keyworded perm other same
      exact (bind_shuffle keyworded perm distinct fits).trans same
    · rw [ran]
      exact iff_of_false nofun fun fails => fails.not_fits distinct fits
  · refine ⟨?_, ?_, ?_, fun e' => ?_⟩
    · rw [failed]
      exact iff_of_false nofun (fails.not_fits distinct)
    · rintro bound same
      cases failed.symm.trans same
    · rintro _ _ _ _ _ _ bound same
      cases failed.symm.trans same
    · rw [failed]
      refine ⟨fun same => ?_, fun other => congrArg _ (fails.unique other)⟩
      cases same
      exact fails

/-- A parameter list with a default in the middle. -/
def sampleParams : List Parameter := [⟨"x", none⟩, ⟨"y", some (.string "why")⟩, ⟨"z", none⟩]

/-- Called with a positional argument and a keyword, it takes the default for the parameter between them; called with
keywords only, one of them twice, it fails for the second of these and not for the parameter that lacks a value. -/
theorem sampleParams_bind :
    (sampleParams.map Parameter.name).Nodup ∧
      (∃ bound, bind "f" sampleParams [⟨none, .bool true⟩, ⟨some "z", .null⟩] = .ok bound ∧
        bound.get? "x" = some (.bool true) ∧ bound.get? "y" = some (.string "why") ∧ bound.get? "z" = some .null ∧
        Fits sampleParams [⟨none, .bool true⟩, ⟨some "z", .null⟩] ∧
        Binds sampleParams [⟨none, .bool true⟩, ⟨some "z", .null⟩] bound) ∧
      Fails "f" sampleParams [⟨some "z", .bool true⟩, ⟨some "z", .null⟩] (.duplicateArgument "f" "z") := by
  have distinct : (sampleParams.map Parameter.name).Nodup := by decide
  obtain ⟨accepted, bound, _, _⟩ := bind_iff_fits distinct "f" [⟨none, .bool true⟩, ⟨some "z", .null⟩]
  obtain ⟨_, _, _, refused⟩ := bind_iff_fits distinct "f" [⟨some "z", .bool true⟩, ⟨some "z", .null⟩]
  exact ⟨distinct, ⟨_, rfl, rfl, rfl, rfl, accepted.mp ⟨_, rfl⟩, bound _ rfl⟩, (refused _).mp rfl⟩

end Binding

end ScriptEngine
