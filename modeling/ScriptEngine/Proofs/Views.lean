import Mathlib.Data.List.Find
import Mathlib.Data.List.Nodup
import Mathlib.Data.Set.Card
import Mathlib.Logic.Function.Basic
import ScriptEngine.Dict

/-! # What a map is up to its comparison

A map finds its entries by a comparison of keys. If the comparison tells whether keys are of one class, the map is a
finite map from classes: `Dict.view` is that map. Every operation on entries is the one of the same name on views, as
long as no class occurs twice.
-/

namespace ScriptEngine

namespace Dict

open Classical

variable {κ α γ : Type} (cls : κ → γ)

/-- A map as a function of classes of keys. -/
noncomputable def view (d : Dict κ α) (c : γ) : Option α := (d.entries.find? fun e => cls e.1 = c).map (·.2)

/-- A function of classes with what it has for one of them replaced. -/
noncomputable def replaced (m : γ → Option α) (c : γ) (a : Option α) : γ → Option α := Function.update m c a

/-- A map in which no class occurs twice. -/
def IsDistinct (d : Dict κ α) : Prop := (d.entries.map fun e => cls e.1).Nodup

variable {cls} {d : Dict κ α} {same : κ → κ → Bool} {key : κ} {a : α}

@[simp] theorem view_empty (c : γ) : (empty : Dict κ α).view cls c = none := rfl

theorem isDistinct_empty : (empty : Dict κ α).IsDistinct cls := List.nodup_nil

/-- A class has an entry exactly if the view has it. -/
theorem view_ne_none_iff {c : γ} : d.view cls c ≠ none ↔ c ∈ d.entries.map fun e => cls e.1 := by
  unfold view
  rw [ne_eq, Option.map_eq_none_iff, List.find?_eq_none, List.mem_map]
  simp

/-- The entries of distinct classes are what the view has. -/
theorem IsDistinct.view_eq (distinct : d.IsDistinct cls) {e : κ × α} (member : e ∈ d.entries) :
    d.view cls (cls e.1) = some e.2 := by
  unfold view
  unfold IsDistinct at distinct
  generalize d.entries = entries at distinct member
  induction entries with
  | nil => cases member
  | cons first rest ih =>
    obtain ⟨new, others⟩ := List.nodup_cons.mp distinct
    rcases List.mem_cons.mp member with rfl | later
    · rw [List.find?_cons_of_pos (by simp)]
      rfl
    · have other : cls first.1 ≠ cls e.1 := fun here => new (List.mem_map.mpr ⟨e, later, here.symm⟩)
      rw [List.find?_cons_of_neg (by simpa using other)]
      exact ih others later

/-- No more classes are in the view than the map has entries. -/
theorem IsDistinct.size_eq (distinct : d.IsDistinct cls) : { c | d.view cls c ≠ none }.ncard = d.size := by
  have classes : { c | d.view cls c ≠ none } = ((d.entries.map fun e => cls e.1).toFinset : Set γ) := by
    ext c
    rw [List.coe_toFinset]
    exact view_ne_none_iff
  rw [classes, Set.ncard_coe_finset, List.toFinset_card_of_nodup distinct, List.length_map]
  rfl

theorem IsDistinct.erase (distinct : d.IsDistinct cls) : (d.erase same key).IsDistinct cls :=
  List.Nodup.sublist ((List.eraseP_sublist ..).map _) distinct

section

variable (tells : ∀ e ∈ d.entries, same e.1 key = true ↔ cls e.1 = cls key)
include tells

theorem get?_eq_view : d.get? same key = d.view cls (cls key) := by
  unfold get? view
  congr 1
  refine List.find?_congr fun e member => ?_
  rw [Bool.eq_iff_iff, decide_eq_true_eq]
  exact tells e member

theorem contains_eq_view : d.contains same key = (d.view cls (cls key)).isSome := by
  rw [← get?_eq_view tells, get?, Option.isSome_map, List.isSome_find?]
  rfl

/-- The classes after an entry was written: as before, with that of its key at the end if it is new. -/
theorem classes_insert : (d.insert same key a).entries.map (fun e => cls e.1) =
    if cls key ∈ d.entries.map fun e => cls e.1 then d.entries.map fun e => cls e.1
    else (d.entries.map fun e => cls e.1) ++ [cls key] := by
  unfold insert
  dsimp only
  generalize d.entries = entries at tells
  induction entries with
  | nil => rfl
  | cons first rest ih =>
    obtain ⟨here, others⟩ := List.forall_mem_cons.mp tells
    by_cases found : same first.1 key = true
    · simp [put, found, here.mp found]
    · have other : cls first.1 ≠ cls key := fun eq => found (here.mpr eq)
      simp only [put, if_neg found, List.map_cons, ih others, List.mem_cons, other.symm, false_or]
      split <;> rfl

/-- Writing an entry changes the view at the class of its key. -/
theorem view_insert : (d.insert same key a).view cls = replaced (d.view cls) (cls key) (some a) := by
  funext c
  unfold replaced view insert
  dsimp only
  generalize d.entries = entries at tells
  induction entries with
  | nil =>
    by_cases asked : c = cls key
    · subst asked
      simp [put]
    · simp [put, asked, Ne.symm asked]
  | cons first rest ih =>
    obtain ⟨here, others⟩ := List.forall_mem_cons.mp tells
    have later := ih others
    by_cases found : same first.1 key = true
    · have eq := here.mp found
      by_cases asked : c = cls key
      · subst asked
        simp [put, found, eq]
      · simp [put, found, eq, asked, Ne.symm asked]
    · have other : cls first.1 ≠ cls key := fun eq => found (here.mpr eq)
      by_cases asked : cls first.1 = c
      · subst asked
        simp [put, found, other]
      · simpa [put, found, asked, Function.update_apply] using later

theorem IsDistinct.insert (distinct : d.IsDistinct cls) : (d.insert same key a).IsDistinct cls := by
  unfold IsDistinct
  rw [classes_insert tells]
  split
  · exact distinct
  · next new => exact List.concat_eq_append ▸ distinct.concat new

/-- Erasing an entry takes the class of its key out of the view. -/
theorem IsDistinct.view_erase (distinct : d.IsDistinct cls) :
    (d.erase same key).view cls = replaced (d.view cls) (cls key) none := by
  funext c
  unfold IsDistinct at distinct
  unfold replaced view Dict.erase
  dsimp only
  generalize d.entries = entries at tells distinct
  induction entries with
  | nil => simp [Function.update_apply]
  | cons first rest ih =>
    obtain ⟨here, others⟩ := List.forall_mem_cons.mp tells
    obtain ⟨new, apart⟩ := List.nodup_cons.mp distinct
    by_cases found : same first.1 key = true
    · have eq := here.mp found
      by_cases asked : c = cls key
      · subst asked
        have none : (rest.find? fun e => cls e.1 = cls key) = none := by
          refine List.find?_eq_none.mpr fun e member same => new ?_
          exact List.mem_map.mpr ⟨e, member, (of_decide_eq_true same).trans eq.symm⟩
        simp [found, none]
      · simp [found, eq, asked, Ne.symm asked]
    · have other : cls first.1 ≠ cls key := fun eq => found (here.mpr eq)
      by_cases asked : cls first.1 = c
      · subst asked
        simp [found, other]
      · simpa [found, asked, Function.update_apply] using ih others apart

end

end Dict

end ScriptEngine
