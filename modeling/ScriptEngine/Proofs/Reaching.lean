import Mathlib.Data.List.Nodup
import Mathlib.Data.List.Sort
import Mathlib.Data.Prod.Lex
import Mathlib.Data.String.Basic
import ScriptEngine.Procedures

/-! # What the search for procedures finds

The search for the procedures of a program goes through pending ones, and each that it finds makes those pending
that occur in its code. So what it finds is closed: with a procedure it finds all that occur in its code, and it
finds none twice. The list is sorted, and nothing comes before the top-level code.
-/

namespace ScriptEngine

namespace Store

variable {s : Store} {fresh pending : List ProcedureId} {id other : ProcedureId}

theorem reach_subset (found : id ∈ s.reach fresh pending) : id ∈ fresh := by
  induction fresh, pending using Store.reach.induct s with
  | case1 fresh =>
    rw [reach] at found
    cases found
  | case2 fresh first rest new ih =>
    rw [reach, if_pos new] at found
    rcases List.mem_cons.mp found with rfl | later
    · exact new
    · exact List.mem_of_mem_erase (ih later)
  | case3 fresh first rest old ih =>
    rw [reach, if_neg old] at found
    exact ih found

/-- No procedure is found twice. -/
theorem reach_nodup (distinct : fresh.Nodup) : (s.reach fresh pending).Nodup := by
  induction fresh, pending using Store.reach.induct s with
  | case1 fresh =>
    rw [reach]
    exact List.nodup_nil
  | case2 fresh first rest new ih =>
    rw [reach, if_pos new]
    refine List.nodup_cons.mpr ⟨fun again => ?_, ih (distinct.erase first)⟩
    exact distinct.not_mem_erase (reach_subset again)
  | case3 fresh first rest old ih =>
    rw [reach, if_neg old]
    exact ih distinct

/-- Whatever is pending is found, unless it was before. -/
theorem mem_reach_of_pending (here : id ∈ pending) (new : id ∈ fresh) : id ∈ s.reach fresh pending := by
  induction fresh, pending using Store.reach.induct s with
  | case1 fresh => cases here
  | case2 fresh first rest among ih =>
    rw [reach, if_pos among]
    by_cases same : id = first
    · exact same ▸ List.mem_cons_self
    · have later : id ∈ rest := (List.mem_cons.mp here).resolve_left same
      exact List.mem_cons_of_mem _ (ih (List.mem_append_right _ later) ((List.mem_erase_of_ne same).mpr new))
  | case3 fresh first rest old ih =>
    rw [reach, if_neg old]
    rcases List.mem_cons.mp here with rfl | later
    · exact absurd new old
    · exact ih later new

/-- What occurs in the code of a procedure that is found is found as well. -/
theorem mem_reach_of_nested (found : id ∈ s.reach fresh pending)
    (nested : other ∈ nestedProcedures (s.procedure id).code) (new : other ∈ fresh) :
    other ∈ s.reach fresh pending := by
  induction fresh, pending using Store.reach.induct s with
  | case1 fresh =>
    rw [reach] at found
    cases found
  | case2 fresh first rest among ih =>
    rw [reach, if_pos among] at found ⊢
    by_cases same : other = first
    · exact same ▸ List.mem_cons_self
    · have left : other ∈ fresh.erase first := (List.mem_erase_of_ne same).mpr new
      refine List.mem_cons_of_mem _ ?_
      rcases List.mem_cons.mp found with rfl | later
      · exact mem_reach_of_pending (List.mem_append_left _ (List.mem_reverse.mpr nested)) left
      · exact ih later left
  | case3 fresh first rest old ih =>
    rw [reach, if_neg old] at found ⊢
    exact ih found new

theorem mem_allProcedures : id ∈ s.allProcedures ↔ id.index < (s.program id.program).procedures.size := by
  simp only [allProcedures, List.mem_flatMap, List.mem_map, List.mem_range, Prod.exists, List.mem_zipIdx_iff_getElem?,
    Array.getElem?_toList, Store.program, Array.getD_eq_getD_getElem?]
  constructor
  · rintro ⟨p, i, found, j, inside, rfl⟩
    rwa [found]
  · intro inside
    cases found : s.programs[id.program]? with
    | none =>
      rw [found] at inside
      cases inside
    | some p =>
      rw [found] at inside
      exact ⟨p, id.program, found, id.index, inside, rfl⟩

theorem allProcedures_nodup : s.allProcedures.Nodup := by
  refine List.nodup_flatMap.mpr ⟨fun (p, i) _ => ?_, ?_⟩
  · refine List.Nodup.map ?_ List.nodup_range
    intro j k same
    exact (ProcedureId.mk.inj same).2
  · have distinct : (s.programs.toList.zipIdx.map Prod.snd).Nodup := by
      rw [List.zipIdx_map_snd]
      exact List.nodup_range'
    refine (List.pairwise_map.mp distinct).imp ?_
    rintro ⟨p, i⟩ ⟨q, j⟩ apart id here there
    obtain ⟨_, _, rfl⟩ := List.mem_map.mp here
    obtain ⟨_, _, same⟩ := List.mem_map.mp there
    exact apart (ProcedureId.mk.inj same).1.symm

variable {program : ProgramId}

theorem mem_procedures : id ∈ s.procedures program ↔
    id ∈ s.reach s.allProcedures (s.rootProcedures program).reverse := List.mem_mergeSort

/-- The procedures of a program are listed once. -/
theorem procedures_nodup (s : Store) (program : ProgramId) : (s.procedures program).Nodup :=
  (List.mergeSort_perm ..).nodup_iff.mpr (reach_nodup allProcedures_nodup)

theorem mem_procedures_of_root (root : id ∈ s.rootProcedures program)
    (inside : id.index < (s.program id.program).procedures.size) : id ∈ s.procedures program :=
  mem_procedures.mpr (mem_reach_of_pending (List.mem_reverse.mpr root) (mem_allProcedures.mpr inside))

theorem mem_procedures_of_nested (listed : id ∈ s.procedures program)
    (nested : other ∈ nestedProcedures (s.procedure id).code)
    (inside : other.index < (s.program other.program).procedures.size) : other ∈ s.procedures program :=
  mem_procedures.mpr (mem_reach_of_nested (mem_procedures.mp listed) nested (mem_allProcedures.mpr inside))

/-- A listed procedure exists. -/
theorem index_lt_of_mem_procedures (listed : id ∈ s.procedures program) :
    id.index < (s.program id.program).procedures.size :=
  mem_allProcedures.mp (reach_subset (mem_procedures.mp listed))

/-- By line and then by name, as one pair. -/
def procedureRank (s : Store) (id : ProcedureId) : Nat ×ₗ String :=
  toLex ((s.procedure id).line, (s.procedure id).name)

theorem procedureLe_iff {topLevel : Option ProcedureId} {a b : ProcedureId} :
    s.procedureLe topLevel a b = true ↔
      topLevel = some a ∨ topLevel ≠ some b ∧ s.procedureRank a ≤ s.procedureRank b := by
  unfold procedureLe procedureRank
  dsimp only
  rw [Prod.Lex.toLex_le_toLex]
  by_cases first : topLevel = some a
  · simp [first]
  · by_cases last : topLevel = some b <;> simp [first, last]

theorem procedureLe_trans (topLevel : Option ProcedureId) (a b c : ProcedureId) :
    s.procedureLe topLevel a b = true → s.procedureLe topLevel b c = true → s.procedureLe topLevel a c = true := by
  simp only [procedureLe_iff]
  rintro (first | ⟨other, le⟩) (second | ⟨other', le'⟩)
  · exact .inl first
  · exact .inl first
  · exact absurd second other
  · exact .inr ⟨other', le.trans le'⟩

theorem procedureLe_total (topLevel : Option ProcedureId) (a b : ProcedureId) :
    (s.procedureLe topLevel a b || s.procedureLe topLevel b a) = true := by
  rw [Bool.or_eq_true, procedureLe_iff, procedureLe_iff]
  rcases le_total (s.procedureRank a) (s.procedureRank b) with le | le
  · by_cases last : topLevel = some b
    · exact .inr (.inl last)
    · exact .inl (.inr ⟨last, le⟩)
  · by_cases first : topLevel = some a
    · exact .inl (.inl first)
    · exact .inr (.inr ⟨first, le⟩)

/-- The list starts with the top-level code. -/
theorem head?_procedures (top : (s.program program).topLevel = some id) (listed : id ∈ s.procedures program) :
    (s.procedures program).head? = some id := by
  have sorted : (s.procedures program).Pairwise fun a b => s.procedureLe (s.program program).topLevel a b = true :=
    List.pairwise_mergeSort (procedureLe_trans _) (procedureLe_total _) _
  cases same : s.procedures program with
  | nil =>
    rw [same] at listed
    cases listed
  | cons first rest =>
    rw [same] at sorted listed
    rcases List.mem_cons.mp listed with rfl | later
    · rfl
    · rw [top] at sorted
      rcases procedureLe_iff.mp ((List.pairwise_cons.mp sorted).1 id later) with here | ⟨other, _⟩
      · exact here.symm ▸ rfl
      · exact absurd rfl other

end Store

end ScriptEngine
