import ScriptEngine.Proofs.Assembling
import ScriptEngine.Proofs.Depths
import ScriptEngine.Proofs.Parsing
import ScriptEngine.Proofs.Targets

/-! # Compiled programs are well formed

The verification has nothing to say about where the branches and guarded regions of a compiled procedure
lead, and nothing about its stack either, unless the source calls `set` by name. A source text is never
refused because a slot was left open.
-/

namespace ScriptEngine

open Verification

/-- Whether a finding says that branches, regions or handlers lead nowhere or are not closed. -/
def Finding.isAstray : Finding → Bool
  | unbalancedTry .. => true
  | flaw _ _ what => what.isAstray
  | _ => false

/-- The shape of a procedure is sound: its paths can be followed, and no finding is about where its branches,
regions and handlers lead. -/
structure WellShaped (p : Procedure) : Prop where
  not_fatal : (shape p.code).any (·.2.isFatal) = false
  nothing_astray : ∀ f ∈ ofProcedure p, f.isAstray = false

/-- The stack of a procedure is sound: no path has a flaw, and nothing is on the stack at a marker or where a
guarded region opens. -/
structure Settled (p : Procedure) : Prop where
  no_flaw : (depths p.code).1 = []
  depth_eq_zero : ∀ (k d : Nat) (i : Instruction), (depths p.code).2[k]? = some (some d) → p.code[k]? = some i →
    ((∃ offset, i = .enterTry offset) ∨ ∃ index lines, i = .stop index lines) → d = 0

theorem follow_isAstray (code : Array Instruction) (recorded : Depths) (pending : List Visit) :
    ∀ flaw ∈ (follow code recorded pending).1, flaw.2.isAstray = false := by
  fun_induction follow code recorded pending with
  | case1 => simp
  | case3 _ _ _ _ _ _ _ _ same ih =>
    rw [same] at ih
    simpa [Flaw.isAstray] using ih
  | case4 _ _ _ _ _ _ _ _ _ _ same ih =>
    rw [same] at ih
    simpa [Flaw.isAstray] using ih
  | case2 _ _ _ _ ih | case5 _ _ _ _ _ _ _ _ ih | case6 _ _ _ _ _ ih => exact ih

theorem argumentLimit_isAstray {code : Array Instruction} :
    ∀ flaw ∈ flaws code argumentLimit, flaw.2.isAstray = false := by
  rintro ⟨index, what⟩ member
  obtain ⟨i, _, among⟩ := mem_flaws.mp member
  unfold argumentLimit at among
  split at among
  · split at among
    · rw [List.mem_singleton.mp among]
      rfl
    · cases among
  · cases among

variable {C : Instruction → Prop} {p : Procedure} {program : ProgramId}

theorem Balanced.wellShaped (h : Balanced C p.code.toList) : WellShaped p := by
  refine ⟨h.not_fatal, fun f member => ?_⟩
  have located {found : List (Nat × Flaw)} (fine : ∀ flaw ∈ found, flaw.2.isAstray = false)
      (among : f ∈ found.map fun flaw => Finding.flaw p.name flaw.1 flaw.2) :
      f.isAstray = false := by
    obtain ⟨flaw, here, rfl⟩ := List.mem_map.mp among
    exact fine flaw here
  unfold ofProcedure at member
  simp only [List.mem_append] at member
  rcases member with (((limit | arguments) | shapes) | balance) | paths
  · split at limit
    · rw [List.mem_singleton.mp limit]
      rfl
    · cases limit
  · exact located argumentLimit_isAstray arguments
  · exact located h.shape_isAstray shapes
  · rw [h.countP_eq] at balance
    simp at balance
  · rw [h.not_fatal] at paths
    exact located (follow_isAstray _ _ _) paths

theorem Layout.settled (layout : Layout p.code) : Settled p :=
  ⟨layout.depths.1, fun _ _ _ recorded found opens => layout.depth_eq_zero recorded found opens⟩

theorem admits_anything {calls : List SpelledCall} (tagged : AllTagged calls) :
    Admits program (fun _ => True) calls :=
  ⟨fun _ _ => trivial, fun _ _ => trivial, fun _ _ _ => trivial, tagged⟩

/-- An instruction that is not a call of `set` by name. -/
def Instruction.IsNoAssignment (i : Instruction) : Prop := ∀ site, i = .call site → site.name ≠ "set"

theorem callsOnly_isNoAssignment : CallsOnly Instruction.IsNoAssignment :=
  fun site known => known site rfl

theorem admits_isNoAssignment {calls : List SpelledCall} (tagged : AllTagged calls)
    (none : ∀ c ∈ calls, ¬ c.Assigns) : Admits program Instruction.IsNoAssignment calls := by
  refine ⟨by rintro v _ site ⟨⟩, ?_, ?_, tagged⟩
  · intro i made site same
    subst same
    cases made <;> simp [CallSite.positional]
  · intro c member place site same
    unfold SpelledCall.instruction at same
    split at same
    · cases same
    · next plain =>
      cases same
      exact fun named => none c member ⟨by simpa using plain, named⟩

/-- The program of a text that does not parse is its report. -/
theorem Program.ofSource_refused {source : String} (file : String) (o : LoweringOptions) {fault : Fault}
    (failed : ModuleTree.ofSource source = .error fault) :
    Program.ofSource source file o = .refused file (.of source) (fault.report file source) := by
  unfold Program.ofSource
  rw [failed]
  rfl

theorem Program.ofSource_of_lower {source : String} (file : String) {o : LoweringOptions} {m : ModuleTree}
    {parts : ProgramParts} (parsed : ModuleTree.ofSource source = .ok m) (lowered : m.lower o = .ok parts) :
    Program.ofSource source file o = .ofParts file (.of source) parts := by
  have both : (ModuleTree.ofSource source >>= (·.lower o)) = .ok parts := by
    rw [parsed]
    exact lowered
  unfold Program.ofSource
  rw [both]

/-- The program of a text that parses is what its tree compiles to. -/
theorem Program.ofSource_eq {source : String} (file : String) (o : LoweringOptions) {m : ModuleTree}
    (parsed : ModuleTree.ofSource source = .ok m) :
    ∃ parts, Program.ofSource source file o = .ofParts file (.of source) parts ∧
      Lowered m o parts := by
  obtain ⟨parts, lowered, read⟩ := m.lower_eq o
  exact ⟨parts, Program.ofSource_of_lower file parsed lowered, read⟩

/-- Every procedure of a program that parses is well formed, with markers or without: its shape is sound, and
so is its stack unless the source calls `set` by name. No source is refused because of an open slot. -/
theorem Program.ofSource_well_formed (source file : String) (o : LoweringOptions) :
    (∀ report, (Program.ofSource source file o).failure = some report →
      ∀ n, report.cause ≠ .unresolvedPlaceholder n) ∧
    ∀ m, ModuleTree.ofSource source = .ok m →
      (Program.ofSource source file o).failure = none ∧
      ∀ p ∈ (Program.ofSource source file o).procedures,
        WellShaped p ∧ ((∀ c ∈ m.calls, ¬ c.Assigns) → Settled p) := by
  have given := ModuleTree.ofSource_gives source
  refine ⟨?_, ?_⟩
  · intro report failed
    cases parsed : ModuleTree.ofSource source with
    | ok m =>
      obtain ⟨parts, same, _⟩ := Program.ofSource_eq file o parsed
      rw [same] at failed
      cases failed
    | error fault =>
      rw [parsed] at given
      rw [Program.ofSource_refused file o parsed] at failed
      cases failed
      exact given
  · intro m parsed
    rw [parsed] at given
    obtain ⟨parts, same, lowered⟩ := Program.ofSource_eq file o parsed
    rw [same]
    refine ⟨rfl, fun p member => ?_⟩
    change p ∈ parts.procedures at member
    rw [← Array.mem_toList_iff, lowered.procedures] at member
    obtain ⟨d, among, rfl⟩ := List.mem_map.mp member
    refine ⟨(ModuleTree.balanced o (admits_anything given) d among).wellShaped, fun none => ?_⟩
    have balanced := ModuleTree.balanced o (admits_isNoAssignment given none) d among
    obtain ⟨layout⟩ := balanced.layout callsOnly_isNoAssignment
    exact layout.settled

theorem Program.guarded_call_well_formed :
    ∃ m, ModuleTree.ofSource "try \x7b f(x); \x7d catch : e \x7b y = e; \x7d" = .ok m ∧
      (∀ c ∈ m.calls, ¬ c.Assigns) ∧
      ∀ p ∈ (Program.ofSource "try \x7b f(x); \x7d catch : e \x7b y = e; \x7d" "demo" ⟨0, true⟩).procedures,
        WellShaped p ∧ Settled p := by
  have spelled : spellsOnly "try \x7b f(x); \x7d catch : e \x7b y = e; \x7d" (!decide ·.Assigns) =
      true := by decide +kernel
  obtain ⟨m, parsed, none⟩ := spellsOnly_iff.mp spelled
  have none : ∀ c ∈ m.calls, ¬ c.Assigns := by simpa using none
  have formed := (Program.ofSource_well_formed _ "demo" ⟨0, true⟩).2 m parsed
  exact ⟨m, parsed, none, fun p member => ⟨(formed.2 p member).1, (formed.2 p member).2 none⟩⟩

end ScriptEngine
