import Mathlib.Data.List.Induction
import ScriptEngine.CommandLine.Outcome

/-! # Breakpoints

A marker has one flag, and a request for a line writes the flag of every marker that covers it. So a marker does
as the last request for any of its lines said, and where a statement runs over several lines, switching off one
of them takes back what was asked for the others. The command line only switches lines on, and there the
requests do not disturb each other.
-/

namespace ScriptEngine

/-- A request of a host: the breakpoints on a line are switched on or off. -/
structure Toggle where
  line : Nat
  on : Bool
deriving DecidableEq

namespace Toggle

variable {among : Nat → Bool} {toggles : List Toggle} {t u : Toggle}

/-- The last request for one of some lines. -/
def last? (among : Nat → Bool) (toggles : List Toggle) : Option Toggle :=
  (toggles.filter fun t => among t.line).getLast?

/-- A line was switched on, and not off since. -/
def On (toggles : List Toggle) (line : Nat) : Prop := last? (· == line) toggles = some ⟨line, true⟩

instance (toggles : List Toggle) (line : Nat) : Decidable (On toggles line) :=
  inferInstanceAs (Decidable (_ = _))

theorem last?_concat (among : Nat → Bool) (toggles : List Toggle) (t : Toggle) :
    last? among (toggles ++ [t]) = if among t.line then some t else last? among toggles := by
  unfold last?
  rw [List.filter_append, List.filter_cons, List.filter_nil]
  split <;> simp

theorem among_of_last? (last : last? among toggles = some t) : t ∈ toggles ∧ among t.line = true :=
  List.mem_filter.mp (List.mem_of_getLast? last)

theorem last?_eq_none_iff : last? among toggles = none ↔ ∀ t ∈ toggles, among t.line = false := by
  simp [last?]

/-- What was last asked of some lines was last asked of its own line. -/
theorem last?_own (last : last? among toggles = some t) : last? (· == t.line) toggles = some t := by
  have here := (among_of_last? last).2
  induction toggles using List.reverseRecOn with
  | nil => nomatch last
  | append_singleton toggles u ih =>
    rw [last?_concat] at last ⊢
    split at last
    · obtain rfl := Option.some.inj last
      simp
    · next elsewhere =>
      have other : (u.line == t.line) = false := by
        refine beq_eq_false_iff_ne.mpr fun same => ?_
        exact elsewhere (same ▸ here)
      simpa [other] using ih last

/-- The same of two conditions that agree on the lines that were asked for. -/
theorem last?_congr {among' : Nat → Bool} (agree : ∀ t ∈ toggles, among t.line = among' t.line) :
    last? among toggles = last? among' toggles :=
  congrArg List.getLast? (List.filter_congr agree)

end Toggle

open Toggle

namespace Marker

variable {toggles : List Toggle} {m m' : Marker}

/-- A marker after a request. -/
def obey (m : Marker) (t : Toggle) : Marker :=
  if m.lines.covers t.line then { m with active := t.on } else m

@[simp] theorem obey_lines (m : Marker) (t : Toggle) : (m.obey t).lines = m.lines := by
  unfold obey
  split <;> rfl

/-- A marker after some requests has the flag of the last of them that was for one of its lines. -/
theorem foldl_obey (m : Marker) (toggles : List Toggle) :
    toggles.foldl obey m =
      { m with active := ((last? m.lines.covers toggles).map Toggle.on).getD m.active } := by
  induction toggles using List.reverseRecOn with
  | nil => rfl
  | append_singleton toggles t ih =>
    rw [List.foldl_append, ih, last?_concat]
    simp only [List.foldl_cons, List.foldl_nil, obey]
    split <;> rfl

/-- What some requests make of a marker. -/
structure Obeys (toggles : List Toggle) (m m' : Marker) : Prop where
  lines : m'.lines = m.lines
  enabled : m'.enabled = m.enabled
  active : m'.active = true ↔
    (∃ line, last? m.lines.covers toggles = some ⟨line, true⟩) ∨
      m.active = true ∧ ∀ t ∈ toggles, m.lines.covers t.line = false
  /-- Only a line that is on makes a marker active. -/
  on : m.active = false → m'.active = true → ∃ line, m.lines.covers line = true ∧ On toggles line
  /-- A line that is on counts for nothing only after another line of the marker was switched off. -/
  overruled : ∀ line, m.lines.covers line = true → On toggles line → m'.active = false →
    ∃ other, other ≠ line ∧ last? m.lines.covers toggles = some ⟨other, false⟩
  /-- A marker follows the line that it covers if the requests name no other line of it. -/
  single : ∀ line, (∀ t ∈ toggles, m.lines.covers t.line = (t.line == line)) →
    m.active = false → (m'.active = true ↔ On toggles line)

theorem active_iff (toggles : List Toggle) (m : Marker) :
    (toggles.foldl obey m).active = true ↔
      (∃ line, last? m.lines.covers toggles = some ⟨line, true⟩) ∨
        m.active = true ∧ ∀ t ∈ toggles, m.lines.covers t.line = false := by
  rw [foldl_obey, ← last?_eq_none_iff]
  cases last? m.lines.covers toggles with
  | none => simp
  | some t =>
    obtain ⟨line, on⟩ := t
    simp

theorem obeys_foldl (toggles : List Toggle) (m : Marker) : Obeys toggles m (toggles.foldl obey m) where
  lines := by rw [foldl_obey]
  enabled := by rw [foldl_obey]
  active := active_iff toggles m
  on off active := by
    obtain ⟨line, last⟩ | ⟨on, _⟩ := (active_iff toggles m).mp active
    · exact ⟨line, (among_of_last? last).2, last?_own last⟩
    · exact absurd on (by simp [off])
  overruled line covered on inactive := by
    cases last : last? m.lines.covers toggles with
    | none =>
      have missed := last?_eq_none_iff.mp last _ (among_of_last? on).1
      exact absurd covered (by simp [missed])
    | some t =>
      obtain ⟨other, value⟩ := t
      have off : value = false := by simpa [foldl_obey, last] using inactive
      subst off
      refine ⟨other, fun same => ?_, rfl⟩
      -- the last request for the line itself would switch it off
      have := (last?_own last).symm.trans (same ▸ on)
      simp at this
  single line only off := by
    have same : last? m.lines.covers toggles = last? (· == line) toggles := last?_congr only
    rw [active_iff, same]
    constructor
    · rintro (⟨own, last⟩ | ⟨on, _⟩)
      · have same : own = line := by simpa using (among_of_last? last).2
        exact same ▸ last
      · exact absurd on (by simp [off])
    · exact fun on => .inl ⟨line, on⟩

end Marker

namespace Program

variable {p q : Program} {toggles : List Toggle}

theorem setBreakpoint_eq (p : Program) (t : Toggle) :
    p.setBreakpoint t.line t.on =
      (p.markers.countP fun m => m.lines.covers t.line, { p with markers := p.markers.map (·.obey t) }) :=
  rfl

/-- Some requests in order: what each of them yields, and the program after them. -/
def toggle (p : Program) : List Toggle → List Nat × Program
  | [] => ([], p)
  | t :: toggles =>
    let (covered, p) := p.setBreakpoint t.line t.on
    let (counts, p) := p.toggle toggles
    (covered :: counts, p)

theorem toggle_eq (p : Program) (toggles : List Toggle) :
    p.toggle toggles =
      (toggles.map fun t => p.markers.countP fun m => m.lines.covers t.line,
        { p with markers := p.markers.map (toggles.foldl Marker.obey ·) }) := by
  induction toggles generalizing p with
  | nil => simp [toggle]
  | cons t toggles ih =>
    rw [toggle, setBreakpoint_eq]
    simp [ih, Array.countP_map, Function.comp_def]

/-- What some requests make of a program. -/
structure Toggled (p : Program) (toggles : List Toggle) (counts : List Nat) (q : Program) : Prop where
  /-- Each request yields how many markers cover its line. -/
  counts : counts = toggles.map fun t => p.markers.countP fun m => m.lines.covers t.line
  /-- Nothing but the markers changes. -/
  others : q = { p with markers := q.markers }
  size : q.markers.size = p.markers.size
  markers : ∀ (i : Nat) (m m' : Marker), p.markers[i]? = some m → q.markers[i]? = some m' →
    Marker.Obeys toggles m m'

/-- A marker does as the last request for any of its lines said, whatever the program and the requests. -/
theorem toggle_markers (p : Program) (toggles : List Toggle) :
    Toggled p toggles (p.toggle toggles).1 (p.toggle toggles).2 := by
  rw [toggle_eq]
  refine ⟨rfl, rfl, by simp, fun i m m' old new => ?_⟩
  have : toggles.foldl Marker.obey m = m' := by simpa [old] using new
  exact this ▸ Marker.obeys_foldl toggles m

/-- A statement on two lines: switching off the second line also takes back the first, which is still on. -/
theorem second_line_takes_first :
    let p := Program.ofSource "x = 1 +\n2;\n" "demo" ⟨0, true⟩
    let toggles : List Toggle := [⟨1, true⟩, ⟨2, true⟩, ⟨2, false⟩]
    p.failure = none ∧ p.markers = #[⟨⟨1, 2⟩, false, true⟩] ∧
      On toggles 1 ∧ (⟨1, 2⟩ : Lines).covers 1 = true ∧
      (p.toggle [⟨1, true⟩, ⟨2, true⟩]).2.markers = #[⟨⟨1, 2⟩, true, true⟩] ∧
      (p.toggle toggles).2.markers = #[⟨⟨1, 2⟩, false, true⟩] := by
  decide +kernel

/-- A program after some lines were switched on: every marker on one of them is active. -/
def armed (p : Program) (lines : List Nat) : Program :=
  { p with markers := p.markers.map fun m => { m with active := m.active || lines.any m.lines.covers } }

theorem armed_nil (p : Program) : p.armed [] = p := by
  simp [armed]

theorem armed_concat (p : Program) (lines : List Nat) (line : Nat) :
    p.armed (lines ++ [line]) = ((p.armed lines).setBreakpoint line true).2 := by
  unfold armed setBreakpoint
  simp only [Array.map_map]
  congr 3
  funext m
  cases covered : m.lines.covers line <;> simp [covered]

theorem armed_covered (p : Program) (lines : List Nat) (line : Nat) (on : Bool) :
    ((p.armed lines).setBreakpoint line on).1 = p.markers.countP fun m => m.lines.covers line := by
  simp [setBreakpoint, armed, Array.countP_map, Function.comp_def]

end Program

namespace Outcome

/-- The warning about a line without a statement. -/
def unmarked (line : Nat) : String := s!"warning: no statement on line {line}"

/-- A program that does not exist has no markers, so the change shows wherever the program is read. -/
theorem program_setBreakpoint (id : ProgramId) (line : Nat) (s : Store) :
    (s.modifyProgram id fun _ => ((s.program id).setBreakpoint line true).2).program id =
      ((s.program id).setBreakpoint line true).2 := by
  simp only [Store.modifyProgram, Store.program, Array.getD_eq_getD_getElem?, Array.getElem?_modify, if_true]
  cases s.programs[id]? with
  | none =>
    have empty : (default : Program).markers = #[] := rfl
    simp only [Option.getD_none, Program.setBreakpoint, empty, Array.map_empty]
    rfl
  | some p => rfl

theorem setBreakpoints_concat (id : ProgramId) (lines : List Nat) (line : Nat) (s : Store) :
    setBreakpoints id (lines ++ [line]) s =
      let (warnings, s) := setBreakpoints id lines s
      let (covered, p) := (s.program id).setBreakpoint line true
      (if covered = 0 then warnings ++ [unmarked line] else warnings, s.modifyProgram id fun _ => p) := by
  unfold setBreakpoints
  rw [List.foldl_append, List.foldl_cons, List.foldl_nil]
  generalize List.foldl _ _ lines = done
  obtain ⟨warnings, s⟩ := done
  dsimp only
  split <;> rfl

/-- The command line warns about the lines without a statement, and makes all statements on its lines stops: its
lines do not disturb each other. -/
theorem setBreakpoints_independent (id : ProgramId) (lines : List Nat) (s : Store) :
    (setBreakpoints id lines s).1 =
        (lines.filter fun line => (s.program id).markers.countP (·.lines.covers line) = 0).map unmarked ∧
      (setBreakpoints id lines s).2.program id = (s.program id).armed lines := by
  induction lines using List.reverseRecOn with
  | nil => exact ⟨rfl, ((s.program id).armed_nil).symm⟩
  | append_singleton lines line ih =>
    obtain ⟨warnings, armed⟩ := ih
    rw [setBreakpoints_concat]
    generalize setBreakpoints id lines s = done at warnings armed ⊢
    obtain ⟨texts, s'⟩ := done
    dsimp only at warnings armed ⊢
    constructor
    · rw [armed, Program.armed_covered, List.filter_append, List.map_append, ← warnings]
      split <;> simp_all
    · rw [program_setBreakpoint, armed]
      exact ((s.program id).armed_concat lines line).symm

end Outcome

end ScriptEngine
