import ScriptEngine.Proofs.Layout

/-! # Cycles of compiled code

With markers on, a run cannot go round in compiled code without passing a marker, except in a loop that has no
statements: a marker stands before every statement, and so at the entry of every body. A survey of a stretch of
code gives every index a rank, which no step increases that passes no marker; it stays the same only inside of
such a loop. `Winds` says that there is a survey, and the survey of a list is put together from those of its
parts. Only where a loop leads back does the order of the ranks differ from that of the indices: what comes
behind the marker at the entry of its body ranks above what comes before.
-/

namespace ScriptEngine

/-- A marker stands at an index. -/
def Marked (code : Array Instruction) (pc : Nat) : Prop := ∃ i, code[pc]? = some i ∧ i.isStop = true

/-- Where a frame may go on after an instruction that does not fail, and the handlers of the regions that are
open there. A guarded region leads to its handler, too. -/
def Instruction.leads (size pc : Nat) (η : List Nat) : Instruction → List (Nat × List Nat)
  | .branch .always offset =>
    match landing? pc offset size with
    | some (.index target) => [(target, η)]
    | _ => []
  | .branch _ offset =>
    match landing? pc offset size with
    | some (.index target) => [(pc + 1, η), (target, η)]
    | _ => [(pc + 1, η)]
  | .enterTry offset =>
    match landing? pc offset size with
    | some (.index target) => [(pc + 1, target :: η), (target, η)]
    | _ => [(pc + 1, η)]
  | .leaveTry => [(pc + 1, η.tail)]
  | _ => [(pc + 1, η)]

theorem Instruction.leads_jump {offset : Offset} {size pc target : Nat} (η : List Nat)
    (lands : landing? pc offset size = some (.index target)) :
    (Instruction.branch .always offset).leads size pc η = [(target, η)] := by
  simp only [leads, lands]

theorem Instruction.leads_test {kind : BranchKind} {offset : Offset} {size pc target : Nat} (η : List Nat)
    (conditional : kind ≠ .always) (lands : landing? pc offset size = some (.index target)) :
    (Instruction.branch kind offset).leads size pc η = [(pc + 1, η), (target, η)] := by
  cases kind with
  | always => exact absurd rfl conditional
  | _ => simp only [leads, lands]

theorem Instruction.leads_enterTry {offset : Offset} {size pc target : Nat} (η : List Nat)
    (lands : landing? pc offset size = some (.index target)) :
    (Instruction.enterTry offset).leads size pc η = [(pc + 1, target :: η), (target, η)] := by
  simp only [leads, lands]

/-- Where an error leads: to the innermost handler. -/
def raised : List Nat → List (Nat × List Nat)
  | [] => []
  | target :: outer => [(target, outer)]

/-- The loop of a loop over elements, in which an index runs up to a size. -/
def Fragment.elementLoop (n : Nat) (place : Position) (name : String) (namePlace : Position)
    (body : List Instruction) : List Instruction :=
  let container : Instruction := .load (hiddenName "iter" n) place
  let length : Instruction := .load (hiddenName "len" n) place
  let index : Instruction := .load (hiddenName "idx" n) place
  let send (method : String) (count : Nat) : Instruction := .send (.positional method count place)
  whileLoop [index, length, send "__lt__" 1]
    (assign name [container, index, send "__index__" 1] namePlace ++ body ++
      assign (hiddenName "idx" n) [index, .value (.number 1), send "__add__" 1] place)

/-- The code of a loop whose body has no statements. -/
inductive IdleLoop : List Instruction → Prop
  | whileLoop (condition : Expr) : IdleLoop (Fragment.whileLoop condition.emit [])
  | forLoop (n : Nat) (place : Position) (name : String) (namePlace : Position) :
    IdleLoop (Fragment.elementLoop n place name namePlace [])

/-- A loop without statements stands at an index and ends before another one. -/
def IdleAt (code : Array Instruction) (lo hi : Nat) : Prop :=
  ∃ is, IdleLoop is ∧ Segment code lo is ∧ hi = lo + is.length

/-- What is known of each index: the handlers of the regions that are open there, a rank, and the loop without
statements that the index is in, if there is one. -/
structure Survey where
  regions : Nat → List Nat
  rank : Nat → Nat
  idle : Nat → Option (Nat × Nat)

/-- A step from an index to another one passes a marker, or goes down, or stays in a loop without statements. -/
def Survey.Down (v : Survey) (code : Array Instruction) (pc next : Nat) : Prop :=
  Marked code pc ∨ Marked code next ∨ v.rank next < v.rank pc ∨
    v.rank next = v.rank pc ∧ v.idle next = v.idle pc ∧ (v.idle pc).isSome = true

/-- A survey of the indices from `lo` up to `hi`, whose ranks are below `width`. -/
structure Survey.Covers (v : Survey) (code : Array Instruction) (lo hi width : Nat)
    (exits : List (Nat × List Nat)) : Prop where
  loops : ∀ pc l h, lo ≤ pc → pc < hi → v.idle pc = some (l, h) → IdleAt code l h ∧ l ≤ pc ∧ pc < h
  bounded : ∀ pc, lo ≤ pc → pc < hi → ¬ Marked code pc → v.rank pc < width
  leads : ∀ pc, lo ≤ pc → pc < hi → ∃ i, code[pc]? = some i ∧
    ∀ x ∈ i.leads code.size pc (v.regions pc) ++ raised (v.regions pc),
      (lo ≤ x.1 ∧ x.1 < hi ∧ v.regions x.1 = x.2 ∧ v.Down code pc x.1) ∨ x ∈ exits

/-- There is a survey of the indices from `lo` up to `hi`; at `lo` the regions with the handlers `η` are open. An
empty stretch leads on at once. -/
def Winds (code : Array Instruction) (lo hi : Nat) (η : List Nat) (width : Nat) (exits : List (Nat × List Nat)) :
    Prop :=
  ∃ v : Survey, (lo < hi ∧ v.regions lo = η ∨ lo = hi ∧ (lo, η) ∈ exits) ∧ v.Covers code lo hi width exits

namespace Winds

variable {code : Array Instruction} {lo mid hi m n p q width : Nat} {η θ : List Nat}
  {exits exits' out : List (Nat × List Nat)}

theorem nil (among : (lo, η) ∈ exits) : Winds code lo lo η 0 exits :=
  ⟨⟨fun _ => η, fun _ => 0, fun _ => none⟩, .inr ⟨rfl, among⟩, fun pc _ _ _ _ => by omega,
    fun pc _ _ => by omega, fun pc _ _ => by omega⟩

theorem single {i : Instruction} (found : code[lo]? = some i) :
    Winds code lo (lo + 1) η (if i.isStop then 0 else 1) (i.leads code.size lo η ++ raised η) := by
  refine ⟨⟨fun _ => η, fun _ => 0, fun _ => none⟩, .inl ⟨by omega, rfl⟩, ⟨?_, ?_, ?_⟩⟩
  · rintro pc l h _ _ ⟨⟩
  · intro pc above below free
    obtain rfl : pc = lo := by omega
    cases stops : i.isStop with
    | true => exact absurd ⟨i, found, stops⟩ free
    | false => simp
  · intro pc above below
    obtain rfl : pc = lo := by omega
    exact ⟨i, found, fun x member => .inr member⟩

/-- Two stretches in sequence. The ranks of both are raised, so that those of the second are below those of the
first, or the first enters the second at a marker; only if the first is below the second may the second lead back. -/
theorem join (first : Winds code lo mid η m exits) (second : Winds code mid hi θ n exits')
    (same : lo < mid ∨ η = θ) (forth : Marked code mid ∨ n + q ≤ p)
    (onward : ∀ x ∈ exits, x = (mid, θ) ∨ x ∈ out)
    (further : ∀ x ∈ exits', (x = (lo, η) ∧ lo < mid ∧ m + p ≤ q) ∨ x ∈ out)
    (wide : m + p ≤ width ∧ n + q ≤ width) : Winds code lo hi η width out := by
  obtain ⟨v, entry, covers⟩ := first
  obtain ⟨v', entry', covers'⟩ := second
  have order : lo ≤ mid ∧ mid ≤ hi := by omega
  have enter : (mid < hi ∧ v'.regions mid = θ) ∨ (mid, θ) ∈ out := by
    rcases entry' with ⟨inside, here⟩ | ⟨empty, member⟩
    · exact .inl ⟨inside, here⟩
    · rcases further _ member with ⟨back, _⟩ | member
      · cases back
        omega
      · exact .inr member
  let w : Survey :=
    ⟨fun pc => if pc < mid then v.regions pc else v'.regions pc,
      fun pc => if pc < mid then v.rank pc + p else v'.rank pc + q,
      fun pc => if pc < mid then v.idle pc else v'.idle pc⟩
  have before {pc : Nat} (less : pc < mid) :
      w.regions pc = v.regions pc ∧ w.rank pc = v.rank pc + p ∧ w.idle pc = v.idle pc := by
    simp [w, less]
  have after {pc : Nat} (less : mid ≤ pc) :
      w.regions pc = v'.regions pc ∧ w.rank pc = v'.rank pc + q ∧ w.idle pc = v'.idle pc := by
    simp [w, Nat.not_lt.mpr less]
  refine ⟨w, ?_, ⟨?_, ?_, ?_⟩⟩
  · rcases entry with ⟨inside, here⟩ | ⟨empty, member⟩
    · exact .inl ⟨by omega, (before inside).1.trans here⟩
    · obtain rfl : η = θ := same.resolve_left (by omega)
      subst empty
      rcases enter with ⟨inside, here⟩ | member
      · exact .inl ⟨inside, (after (Nat.le_refl _)).1.trans here⟩
      · rcases Nat.lt_or_ge lo hi with inside | outside
        · rcases entry' with ⟨_, here⟩ | ⟨empty, _⟩
          · exact .inl ⟨inside, (after (Nat.le_refl _)).1.trans here⟩
          · omega
        · exact .inr ⟨by omega, member⟩
  · intro pc l h above below here
    rcases Nat.lt_or_ge pc mid with less | less
    · exact covers.loops pc l h above less ((before less).2.2 ▸ here)
    · exact covers'.loops pc l h less below ((after less).2.2 ▸ here)
  · intro pc above below free
    rcases Nat.lt_or_ge pc mid with less | less
    · have := covers.bounded pc above less free
      rw [(before less).2.1]
      omega
    · have := covers'.bounded pc less below free
      rw [(after less).2.1]
      omega
  · intro pc above below
    rcases Nat.lt_or_ge pc mid with less | less
    · obtain ⟨i, found, all⟩ := covers.leads pc above less
      refine ⟨i, found, ?_⟩
      rw [(before less).1]
      intro x member
      rcases all x member with ⟨above, below, here, down⟩ | member
      · refine .inl ⟨above, by omega, (before below).1.trans here, ?_⟩
        simpa only [Survey.Down, (before less).2, (before below).2, Nat.add_lt_add_iff_right,
          Nat.add_right_cancel_iff] using down
      · rcases onward x member with rfl | member
        · refine enter.imp (fun ⟨inside, here⟩ => ⟨order.1, inside, (after (Nat.le_refl _)).1.trans here, ?_⟩) id
          by_cases marked : Marked code mid
          · exact .inr (.inl marked)
          · have := covers'.bounded mid (Nat.le_refl _) inside marked
            have := forth.resolve_left marked
            refine .inr (.inr (.inl ?_))
            rw [(before less).2.1, (after (Nat.le_refl _)).2.1]
            omega
        · exact .inr member
    · obtain ⟨i, found, all⟩ := covers'.leads pc less below
      refine ⟨i, found, ?_⟩
      rw [(after less).1]
      intro x member
      rcases all x member with ⟨above, below, here, down⟩ | member
      · refine .inl ⟨by omega, below, (after above).1.trans here, ?_⟩
        simpa only [Survey.Down, (after less).2, (after above).2, Nat.add_lt_add_iff_right,
          Nat.add_right_cancel_iff] using down
      · rcases further x member with ⟨rfl, inside, lower⟩ | member
        · have here : v.regions lo = η := by
            rcases entry with ⟨_, here⟩ | ⟨empty, _⟩
            · exact here
            · omega
          refine .inl ⟨Nat.le_refl _, by omega, (before inside).1.trans here, ?_⟩
          by_cases marked : Marked code lo
          · exact .inr (.inl marked)
          · have := covers.bounded lo (Nat.le_refl _) inside marked
            refine .inr (.inr (.inl ?_))
            rw [(before inside).2.1, (after less).2.1]
            omega
        · exact .inr member

theorem mono (winds : Winds code lo hi η m exits) (le : m ≤ n) : Winds code lo hi η n exits := by
  obtain ⟨v, entry, covers⟩ := winds
  exact ⟨v, entry, covers.loops, fun pc above below free => Nat.lt_of_lt_of_le (covers.bounded pc above below free) le,
    covers.leads⟩

theorem into (winds : Winds code lo hi η n exits) (among : ∀ x ∈ exits, x ∈ out) : Winds code lo hi η n out := by
  obtain ⟨v, entry, covers⟩ := winds
  refine ⟨v, entry.imp_right fun ⟨empty, member⟩ => ⟨empty, among _ member⟩, covers.loops, covers.bounded, ?_⟩
  intro pc above below
  obtain ⟨i, found, all⟩ := covers.leads pc above below
  exact ⟨i, found, fun x member => (all x member).imp_right (among x)⟩

/-- Two stretches in sequence. -/
theorem append (first : Winds code lo mid η m exits) (second : Winds code mid hi θ n exits')
    (same : lo < mid ∨ η = θ) (onward : ∀ x ∈ exits, x = (mid, θ) ∨ x ∈ out)
    (further : ∀ x ∈ exits', x ∈ out) : Winds code lo hi η (m + n) out :=
  first.join (q := 0) second same (.inr (Nat.le_refl n)) onward (fun x member => .inr (further x member))
    ⟨Nat.le_refl _, by omega⟩

/-- An instruction after a stretch. -/
theorem snoc {i : Instruction} (first : Winds code lo mid η m exits) (found : code[mid]? = some i)
    (onward : ∀ x ∈ exits, x = (mid, η) ∨ x ∈ out)
    (further : ∀ x ∈ i.leads code.size mid η ++ raised η, x ∈ out) :
    Winds code lo (mid + 1) η (m + if i.isStop then 0 else 1) out :=
  first.append (single found) (.inr rfl) onward further

/-- A conditional branch after a stretch. -/
theorem test {kind : BranchKind} {offset : Offset} {target : Nat} (first : Winds code lo mid η m exits)
    (found : code[mid]? = some (.branch kind offset)) (conditional : kind ≠ .always)
    (lands : landing? mid offset code.size = some (.index target))
    (onward : ∀ x ∈ exits, x = (mid, η) ∨ x ∈ out)
    (further : ∀ x ∈ [(mid + 1, η), (target, η)] ++ raised η, x ∈ out) :
    Winds code lo (mid + 1) η (m + 1) out :=
  first.snoc found onward (Instruction.leads_test η conditional lands ▸ further)

/-- A condition, and what runs unless it branches. -/
theorem arm {mid : Nat} {kind : BranchKind} {offset : Offset} {target : Nat}
    (asks : Winds code lo mid η m ((mid, η) :: raised η)) (found : code[mid]? = some (.branch kind offset))
    (conditional : kind ≠ .always) (lands : landing? mid offset code.size = some (.index target))
    (inner : Winds code (mid + 1) hi η n ((hi, η) :: raised η)) :
    Winds code lo hi η (m + 1 + n) ([(hi, η), (target, η)] ++ raised η) := by
  have asked : Winds code lo (mid + 1) η (m + 1) ([(mid + 1, η), (target, η)] ++ raised η) := by
    refine asks.test found conditional lands ?_ ?_ <;> simp +contextual
  refine asked.append inner (.inr rfl) ?_ ?_ <;> simp +contextual

/-- A branch that is always taken, after a stretch. -/
theorem jump {offset : Offset} {target : Nat} (first : Winds code lo mid η m exits)
    (found : code[mid]? = some (.branch .always offset))
    (lands : landing? mid offset code.size = some (.index target))
    (onward : ∀ x ∈ exits, x = (mid, η) ∨ x ∈ out) (further : ∀ x ∈ (target, η) :: raised η, x ∈ out) :
    Winds code lo (mid + 1) η (m + 1) out := by
  refine first.snoc found onward ?_
  rw [Instruction.leads_jump η lands]
  exact further

/-- A loop: a stretch that leads to a marker, and another one from there on that leads back. -/
theorem loop (first : Winds code lo mid η m exits) (second : Winds code mid hi η n exits')
    (marked : Marked code mid) (solid : lo < mid) (onward : ∀ x ∈ exits, x = (mid, η) ∨ x ∈ out)
    (further : ∀ x ∈ exits', x = (lo, η) ∨ x ∈ out) : Winds code lo hi η (m + n) out := by
  refine first.join (p := 0) (q := m) second (.inl solid) (.inl marked) onward (fun x member => ?_) (by omega)
  exact (further x member).imp_left fun back => ⟨back, solid, Nat.le_refl _⟩

/-- A loop without statements: it leads back to its entry, and stays on one rank. -/
theorem idle (here : IdleAt code lo hi) (solid : lo < hi) (winds : Winds code lo hi η n exits)
    (further : ∀ x ∈ exits, x = (lo, η) ∨ x ∈ out) : Winds code lo hi η 1 out := by
  obtain ⟨v, entry, covers⟩ := winds
  have start : v.regions lo = η := (entry.resolve_right (by omega)).2
  refine ⟨⟨v.regions, fun _ => 0, fun _ => some (lo, hi)⟩, .inl ⟨solid, start⟩, ?_, fun _ _ _ _ => Nat.one_pos, ?_⟩
  · rintro pc l h above below ⟨⟩
    exact ⟨here, above, below⟩
  · intro pc above below
    obtain ⟨i, found, all⟩ := covers.leads pc above below
    refine ⟨i, found, fun x member => ?_⟩
    rcases all x member with ⟨above, below, regions, _⟩ | member
    · exact .inl ⟨above, below, regions, .inr (.inr (.inr ⟨rfl, rfl, rfl⟩))⟩
    · rcases further x member with rfl | member
      · exact .inl ⟨Nat.le_refl _, solid, start, .inr (.inr (.inr ⟨rfl, rfl, rfl⟩))⟩
      · exact .inr member

end Winds

/-- A list begins with a marker. -/
def BeginsMarked (is : List Instruction) : Prop := ∃ index lines rest, is = .stop index lines :: rest

theorem BeginsMarked.marked {code : Array Instruction} {lo : Nat} {is : List Instruction} (begins : BeginsMarked is)
    (seg : Segment code lo is) : Marked code lo := by
  obtain ⟨index, lines, rest, rfl⟩ := begins
  exact ⟨_, seg.head, rfl⟩

/-- Wherever it stands, a list has a survey, and is left only at its end or by an error. -/
def Progresses (is : List Instruction) : Prop :=
  ∀ ⦃code : Array Instruction⦄ ⦃lo hi : Nat⦄ (η : List Nat), Segment code lo is → hi = lo + is.length →
    Winds code lo hi η (paces is) ((hi, η) :: raised η)

variable {C : Instruction → Prop} {a b condition body rest handler : List Instruction} {i : Instruction}

namespace Progresses

theorem nil : Progresses [] := by
  rintro code lo hi η _ rfl
  exact .nil List.mem_cons_self

theorem append (first : Progresses a) (second : Progresses b) : Progresses (a ++ b) := by
  intro code lo hi η seg stop
  rw [List.length_append] at stop
  refine ((first η seg.left rfl).append (second η seg.right (by omega)) (.inr rfl) ?_ ?_).mono (by simp) <;>
    simp +contextual

/-- An instruction that goes on to the next one. -/
theorem single (onward : ∀ size pc η, i.leads size pc η = [(pc + 1, η)]) : Progresses [i] := by
  rintro code lo hi η seg rfl
  have winds := Winds.single (η := η) seg.head
  rw [onward] at winds
  exact winds.mono (by simp)

theorem plain (first : Progresses a) (onward : ∀ size pc η, i.leads size pc η = [(pc + 1, η)]) :
    Progresses (a ++ [i]) := first.append (single onward)

end Progresses

theorem Pushes.progresses {n : Nat} {is : List Instruction} (h : Pushes C n is) : Progresses is := by
  induction h with
  | nil => exact .nil
  | append _ _ first second => exact first.append second
  | value => exact .single fun _ _ _ => rfl
  | load => exact .single fun _ _ _ => rfl
  | call _ _ operands => exact operands.plain fun _ _ _ => rfl
  | send _ _ operands => exact operands.plain fun _ _ _ => rfl
  | @shortCircuit kind decided left right conditional _ _ first second =>
    intro code lo hi η seg stop
    have inside := seg.inside
    simp only [Fragment.shortCircuit, List.length_append, List.length_cons, List.length_nil] at stop inside
    have test : landing? (lo + left.length) (.relative (right.length + 2)) code.size =
        some (.index (lo + left.length + 1 + right.length + 1)) := landing?_relative (by omega) (by omega)
    have skip : landing? (lo + left.length + 1 + right.length) (.relative 2) code.size = some (.index hi) :=
      landing?_relative (by omega) (by omega)
    have body := seg.left.right
    have last := seg.right
    rw [List.length_append, List.length_cons, ← Nat.add_assoc, ← Nat.add_assoc, Nat.add_right_comm] at last
    obtain rfl : hi = lo + left.length + 1 + right.length + 1 + 1 := by omega
    have asked : Winds code lo (lo + left.length + 1) η (paces left + 1) ([(lo + left.length + 1, η),
        (lo + left.length + 1 + right.length + 1, η)] ++ raised η) := by
      refine (first η seg.left.left rfl).test body.head conditional test ?_ ?_ <;> simp +contextual
    have either : Winds code lo (lo + left.length + 1 + right.length) η (paces left + 1 + paces right)
        ([(lo + left.length + 1 + right.length, η), (lo + left.length + 1 + right.length + 1, η)] ++ raised η) := by
      refine asked.append (second η body.tail rfl) (.inr rfl) ?_ ?_ <;> simp +contextual
    have skipped : Winds code lo (lo + left.length + 1 + right.length + 1) η (paces left + 1 + paces right + 1)
        ([(lo + left.length + 1 + right.length + 1, η), (lo + left.length + 1 + right.length + 1 + 1, η)] ++
          raised η) := by
      refine either.jump last.head skip ?_ ?_ <;> simp +contextual
    refine (skipped.snoc last.tail.head ?_ ?_).mono ?_
    · simp +contextual
    · simp +contextual [Instruction.leads]
    · simp [Fragment.shortCircuit, Instruction.isStop]
      omega

namespace Progresses

theorem stop (index : Nat) (lines : Lines) : Progresses [.stop index lines] := .single fun _ _ _ => rfl

theorem drop (value : Progresses a) : Progresses (a ++ [.discard]) := value.plain fun _ _ _ => rfl

theorem assign (name : String) (place : Position) (value : Progresses a) :
    Progresses (Fragment.assign name a place) :=
  ((single fun _ _ _ => rfl).append value).plain fun _ _ _ => rfl

/-- What returns is never left at its end. -/
theorem ret (value : Progresses a) : Progresses (a ++ [.branch .always .exit]) := by
  intro code lo hi η seg stop
  obtain rfl : hi = lo + a.length + 1 := by simpa [Nat.add_assoc] using stop
  refine ((value η seg.left rfl).snoc seg.right.head ?_ ?_).mono ?_
  · simp +contextual
  · simp +contextual [Instruction.leads, landing?]
  · simp

theorem skipIf {kind : BranchKind} (conditional : kind ≠ .always) (asks : Progresses condition)
    (inner : Progresses body) : Progresses (Fragment.skipIf kind condition body) := by
  intro code lo hi η seg stop
  have inside := seg.inside
  simp only [Fragment.skipIf, List.length_append, List.length_cons] at stop inside
  have test : landing? (lo + condition.length) (.relative (body.length + 1)) code.size = some (.index hi) :=
    landing?_relative (by omega) (by omega)
  refine (((asks η seg.left rfl).arm seg.right.head conditional test
    (inner η seg.right.tail (by omega))).into ?_).mono ?_
  · simp
  · simp [Fragment.skipIf, Instruction.isStop]
    omega

theorem choose (asks : Progresses condition) (inner : Progresses body) (other : Progresses rest) :
    Progresses (Fragment.choose condition body rest) := by
  intro code lo hi η seg stop
  have inside := seg.inside
  simp only [Fragment.choose, List.length_append, List.length_cons] at stop inside
  have test : landing? (lo + condition.length) (.relative (body.length + 2)) code.size =
      some (.index (lo + condition.length + 1 + body.length + 1)) := landing?_relative (by omega) (by omega)
  have skip : landing? (lo + condition.length + 1 + body.length) (.relative (rest.length + 1)) code.size =
      some (.index hi) := landing?_relative (by omega) (by omega)
  have last := seg.right
  rw [List.length_append, List.length_cons, ← Nat.add_assoc, ← Nat.add_assoc, Nat.add_right_comm] at last
  have chosen := (asks η seg.left.left rfl).arm seg.left.right.head (by simp) test (inner η seg.left.right.tail rfl)
  have skipped : Winds code lo (lo + condition.length + 1 + body.length + 1) η (paces condition + 1 + paces body + 1)
      ([(lo + condition.length + 1 + body.length + 1, η), (hi, η)] ++ raised η) := by
    refine chosen.jump last.head skip ?_ ?_ <;> simp +contextual
  refine (skipped.append (other η last.tail (by omega)) (.inr rfl) ?_ ?_).mono ?_
  · simp +contextual
  · simp +contextual
  · simp [Fragment.choose, Instruction.isStop]
    omega

theorem conditional {rest : Option (List Instruction)} (asks : Progresses condition) (inner : Progresses body)
    (other : ∀ is, rest = some is → Progresses is) : Progresses (Fragment.conditional condition body rest) := by
  cases rest with
  | none => exact .skipIf (by simp) asks inner
  | some rest => exact .choose asks inner (other rest rfl)

theorem guarded (binding : Option String) (inner : Progresses body) (other : Progresses handler) :
    Progresses (Fragment.guarded body binding handler) := by
  intro code lo hi η seg stop
  have inside := seg.inside
  simp only [Fragment.guarded, List.length_append, List.length_cons] at stop inside
  have last := seg.right
  rw [List.length_cons, ← Nat.add_assoc, Nat.add_right_comm] at last
  generalize here : lo + 1 + body.length = p at last
  have enter : landing? lo (.relative (body.length + 3)) code.size = some (.index (p + 1 + 1)) :=
    landing?_relative (by omega) (by omega)
  have skip : landing? (p + 1) (.relative (handler.length + 2)) code.size = some (.index hi) :=
    landing?_relative (by omega) (by omega)
  have opened : Winds code lo (lo + 1) η 1 ([(lo + 1, (p + 1 + 1) :: η), (p + 1 + 1, η)] ++ raised η) :=
    Instruction.leads_enterTry η enter ▸ .single seg.left.head
  have entered : Winds code lo p η (1 + paces body)
      ([(p, (p + 1 + 1) :: η), (p + 1 + 1, η)] ++ raised η) := by
    refine opened.append (inner ((p + 1 + 1) :: η) seg.left.tail here.symm) (.inl (by omega)) ?_ ?_ <;>
      simp +contextual [raised]
  have closed : Winds code lo (p + 1) η (1 + paces body + 1) ([(p + 1, η), (p + 1 + 1, η)] ++ raised η) := by
    refine entered.append (θ := (p + 1 + 1) :: η) (.single last.head) (.inl (by omega)) ?_ ?_ <;>
      simp +contextual [raised, Instruction.leads]
  have skipped : Winds code lo (p + 1 + 1) η (1 + paces body + 1 + 1) ([(hi, η), (p + 1 + 1, η)] ++ raised η) := by
    refine closed.jump last.tail.head skip ?_ ?_ <;> simp +contextual
  have caught : Winds code lo (p + 1 + 1 + 1) η (1 + paces body + 1 + 1 + 1)
      ([(hi, η), (p + 1 + 1 + 1, η)] ++ raised η) := by
    refine skipped.snoc last.tail.tail.head ?_ ?_ <;> simp +contextual [Instruction.leads]
  refine (caught.append (other η last.tail.tail.tail (by omega)) (.inr rfl) ?_ ?_).mono ?_
  · simp +contextual
  · simp +contextual
  · simp [Fragment.guarded, Instruction.isStop]
    omega

/-- A loop whose body comes to a marker. -/
theorem whileLoop (asks : Progresses condition) (before : Progresses a) (marked : BeginsMarked b)
    (inner : Progresses b) : Progresses (Fragment.whileLoop condition (a ++ b)) := by
  intro code lo hi η seg stop
  have inside := seg.inside
  simp only [Fragment.whileLoop, List.length_append, List.length_cons, List.length_nil] at stop inside
  obtain rfl : hi = lo + condition.length + 1 + a.length + b.length + 1 := by omega
  have test : landing? (lo + condition.length) (.relative ((a ++ b).length + 2)) code.size =
      some (.index (lo + condition.length + 1 + a.length + b.length + 1)) :=
    landing?_relative (by simp; omega) (by omega)
  have back : landing? (lo + condition.length + 1 + a.length + b.length)
      (.relative (-(condition.length + 1 + (a ++ b).length))) code.size = some (.index lo) :=
    landing?_relative (by simp; omega) (by omega)
  have last : Segment code (lo + condition.length + 1 + a.length + b.length) _ :=
    seg.right.cast (by simp; omega)
  have bodies := seg.left.right.tail
  have entered := (asks η seg.left.left rfl).arm seg.left.right.head (by simp) test (before η bodies.left rfl)
  have returned : Winds code (lo + condition.length + 1 + a.length)
      (lo + condition.length + 1 + a.length + b.length + 1) η (paces b + 1) ((lo, η) :: raised η) := by
    refine (inner η bodies.right rfl).jump last.head back ?_ ?_ <;> simp +contextual
  refine (entered.loop returned (marked.marked bodies.right) (by omega) ?_ ?_).mono ?_
  · simp +contextual
  · simp +contextual
  · simp [Fragment.whileLoop, Instruction.isStop]
    omega

/-- A loop leads back to its entry. -/
theorem rounds {code : Array Instruction} {lo hi : Nat} (asks : Progresses condition) (inner : Progresses body)
    (η : List Nat) (seg : Segment code lo (Fragment.whileLoop condition body))
    (stop : hi = lo + (Fragment.whileLoop condition body).length) :
    ∃ n, Winds code lo hi η n ([(lo, η), (hi, η)] ++ raised η) := by
  have inside := seg.inside
  simp only [Fragment.whileLoop, List.length_append, List.length_cons, List.length_nil] at stop inside
  have test : landing? (lo + condition.length) (.relative (body.length + 2)) code.size = some (.index hi) :=
    landing?_relative (by omega) (by omega)
  have back : landing? (lo + condition.length + 1 + body.length) (.relative (-(condition.length + 1 + body.length)))
      code.size = some (.index lo) := landing?_relative (by omega) (by omega)
  have last := seg.right
  rw [List.length_append, List.length_cons, ← Nat.add_assoc, ← Nat.add_assoc, Nat.add_right_comm] at last
  obtain rfl : hi = lo + condition.length + 1 + body.length + 1 := by omega
  have entered := (asks η seg.left.left rfl).arm seg.left.right.head (by simp) test (inner η seg.left.right.tail rfl)
  refine ⟨_, entered.jump last.head back ?_ ?_⟩ <;> simp +contextual

/-- A loop without statements. -/
theorem idle (asks : Progresses condition) (inner : Progresses body)
    (loops : IdleLoop (Fragment.whileLoop condition body)) : Progresses (Fragment.whileLoop condition body) := by
  rintro code lo hi η seg rfl
  obtain ⟨n, winds⟩ := rounds asks inner η seg rfl
  have solid : 0 < (Fragment.whileLoop condition body).length := by
    simp only [Fragment.whileLoop, List.length_append, List.length_cons]
    omega
  refine (winds.idle ⟨_, loops, seg, rfl⟩ (by omega) ?_).mono ?_
  · simp +contextual
  · simp [Fragment.whileLoop, Instruction.isStop]
    omega

end Progresses

variable {o : LoweringOptions}

section

variable (on : o.breakpoints = true)
include on

theorem LoweringOptions.emitMark_eq (ν : Numbering) (lines : Lines) :
    o.emitMark ν lines = [.stop ν.markers lines] := if_pos on

theorem Stmt.beginsMarked (ν : Numbering) (s : Stmt) : BeginsMarked (s.emit o ν) := by
  cases s <;> simp only [Stmt.emit, o.emitMark_eq on] <;> exact ⟨_, _, _, rfl⟩

/-- The code of a block is empty only if the block is. -/
theorem beginsMarked_emitBlock (ν : Numbering) {body : List Stmt} (some : body ≠ []) :
    BeginsMarked (emitBlock o ν body) := by
  cases body with
  | nil => exact absurd rfl some
  | cons s rest =>
    obtain ⟨index, lines, more, same⟩ := s.beginsMarked on ν
    exact ⟨index, lines, more ++ emitBlock o (s.after ν) rest, by rw [emitBlock, same, List.cons_append]⟩

theorem Progresses.whileStmt (ν : Numbering) {condition : Expr} {body : List Stmt}
    (asks : Progresses condition.emit) (inner : Progresses (emitBlock o ν body)) :
    Progresses (Fragment.whileLoop condition.emit (emitBlock o ν body)) := by
  by_cases none : body = []
  · subst none
    exact .idle asks inner (.whileLoop condition)
  · have looped : Progresses (Fragment.whileLoop condition.emit ([] ++ emitBlock o ν body)) :=
      .whileLoop asks .nil (beginsMarked_emitBlock on ν none) inner
    exact looped

/-- A loop over elements is three assignments before an index loop. What leads to the next element stands behind
the statements, and what binds an element before them. -/
theorem Progresses.forStmt (ν : Numbering) (n : Nat) (place : Position) (name : String) (namePlace : Position)
    {items : List Instruction} {body : List Stmt} (container : Progresses items)
    (inner : Progresses (emitBlock o ν body)) :
    Progresses (Fragment.forLoop n place name namePlace items (emitBlock o ν body)) := by
  have load (role : String) : Progresses [.load (hiddenName role n) place] := .single fun _ _ _ => rfl
  have number (x : Float) : Progresses [.value (.number x)] := .single fun _ _ _ => rfl
  have size : Progresses [.load (hiddenName "len" n) place, .value (.number 0), .send (.positional "__eq__" 1 place)] :=
    ((load "len").append (number 0)).plain fun _ _ _ => rfl
  have below : Progresses [.load (hiddenName "idx" n) place, .load (hiddenName "len" n) place,
      .send (.positional "__lt__" 1 place)] := ((load "idx").append (load "len")).plain fun _ _ _ => rfl
  have element : Progresses (Fragment.assign name [.load (hiddenName "iter" n) place, .load (hiddenName "idx" n) place,
      .send (.positional "__index__" 1 place)] namePlace) :=
    .assign _ _ (((load "iter").append (load "idx")).plain fun _ _ _ => rfl)
  have advance : Progresses (Fragment.assign (hiddenName "idx" n) [.load (hiddenName "idx" n) place,
      .value (.number 1), .send (.positional "__add__" 1 place)] place) :=
    .assign _ _ (((load "idx").append (number 1)).plain fun _ _ _ => rfl)
  refine ((Progresses.assign _ _ container).append (.assign _ _ ((load "iter").plain fun _ _ _ => rfl)))
    |>.append (.assign _ _ (number 0)) |>.append (.skipIf (by simp) size ?_)
  by_cases none : body = []
  · subst none
    exact .idle below ((element.append inner).append advance) (.forLoop n place name namePlace)
  · rw [List.append_assoc]
    refine .whileLoop below element ?_ (inner.append advance)
    obtain ⟨index, lines, rest, same⟩ := beginsMarked_emitBlock on ν none
    exact ⟨index, lines, _, by rw [same, List.cons_append]⟩

theorem LoweringOptions.progresses_emitMark (ν : Numbering) (lines : Lines) : Progresses (o.emitMark ν lines) :=
  o.emitMark_eq on ν lines ▸ .stop _ _

end

theorem Target.progresses (t : Target) {value : List Instruction} (place : Position)
    (known : Admits o.program C t.calls) (values : Progresses value) : Progresses (t.emit value place) := by
  cases t with
  | «variable» name here => exact .assign name place values
  | member receiver name here =>
    have named := (receiver.pushes known).progresses.plain (i := .value (.string name)) fun _ _ _ => rfl
    have operands := named.append values
    have whole := (operands.plain (i := .send (.positional "setMember" 2 here)) fun _ _ _ => rfl).drop
    simpa [Target.emit] using whole
  | index receiver key here =>
    have operands := ((receiver.pushes known.left).progresses.append (key.pushes known.right).progresses).append values
    have whole := (operands.plain (i := .send (.positional "__setitem__" 2 here)) fun _ _ _ => rfl).drop
    simpa [Target.emit] using whole

mutual

theorem Stmt.progresses (on : o.breakpoints = true) (ν : Numbering) (s : Stmt) (known : Admits o.program C s.calls) :
    Progresses (s.emit o ν) := by
  cases s with
  | eval lines value => exact (o.progresses_emitMark on ν lines).append (value.pushes known).progresses.drop
  | assign lines target value place =>
    exact (o.progresses_emitMark on ν lines).append
      (target.progresses place known.left (value.pushes known.right).progresses)
  | ret lines value =>
    refine (o.progresses_emitMark on ν lines).append (.ret ?_)
    cases value with
    | none => exact .single fun _ _ _ => rfl
    | some value => exact (value.pushes known).progresses
  | branch line condition body otherwise =>
    exact (o.progresses_emitMark on ν _).append (.conditional (condition.pushes known.left.left).progresses
      (blockProgresses on ν.mark body known.left.right) (otherwise.progresses on _ known.right))
  | whileLoop line condition body =>
    exact (o.progresses_emitMark on ν _).append
      (.whileStmt on ν.mark (condition.pushes known.left).progresses (blockProgresses on ν.mark body known.right))
  | forLoop place name namePlace items body =>
    exact (o.progresses_emitMark on ν _).append (.forStmt on ν.mark.loop _ _ _ _ (items.pushes known.left).progresses
      (blockProgresses on ν.mark.loop body known.right))
  | guarded line body binding handler =>
    exact (o.progresses_emitMark on ν _).append
      (.guarded binding (blockProgresses on ν.mark body known.left) (blockProgresses on _ handler known.right))
  | define place name params body =>
    exact (o.progresses_emitMark on ν _).append (.assign _ _ (.single fun _ _ _ => rfl))

theorem blockProgresses (on : o.breakpoints = true) (ν : Numbering) (body : List Stmt)
    (known : Admits o.program C (blockCalls body)) :
    Progresses (emitBlock o ν body) := by
  cases body with
  | nil => exact .nil
  | cons s rest => exact (s.progresses on ν known.left).append (blockProgresses on _ rest known.right)

theorem Otherwise.progresses (on : o.breakpoints = true) (ν : Numbering) (otherwise : Otherwise)
    (known : Admits o.program C otherwise.calls) :
    ∀ is, otherwise.emit o ν = some is → Progresses is := by
  cases otherwise with
  | nothing => simp [Otherwise.emit]
  | block body =>
    rintro is ⟨⟩
    exact blockProgresses on ν body known
  | branch condition body otherwise =>
    rintro is ⟨⟩
    exact .conditional (condition.pushes known.left.left).progresses (blockProgresses on ν body known.left.right)
      (otherwise.progresses on _ known.right)

end

theorem Piece.progresses (on : o.breakpoints = true) (p : Piece) {calls : List SpelledCall}
    (known : Admits o.program C calls) (within : p.Within o.program calls) : Progresses (p.emit o) := by
  have own := known.mono within.spells
  cases p with
  | block ν body => exact blockProgresses on ν body own
  | field ν owner lines name place value =>
    have operands : Progresses ([.value (.classRef owner), .value (.string name)] ++ value.emit) :=
      ((Progresses.single fun _ _ _ => rfl).append (.single fun _ _ _ => rfl)).append (value.pushes own).progresses
    have whole := (o.progresses_emitMark on ν lines).append
      (operands.plain (i := .send (.positional "setMember" 2 place)) fun _ _ _ => rfl).drop
    simpa [Piece.emit] using whole

/-- The code of a piece is empty or begins with a marker. -/
theorem Piece.beginsMarked (on : o.breakpoints = true) (p : Piece) : p.emit o = [] ∨ BeginsMarked (p.emit o) := by
  cases p with
  | block ν body =>
    by_cases none : body = []
    · subst none
      exact .inl rfl
    · exact .inr (beginsMarked_emitBlock on ν none)
  | field ν owner lines name place value =>
    rw [Piece.emit, o.emitMark_eq on]
    exact .inr ⟨_, _, _, rfl⟩

/-- The code of a definition progresses, and is empty or begins with a marker. -/
theorem Definition.progresses (on : o.breakpoints = true) (d : Definition) {calls : List SpelledCall}
    (known : Admits o.program C calls)
    (within : d.Within o.program calls) :
    Progresses (emitPieces o d.body) ∧ (emitPieces o d.body = [] ∨ BeginsMarked (emitPieces o d.body)) := by
  have pieces := within.body
  unfold emitPieces
  generalize d.body = body at pieces
  induction body with
  | nil => exact ⟨.nil, .inl rfl⟩
  | cons piece rest ih =>
    obtain ⟨first, others⟩ := List.forall_mem_cons.mp pieces
    obtain ⟨progresses, begins⟩ := ih others
    rw [List.flatMap_cons]
    refine ⟨(piece.progresses on known first).append progresses, ?_⟩
    rcases piece.beginsMarked on with empty | ⟨index, lines, more, same⟩
    · rwa [empty, List.nil_append]
    · exact .inr ⟨index, lines, _, by rw [same, List.cons_append]⟩

end ScriptEngine
