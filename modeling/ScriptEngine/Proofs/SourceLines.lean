import ScriptEngine.Proofs.Fillers
import ScriptEngine.Proofs.Occurrences
import Mathlib.Data.List.GetD

/-! # Lines of a source text

The lexer counts lines while it passes characters, and the report of an error cuts the text twice, at line feeds
and then at carriage returns. Both find the same lines, but for one: the report knows no line after a carriage
return at the end of the text. That line is empty, as a line that does not exist is shown, so no report differs.
-/

namespace ScriptEngine

theorem splitLines_inLine {c : Char} (inLine : isLineBreak c = false) (cs : List Char) :
    splitLines (c :: cs) = (splitLines cs).modifyHead (c :: ·) := by
  have other : c ≠ '\r' := by rintro rfl; contradiction
  rw [splitLines]
  · rw [if_neg (by simp [inLine])]
    cases split : splitLines cs with
    | nil => exact absurd split (splitLines_ne_nil cs)
    | cons line lines => rfl
  · exact fun _ same _ => other same

theorem splitLines_break {c : Char} {cs : List Char} (ends : isLineBreak c = true)
    (alone : c = '\r' → cs.head? ≠ some '\n') : splitLines (c :: cs) = [] :: splitLines cs := by
  rw [splitLines]
  · rw [if_pos ends]
  · rintro rest rfl rfl
    exact alone rfl rfl

/-- The first line of a text goes up to its first line break. -/
theorem getD_splitLines_zero (cs : List Char) :
    (splitLines cs).getD 0 [] = cs.takeWhile fun c => !isLineBreak c := by
  fun_induction splitLines cs with
  | case1 => rfl
  | case2 => rfl
  | case3 c cs _ ends => simp [ends]
  | case4 c cs _ inLine line lines split ih =>
    rw [split] at ih
    simp_all
  | case5 c cs _ _ split => exact absurd split (splitLines_ne_nil cs)

/-- Where a text is parted, but not within a line break, the last line of the first part goes on as the first line
of the second one. -/
theorem splitLines_append {before rest : List Char}
    (whole : before.getLast? = some '\r' → rest.head? ≠ some '\n') :
    splitLines (before ++ rest) = (splitLines before).dropLast ++
      (splitLines rest).modifyHead ((splitLines before).getLastD [] ++ ·) := by
  -- An empty line before the lines of a text is neither the last one nor part of it.
  have skip (cs : List Char) : ([] :: splitLines cs).dropLast = [] :: (splitLines cs).dropLast ∧
      ([] :: splitLines cs).getLastD [] = (splitLines cs).getLastD [] := by
    obtain ⟨line, lines, split⟩ := List.exists_cons_of_ne_nil (splitLines_ne_nil cs)
    simp [split]
  fun_induction splitLines before with
  | case1 => cases split : splitLines rest <;> simp [split]
  | case2 cs ih =>
    have more := ih fun last => whole (by cases cs <;> simp_all)
    rw [(skip cs).1, (skip cs).2, List.cons_append, List.cons_append, List.cons_append, ← more]
    rfl
  | case3 c cs notPair isBreak ih =>
    have more := ih fun last => whole (by cases cs <;> simp_all)
    have alone : c = '\r' → (cs ++ rest).head? ≠ some '\n' := by
      rintro rfl
      cases cs with
      | nil => exact whole rfl
      | cons d cs => simpa using fun same => notPair cs rfl (by rw [same])
    rw [(skip cs).1, (skip cs).2, List.cons_append, List.cons_append, ← more]
    exact splitLines_break isBreak alone
  | case4 c cs _ inLine line lines split ih =>
    have more := ih fun last => whole (by cases cs <;> simp_all)
    rw [List.cons_append, splitLines_inLine (by simpa using inLine), more, split]
    cases lines with
    | nil => cases splitLines rest <;> rfl
    | cons => rfl
  | case5 c cs _ _ split => exact absurd split (splitLines_ne_nil cs)

/-- The line on which a text is parted: it ends the first part and begins the second one. -/
theorem getD_splitLines_append {before rest : List Char}
    (whole : before.getLast? = some '\r' → rest.head? ≠ some '\n') :
    (splitLines (before ++ rest)).getD ((splitLines before).length - 1) [] =
      (splitLines before).getLastD [] ++ rest.takeWhile fun c => !isLineBreak c := by
  rw [splitLines_append whole, List.getD_append_right _ _ _ _ (by simp), List.length_dropLast, Nat.sub_self,
    ← getD_splitLines_zero]
  obtain ⟨line, lines, split⟩ := List.exists_cons_of_ne_nil (splitLines_ne_nil rest)
  simp [split]

/-- Characters on one line are the whole of their lines. -/
theorem splitLines_of_inLine {text : List Char} (inLine : ∀ c ∈ text, isLineBreak c = false) :
    splitLines text = [text] := by
  induction text with
  | nil => rfl
  | cons c text ih =>
    obtain ⟨head, tail⟩ := List.forall_mem_cons.mp inLine
    rw [splitLines_inLine head, ih tail]
    rfl

/-- A text goes on along its last line. -/
theorem splitLines_append_inLine (before : List Char) {text : List Char}
    (inLine : ∀ c ∈ text, isLineBreak c = false) :
    splitLines (before ++ text) = (splitLines before).dropLast ++ [(splitLines before).getLastD [] ++ text] := by
  rw [splitLines_append, splitLines_of_inLine inLine]
  · rfl
  · intro _ feed
    have := inLine '\n' (List.mem_of_mem_head? feed)
    contradiction

theorem Position.past_append_inLine (before : List Char) {text : List Char}
    (inLine : ∀ c ∈ text, isLineBreak c = false) : past (before ++ text) = (past before).right text.length := by
  have some := List.length_pos_iff.mpr (splitLines_ne_nil before)
  simp only [past, right, splitLines_append_inLine before inLine, List.length_append, List.length_dropLast,
    List.length_singleton, List.getLastD_concat]
  congr 1 <;> omega

/-- The characters of a text that stand on a line, without its line break, if the text begins at a place. -/
def Position.charactersOn (line : Nat) (p : Position) : List Char → List Char
  | [] => []
  | c :: rest =>
    let more := (p.after c rest).charactersOn line rest
    if p.line = line ∧ isLineBreak c = false then c :: more else more

namespace Position

theorem after_line (p : Position) (c : Char) (rest : List Char) : p.line ≤ (p.after c rest).line := by
  unfold after
  split
  · exact Nat.le_succ _
  · exact Nat.le_refl _

/-- A line that was passed has no more characters. -/
theorem charactersOn_of_lt {line : Nat} {p : Position} (passed : line < p.line) (cs : List Char) :
    p.charactersOn line cs = [] := by
  induction cs generalizing p with
  | nil => rfl
  | cons c cs ih =>
    have other : ¬(p.line = line ∧ isLineBreak c = false) := fun ⟨same, _⟩ => Nat.ne_of_lt passed same.symm
    rw [charactersOn, if_neg other]
    exact ih (Nat.lt_of_lt_of_le passed (p.after_line c cs))

/-- The lexer finds the lines of a text. -/
theorem charactersOn_eq {line : Nat} {p : Position} (ahead : p.line ≤ line) (cs : List Char) :
    p.charactersOn line cs = (splitLines cs).getD (line - p.line) [] := by
  -- After a line break either the line is passed, or it is among the lines that follow.
  have below (p : Position) (ahead : p.line ≤ line) (cs : List Char)
      (ih : p.line + 1 ≤ line → (ofLine (p.line + 1)).charactersOn line cs =
        (splitLines cs).getD (line - (p.line + 1)) []) :
      (ofLine (p.line + 1)).charactersOn line cs = ([] :: splitLines cs).getD (line - p.line) [] := by
    rcases Nat.eq_or_lt_of_le ahead with rfl | more
    · rw [charactersOn_of_lt (Nat.lt_succ_self _), Nat.sub_self]
      rfl
    · have next : line - p.line = line - (p.line + 1) + 1 := by omega
      rw [ih more, next]
      rfl
  fun_induction splitLines cs generalizing p with
  | case1 => simp [charactersOn]
  | case2 cs ih =>
    have passes : p.charactersOn line ('\r' :: '\n' :: cs) = (ofLine (p.line + 1)).charactersOn line cs := by
      simp [charactersOn, after, isLineBreak, right, ofLine]
    rw [passes]
    exact below p ahead cs fun more => ih more
  | case3 c cs notPair isBreak ih =>
    have alone : c = '\r' → cs.head? ≠ some '\n' := by
      rintro rfl
      cases cs with
      | nil => simp
      | cons d cs => simpa using fun same => notPair cs rfl (by rw [same])
    rw [charactersOn, if_neg (by simp [isBreak]), after_of_break isBreak alone]
    exact below p ahead cs fun more => ih more
  | case4 c cs _ inLine first lines split ih =>
    have more := ih (p := p.right 1) ahead
    have inLine : isLineBreak c = false := by simpa using inLine
    rw [charactersOn, after_of_inLine inLine, more, split]
    rcases Nat.eq_or_lt_of_le ahead with rfl | ahead
    · simp [inLine, right]
    · obtain ⟨n, next⟩ : ∃ n, line - p.line = n + 1 := ⟨line - p.line - 1, by omega⟩
      rw [if_neg fun here => Nat.ne_of_lt ahead here.1, right, next]
      rfl
  | case5 c cs _ _ split => exact absurd split (splitLines_ne_nil cs)

theorem charactersOn_inLine (line : Nat) (p : Position) (cs : List Char) :
    ∀ c ∈ p.charactersOn line cs, isLineBreak c = false := by
  induction cs generalizing p with
  | nil => exact List.forall_mem_nil _
  | cons c cs ih =>
    rw [charactersOn]
    split
    · next here => exact List.forall_mem_cons.mpr ⟨here.2, ih _⟩
    · exact ih _

/-- The line of a place in a text: what stands before the place on it, and what stands after. -/
theorem charactersOn_past {before rest : List Char}
    (whole : before.getLast? = some '\r' → rest.head? ≠ some '\n') :
    start.charactersOn (past before).line (before ++ rest) =
      (splitLines before).getLastD [] ++ rest.takeWhile fun c => !isLineBreak c := by
  rw [charactersOn_eq (List.length_pos_iff.mpr (splitLines_ne_nil before)), ← getD_splitLines_append whole]
  rfl

end Position

namespace Text

theorem splitOn_cons_self (d : Char) (cs : List Char) : splitOn [d] (d :: cs) = [] :: splitOn [d] cs :=
  splitOn_append (List.cons_ne_nil d []) cs

theorem splitOn_cons_of_ne {c d : Char} (other : c ≠ d) (cs : List Char) :
    splitOn [d] (c :: cs) = (splitOn [d] cs).modifyHead (c :: ·) :=
  splitOn_cons fun begins => other (List.cons_prefix_cons.mp begins).1.symm

theorem splitOn_ne_nil (d : Char) (cs : List Char) : splitOn [d] cs ≠ [] :=
  (splitOn_parted (List.cons_ne_nil d []) cs).ne_nil

end Text

theorem stripReturn_cons {c : Char} {cs : List Char} (more : c = '\r' → cs ≠ []) :
    stripReturn (c :: cs) = c :: stripReturn cs := by
  unfold stripReturn
  cases cs with
  | nil =>
    have other : c ≠ '\r' := fun same => more same rfl
    simp [other]
  | cons d cs =>
    rw [List.getLast?_cons_cons]
    split <;> rfl

theorem cutLines_ne_nil (cs : List Char) : cutLines cs ≠ [] := by
  obtain ⟨piece, pieces, split⟩ := List.exists_cons_of_ne_nil (Text.splitOn_ne_nil '\n' cs)
  simp [cutLines, split, Text.splitOn_ne_nil]

theorem cutLines_feed (cs : List Char) : cutLines ('\n' :: cs) = [] :: cutLines cs := by
  rw [cutLines, Text.splitOn_cons_self]
  rfl

theorem cutLines_pair (cs : List Char) : cutLines ('\r' :: '\n' :: cs) = [] :: cutLines cs := by
  rw [cutLines, Text.splitOn_cons_of_ne (by decide), Text.splitOn_cons_self]
  rfl

theorem cutLines_inLine {c : Char} (inLine : isLineBreak c = false) (cs : List Char) :
    cutLines (c :: cs) = (cutLines cs).modifyHead (c :: ·) := by
  simp only [isLineBreak, Bool.or_eq_false_iff, beq_eq_false_iff_ne] at inLine
  obtain ⟨piece, pieces, split⟩ := List.exists_cons_of_ne_nil (Text.splitOn_ne_nil '\n' cs)
  obtain ⟨line, lines, split'⟩ := List.exists_cons_of_ne_nil (Text.splitOn_ne_nil '\r' (stripReturn piece))
  have kept : stripReturn (c :: piece) = c :: stripReturn piece := stripReturn_cons fun same => absurd same inLine.2
  simp [cutLines, Text.splitOn_cons_of_ne inLine.1, split, kept, Text.splitOn_cons_of_ne inLine.2, split']

theorem cutLines_return {c : Char} (other : c ≠ '\n') (cs : List Char) :
    cutLines ('\r' :: c :: cs) = [] :: cutLines (c :: cs) := by
  obtain ⟨piece, pieces, split⟩ := List.exists_cons_of_ne_nil (Text.splitOn_ne_nil '\n' cs)
  have kept : stripReturn ('\r' :: c :: piece) = '\r' :: stripReturn (c :: piece) := stripReturn_cons fun _ => nofun
  rw [cutLines, Text.splitOn_cons_of_ne (by decide), cutLines, Text.splitOn_cons_of_ne other, split]
  simp [kept, Text.splitOn_cons_self]

/-- The report of an error finds the lines of a text. -/
theorem getD_cutLines (cs : List Char) (n : Nat) : (cutLines cs).getD n [] = (splitLines cs).getD n [] := by
  have skip (n : Nat) {xs ys : List (List Char)} (same : ∀ n, xs.getD n [] = ys.getD n []) :
      ([] :: xs).getD n [] = ([] :: ys).getD n [] := by
    cases n with
    | zero => rfl
    | succ n => exact same n
  fun_induction splitLines cs generalizing n with
  | case1 => rfl
  | case2 cs ih =>
    rw [cutLines_pair]
    exact skip n ih
  | case3 c cs notPair isBreak ih =>
    simp only [isLineBreak, Bool.or_eq_true, beq_iff_eq] at isBreak
    rcases isBreak with rfl | rfl
    · rw [cutLines_feed]
      exact skip n ih
    · cases cs with
      | nil => rcases n with _ | _ | n <;> rfl
      | cons d cs =>
        have other : d ≠ '\n' := fun same => notPair cs rfl (by rw [same])
        rw [cutLines_return other]
        exact skip n ih
  | case4 c cs _ inLine line lines split ih =>
    obtain ⟨first, more, cut⟩ := List.exists_cons_of_ne_nil (cutLines_ne_nil cs)
    rw [split, cut] at ih
    rw [cutLines_inLine (by simpa using inLine), cut]
    cases n with
    | zero => exact congrArg (c :: ·) (ih 0)
    | succ n => exact ih (n + 1)
  | case5 c cs _ _ split => exact absurd split (splitLines_ne_nil cs)

end ScriptEngine
