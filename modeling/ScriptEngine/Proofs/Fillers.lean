import ScriptEngine.Token.Lexer
import Mathlib.Data.List.Basic

/-! # What stands between tokens

The layout of a source text: blanks, line comments and block comments, one after the other. Skipping stops
exactly after such a stretch, and the place it arrives at is the one that the lines of the skipped text give.
-/

namespace ScriptEngine

/-- The lines of a text without their line breaks. -/
def splitLines : List Char → List (List Char)
  | [] => [[]]
  | '\r' :: '\n' :: rest => [] :: splitLines rest
  | c :: rest =>
    if isLineBreak c then [] :: splitLines rest
    else match splitLines rest with
      | line :: lines => (c :: line) :: lines
      | [] => [[c]]

namespace Position

/-- The place after `before` at the start of a text: the last of its lines, and the column past it. -/
def past (before : List Char) : Position :=
  ⟨(splitLines before).length, ((splitLines before).getLastD []).length + 1⟩

/-- The place of an offset in a text. -/
def ofOffset (source : List Char) (n : Nat) : Position := past (source.take n)

/-- The place reached by passing the characters of a text one at a time, with `rest` after them. -/
def walk (p : Position) : List Char → List Char → Position
  | [], _ => p
  | c :: cs, rest => (p.after c (cs ++ rest)).walk cs rest

/-- The place past some lines that begin at `p`. -/
def below (p : Position) : List (List Char) → Position
  | [] => p
  | [line] => p.right line.length
  | _ :: lines => below (.ofLine (p.line + 1)) lines

theorem ofOffset_append (before rest : List Char) :
    ofOffset (before ++ rest) before.length = past before := by
  rw [ofOffset, List.take_left]

theorem right_right (p : Position) (m n : Nat) : (p.right m).right n = p.right (m + n) := by
  simp only [right, Nat.add_assoc]

theorem walk_append (p : Position) (xs ys rest : List Char) :
    p.walk (xs ++ ys) rest = (p.walk xs (ys ++ rest)).walk ys rest := by
  induction xs generalizing p with
  | nil => rfl
  | cons c xs ih => simp only [List.cons_append, walk, List.append_assoc, ih]

theorem after_of_inLine {c : Char} (inLine : isLineBreak c = false) (p : Position)
    (rest : List Char) : p.after c rest = p.right 1 := by
  simp only [isLineBreak, Bool.or_eq_false_iff, beq_eq_false_iff_ne] at inLine
  simp [after, inLine]

/-- The place after a line break is the start of the next line. -/
theorem after_of_break {c : Char} {rest : List Char} (ends : isLineBreak c = true)
    (alone : c = '\r' → rest.head? ≠ some '\n') (p : Position) : p.after c rest = .ofLine (p.line + 1) := by
  simp only [isLineBreak, Bool.or_eq_true, beq_iff_eq] at ends
  exact if_pos (ends.imp_right fun same => ⟨same, alone same⟩)

/-- Along a line the column counts the characters. -/
theorem walk_of_inLine {cs : List Char} (inLine : ∀ c ∈ cs, isLineBreak c = false) (p : Position)
    (rest : List Char) : p.walk cs rest = p.right cs.length := by
  induction cs generalizing p with
  | nil => rfl
  | cons c cs ih =>
    obtain ⟨head, tail⟩ := List.forall_mem_cons.mp inLine
    rw [walk, after_of_inLine head, ih tail, right_right, List.length_cons, Nat.add_comm]

/-- Two characters of one line are two columns. -/
theorem walk_two {c d : Char} (first : isLineBreak c = false) (second : isLineBreak d = false)
    (p : Position) (cs rest : List Char) :
    p.walk (c :: d :: cs) rest = (p.right 2).walk cs rest := by
  rw [walk, walk, after_of_inLine first, after_of_inLine second, right_right]

theorem below_cons (p : Position) (c : Char) (line : List Char) (lines : List (List Char)) :
    p.below ((c :: line) :: lines) = (p.right 1).below (line :: lines) := by
  cases lines with
  | nil => simp only [below, List.length_cons, right_right, Nat.add_comm]
  | cons => rfl

theorem below_nil_cons (p : Position) {lines : List (List Char)} (some : lines ≠ []) :
    p.below ([] :: lines) = below (.ofLine (p.line + 1)) lines := by
  cases lines with
  | nil => contradiction
  | cons => rfl

/-- The last of some lines is where they end. -/
theorem below_ofLine (n : Nat) {lines : List (List Char)} (some : lines ≠ []) :
    below (.ofLine n) lines = ⟨n + lines.length - 1, (lines.getLastD []).length + 1⟩ := by
  induction lines generalizing n with
  | nil => contradiction
  | cons line lines ih =>
    cases lines with
    | nil => simp [below, ofLine, right, Nat.add_comm]
    | cons next lines =>
      have ends := ih (n + 1) nofun
      simp only [List.length_cons, List.getLastD_cons] at ends ⊢
      change below (.ofLine (n + 1)) (next :: lines) = _
      rw [ends]
      congr 1
      omega

end Position

theorem splitLines_ne_nil (cs : List Char) : splitLines cs ≠ [] := by
  fun_induction splitLines cs <;> simp_all

namespace Position

/-- Where `rest` does not continue a line break that `before` begins, the lines of `before` give the place
reached by passing it. -/
theorem walk_eq_below (p : Position) (before rest : List Char)
    (whole : before.getLast? = some '\r' → rest.head? ≠ some '\n') :
    p.walk before rest = p.below (splitLines before) := by
  fun_induction splitLines before generalizing p with
  | case1 => rfl
  | case2 cs ih =>
    rw [below_nil_cons p (splitLines_ne_nil cs), ← ih]
    · simp [walk, after, ofLine, right]
    · intro last
      exact whole (by cases cs <;> simp_all)
  | case3 c cs notPair isBreak ih =>
    have alone : c = '\r' → (cs ++ rest).head? ≠ some '\n' := by
      rintro rfl
      cases cs with
      | nil => exact whole rfl
      | cons d cs => simpa using fun same => notPair cs rfl (by rw [same])
    rw [below_nil_cons p (splitLines_ne_nil cs), walk, after_of_break isBreak alone, ih]
    intro last
    exact whole (by cases cs <;> simp_all)
  | case4 c cs _ inLine line lines split ih =>
    rw [below_cons, ← split, walk, after_of_inLine (by simpa using inLine), ih]
    intro last
    exact whole (by cases cs <;> simp_all)
  | case5 c cs _ _ split => exact absurd split (splitLines_ne_nil cs)

/-- At a character that is no blank, the place reached is the one that the text before it gives. -/
theorem walk_start {before rest : List Char} (settled : rest.head? ≠ some '\n') :
    start.walk before rest = past before := by
  rw [walk_eq_below _ _ _ fun _ => settled, show start = .ofLine 1 from rfl,
    below_ofLine 1 (splitLines_ne_nil before), past, Nat.add_sub_cancel_left]

end Position

/-- Blanks and complete comments. A line comment includes its line break; only the `last` filler of a text
may end in a line comment without one. -/
inductive Filler (last : Bool) : List Char → Prop where
  | nil : Filler last []
  | blank {c : Char} {filler : List Char} (blank : Text.isBlank c = true) (more : Filler last filler) :
      Filler last (c :: filler)
  | lineComment {body filler : List Char} {c : Char} (inLine : ∀ b ∈ body, isLineBreak b = false)
      (ends : isLineBreak c = true) (more : Filler last filler) :
      Filler last ('/' :: '/' :: (body ++ c :: filler))
  | blockComment {body filler : List Char} (unclosed : ¬ ['*', '/'] <:+: body)
      (more : Filler last filler) : Filler last ('/' :: '*' :: (body ++ '*' :: '/' :: filler))
  | unended {body : List Char} (isLast : last = true) (inLine : ∀ b ∈ body, isLineBreak b = false) :
      Filler last ('/' :: '/' :: body)

namespace Lexer

/-- What completes a filler of which a part was skipped already. -/
def Gap.Completed (last : Bool) : Gap → List Char → Prop
  | .blank, cs => Filler last cs
  | .lineComment, cs =>
    (∃ body c filler, cs = body ++ c :: filler ∧ (∀ b ∈ body, isLineBreak b = false) ∧
      isLineBreak c = true ∧ Filler last filler) ∨
    (last = true ∧ ∀ b ∈ cs, isLineBreak b = false)
  | .blockComment _, cs =>
    ∃ body filler, cs = body ++ '*' :: '/' :: filler ∧ ¬ ['*', '/'] <:+: body ∧ Filler last filler

/-- No filler goes on with this text: it is at its end, or at a character that is no blank and opens no
comment. -/
def Stops (cs : List Char) : Prop :=
  (∀ c ∈ cs.head?, Text.isBlank c = false) ∧ ¬ ['/', '/'] <+: cs ∧ ¬ ['/', '*'] <+: cs

theorem not_opens_pair {a b c : Char} {cs : List Char}
    (other : ∀ more, c = a → cs = b :: more → False) : ¬ [a, b] <+: c :: cs := by
  rintro ⟨more, same⟩
  obtain ⟨rfl, rfl⟩ := List.cons.inj same
  exact other more rfl rfl

namespace Gap.Completed

variable {last : Bool} {cs : List Char}

theorem opens_line (completed : Gap.lineComment.Completed last cs) : Filler last ('/' :: '/' :: cs) := by
  rcases completed with ⟨body, c, filler, rfl, inLine, ends, more⟩ | ⟨isLast, inLine⟩
  · exact .lineComment inLine ends more
  · exact .unended isLast inLine

theorem opens_block {opened : Position} (completed : (Gap.blockComment opened).Completed last cs) :
    Filler last ('/' :: '*' :: cs) := by
  obtain ⟨body, filler, rfl, unclosed, more⟩ := completed
  exact .blockComment unclosed more

/-- A line comment goes on over a character that ends no line and stops at one that does. -/
theorem in_line {c : Char}
    (completed : (if isLineBreak c then Gap.blank else .lineComment).Completed last cs) :
    Gap.lineComment.Completed last (c :: cs) := by
  cases ends : isLineBreak c with
  | true => exact .inl ⟨[], c, cs, rfl, nofun, ends, by simpa [ends, Gap.Completed] using completed⟩
  | false =>
    simp only [ends, Bool.false_eq_true, if_false] at completed
    rcases completed with ⟨body, d, filler, rfl, inLine, stop, more⟩ | ⟨isLast, inLine⟩
    · exact .inl ⟨c :: body, d, filler, rfl, List.forall_mem_cons.mpr ⟨ends, inLine⟩, stop, more⟩
    · exact .inr ⟨isLast, List.forall_mem_cons.mpr ⟨ends, inLine⟩⟩

theorem closes_block (opened : Position) (more : Filler last cs) :
    (Gap.blockComment opened).Completed last ('*' :: '/' :: cs) :=
  ⟨[], cs, rfl, by simp, more⟩

/-- A block comment goes on over a character with which no closing mark begins. -/
theorem in_block {opened : Position} {c : Char} {rest : List Char}
    (completed : (Gap.blockComment opened).Completed last cs)
    (unclosed : ¬ ['*', '/'] <+: c :: (cs ++ rest)) :
    (Gap.blockComment opened).Completed last (c :: cs) := by
  obtain ⟨body, filler, rfl, open', more⟩ := completed
  refine ⟨c :: body, filler, rfl, fun closes => ?_, more⟩
  rcases List.infix_cons_iff.mp closes with here | later
  · exact unclosed (here.trans (by simp))
  · exact open' later

end Gap.Completed

/-- What is skipped completes the gap, and nothing more could be skipped. -/
theorem skip_ok {gap : Gap} {p q : Position} {cs rest : List Char}
    (skipped : skip gap p cs = .ok (q, rest)) :
    ∃ filler, cs = filler ++ rest ∧ gap.Completed rest.isEmpty filler ∧ q = p.walk filler rest ∧
      Stops rest := by
  fun_induction skip gap p cs with
  | case1 p cs ih =>
    obtain ⟨filler, rfl, completed, rfl, stops⟩ := ih skipped
    exact ⟨'/' :: '/' :: filler, rfl, completed.opens_line, by rw [Position.walk_two] <;> rfl, stops⟩
  | case2 p cs ih =>
    obtain ⟨filler, rfl, completed, rfl, stops⟩ := ih skipped
    exact ⟨'/' :: '*' :: filler, rfl, completed.opens_block, by rw [Position.walk_two] <;> rfl, stops⟩
  | case3 p c cs _ _ blank ih =>
    obtain ⟨filler, rfl, completed, rfl, stops⟩ := ih skipped
    exact ⟨c :: filler, rfl, .blank blank completed, rfl, stops⟩
  | case4 p c cs noLine noBlock visible =>
    obtain ⟨rfl, rfl⟩ := Prod.mk.inj (Except.ok.inj skipped)
    refine ⟨[], rfl, .nil, rfl, ?_, ?_, ?_⟩
    · simpa using visible
    · exact not_opens_pair noLine
    · exact not_opens_pair noBlock
  | case5 p c cs ih =>
    obtain ⟨filler, rfl, completed, rfl, stops⟩ := ih skipped
    exact ⟨c :: filler, rfl, completed.in_line, rfl, stops⟩
  | case6 p opened cs ih =>
    obtain ⟨filler, rfl, completed, rfl, stops⟩ := ih skipped
    exact ⟨'*' :: '/' :: filler, rfl, .closes_block opened completed,
      by rw [Position.walk_two] <;> rfl, stops⟩
  | case7 p opened c cs unclosed ih =>
    obtain ⟨filler, rfl, completed, rfl, stops⟩ := ih skipped
    exact ⟨c :: filler, rfl, completed.in_block (not_opens_pair unclosed), rfl, stops⟩
  | case8 => contradiction
  | case9 gap p notBlock =>
    obtain ⟨rfl, rfl⟩ := Prod.mk.inj (Except.ok.inj skipped)
    refine ⟨[], rfl, ?_, rfl, ?_⟩
    · cases gap with
      | blank => exact .nil
      | lineComment => exact .inr ⟨rfl, nofun⟩
      | blockComment opened => exact absurd rfl (notBlock opened)
    · simp [Stops]

/-- Skipping fails at a comment that is never closed, reported where it was opened. -/
theorem skip_error {gap : Gap} {p : Position} {cs : List Char} {fault : Fault}
    (failed : skip gap p cs = .error fault) :
    (∃ opened, gap = .blockComment opened ∧ ¬ ['*', '/'] <:+: cs ∧
      fault = ⟨opened, .unterminatedComment⟩) ∨
    ∃ filler rest, cs = filler ++ '/' :: '*' :: rest ∧ gap.Completed false filler ∧
      ¬ ['*', '/'] <:+: rest ∧ fault = ⟨p.walk filler ('/' :: '*' :: rest), .unterminatedComment⟩ := by
  fun_induction skip gap p cs with
  | case1 p cs ih =>
    rcases ih failed with ⟨opened, same, _⟩ | ⟨filler, rest, rfl, completed, unclosed, rfl⟩
    · contradiction
    · exact .inr ⟨'/' :: '/' :: filler, rest, rfl, completed.opens_line, unclosed,
        by rw [Position.walk_two] <;> rfl⟩
  | case2 p cs ih =>
    rcases ih failed with ⟨opened, same, unclosed, rfl⟩ | ⟨filler, rest, rfl, completed, unclosed, rfl⟩
    · obtain rfl := Gap.blockComment.inj same
      exact .inr ⟨[], cs, rfl, .nil, unclosed, rfl⟩
    · exact .inr ⟨'/' :: '*' :: filler, rest, rfl, completed.opens_block, unclosed,
        by rw [Position.walk_two] <;> rfl⟩
  | case3 p c cs _ _ blank ih =>
    rcases ih failed with ⟨opened, same, _⟩ | ⟨filler, rest, rfl, completed, unclosed, rfl⟩
    · contradiction
    · exact .inr ⟨c :: filler, rest, rfl, .blank blank completed, unclosed, rfl⟩
  | case4 => contradiction
  | case5 p c cs ih =>
    rcases ih failed with ⟨opened, same, _⟩ | ⟨filler, rest, rfl, completed, unclosed, rfl⟩
    · split at same <;> contradiction
    · exact .inr ⟨c :: filler, rest, rfl, completed.in_line, unclosed, rfl⟩
  | case6 p opened cs ih =>
    rcases ih failed with ⟨opened, same, _⟩ | ⟨filler, rest, rfl, completed, unclosed, rfl⟩
    · contradiction
    · exact .inr ⟨'*' :: '/' :: filler, rest, rfl, .closes_block opened completed, unclosed,
        by rw [Position.walk_two] <;> rfl⟩
  | case7 p opened c cs open' ih =>
    rcases ih failed with ⟨_, same, unclosed, rfl⟩ | ⟨filler, rest, rfl, completed, unclosed, rfl⟩
    · refine .inl ⟨_, same, fun closes => ?_, rfl⟩
      rcases List.infix_cons_iff.mp closes with here | later
      · exact not_opens_pair open' here
      · exact unclosed later
    · exact .inr ⟨c :: filler, rest, rfl, completed.in_block (not_opens_pair open'), unclosed, rfl⟩
  | case8 p opened => exact .inl ⟨opened, rfl, by simp, (Except.error.inj failed).symm⟩
  | case9 => contradiction

theorem skip_opens_line (p : Position) (rest : List Char) :
    skip .blank p ('/' :: '/' :: rest) = skip .lineComment (p.right 2) rest := rfl

theorem skip_opens_block (p : Position) (rest : List Char) :
    skip .blank p ('/' :: '*' :: rest) = skip (.blockComment p) (p.right 2) rest := rfl

theorem skip_closes_block (opened p : Position) (rest : List Char) :
    skip (.blockComment opened) p ('*' :: '/' :: rest) = skip .blank (p.right 2) rest := rfl

theorem skip_in_line (p : Position) (c : Char) (rest : List Char) :
    skip .lineComment p (c :: rest) =
      skip (if isLineBreak c then .blank else .lineComment) (p.after c rest) rest := rfl

theorem skip_in_block {c : Char} {rest : List Char} (unclosed : ¬ ['*', '/'] <+: c :: rest)
    (opened p : Position) :
    skip (.blockComment opened) p (c :: rest) = skip (.blockComment opened) (p.after c rest) rest := by
  conv => lhs; unfold skip
  split <;> simp_all

theorem skip_between {c : Char} {rest : List Char} (noLine : ¬ ['/', '/'] <+: c :: rest)
    (noBlock : ¬ ['/', '*'] <+: c :: rest) (p : Position) :
    skip .blank p (c :: rest) =
      if Text.isBlank c then skip .blank (p.after c rest) rest else .ok (p, c :: rest) := by
  conv => lhs; unfold skip
  split <;> simp_all

theorem skip_line_body {body : List Char} (inLine : ∀ b ∈ body, isLineBreak b = false) {c : Char}
    (ends : isLineBreak c = true) (p : Position) (rest : List Char) :
    skip .lineComment p (body ++ c :: rest) =
      skip .blank (p.walk (body ++ [c]) rest) rest := by
  induction body generalizing p with
  | nil => rw [List.nil_append, skip_in_line, ends]; rfl
  | cons b body ih =>
    obtain ⟨head, tail⟩ := List.forall_mem_cons.mp inLine
    rw [List.cons_append, skip_in_line, head]
    simp [Position.walk, ih tail]

theorem skip_block_body (opened : Position) {body : List Char} (unclosed : ¬ ['*', '/'] <:+: body)
    (p : Position) (rest : List Char) :
    skip (.blockComment opened) p (body ++ '*' :: '/' :: rest) =
      skip .blank (p.walk (body ++ ['*', '/']) rest) rest := by
  induction body generalizing p with
  | nil => rw [List.nil_append, List.nil_append, skip_closes_block, Position.walk_two] <;> rfl
  | cons b body ih =>
    rw [List.infix_cons_iff, not_or] at unclosed
    -- a closing mark that began with `b` would end in `body` or in the mark that stands after it
    have notHere : ¬ ['*', '/'] <+: b :: (body ++ '*' :: '/' :: rest) := by
      cases body with
      | nil => simp
      | cons d body => simpa using unclosed.1
    rw [List.cons_append, skip_in_block notHere, ih unclosed.2]
    simp [Position.walk]

theorem skip_blank {c : Char} (blank : Text.isBlank c = true) (p : Position) (rest : List Char) :
    skip .blank p (c :: rest) = skip .blank (p.after c rest) rest := by
  have notSlash : '/' ≠ c := by rintro rfl; contradiction
  rw [skip_between (by simp [notSlash]) (by simp [notSlash]), if_pos blank]

theorem skip_stops {cs : List Char} (stops : Stops cs) (p : Position) :
    skip .blank p cs = .ok (p, cs) := by
  obtain ⟨visible, noLine, noBlock⟩ := stops
  cases cs with
  | nil => rfl
  | cons c cs => rw [skip_between noLine noBlock, if_neg (by simpa using visible)]

/-- A filler is skipped as a whole where nothing after it can be skipped. -/
theorem skip_filler {filler rest : List Char} (filled : Filler false filler) (stops : Stops rest)
    (p : Position) : skip .blank p (filler ++ rest) = .ok (p.walk filler rest, rest) := by
  induction filled generalizing p with
  | nil => exact skip_stops stops p
  | blank blank more ih => rw [List.cons_append, skip_blank blank, ih, Position.walk]
  | @lineComment body filler c inLine ends more ih =>
    have skipped := skip_line_body inLine ends (p.right 2) (filler ++ rest)
    simp only [List.cons_append, List.append_assoc, skip_opens_line, skipped, ih]
    rw [Position.walk_two rfl rfl, ← Position.walk_append, List.append_assoc]
    rfl
  | @blockComment body filler unclosed more ih =>
    have skipped := skip_block_body p unclosed (p.right 2) (filler ++ rest)
    simp only [List.cons_append, List.append_assoc, skip_opens_block, skipped, ih]
    rw [Position.walk_two rfl rfl, ← Position.walk_append, List.append_assoc]
    rfl
  | unended isLast inLine => contradiction

end Lexer

end ScriptEngine
