import ScriptEngine.Proofs.SourceLines
import ScriptEngine.Proofs.WellFormed

/-! # Reports point into the source

The report of a refused text shows the line on which the fault is, and its caret stands under the first character
of what is wrong: of the text that is no token, or of the token that a cause of parsing is about. Where the text
ends too early the caret stands just past its last token.
-/

namespace ScriptEngine

/-- A report shows the line of its place, with some of the characters on it before the caret. -/
structure ParseError.Shows (e : ParseError) (source : String) (left right : List Char) : Prop where
  line : Position.start.charactersOn e.position.line source.toList = left ++ right
  column : e.position.column = left.length + 1
  snippet : e.snippet = String.ofList (left ++ right ++ '\n' :: List.replicate left.length ' ' ++ ['^'])
  inLine : ∀ c ∈ left ++ right, isLineBreak c = false

/-- What the caret of a report points at, with `left` before it on the line and `right` from it on: a text that is
no token, the token that the cause is about, or the end of the last token. -/
inductive ParseError.PointsAt (e : ParseError) (source : String) (left right : List Char) : Prop
  | text (offset : Nat) (place : e.position = .ofOffset source.toList offset)
    (begins : e.cause.Begins (source.toList.drop offset))
    (under : right = (source.toList.drop offset).takeWhile fun c => !isLineBreak c) (some : right ≠ [])
  | token (t : Token) (among : t ∈ (TokenStream.ofSource source).tokens) (about : e.cause.IsAbout t)
    (place : e.position = t.position) (under : t.text.toList <+: right)
  | ending (t : Token) (clean : (TokenStream.ofSource source).failure = none)
    (last : (TokenStream.ofSource source).tokens.getLast? = some t)
    (about : e.cause.IsAbout (TokenStream.ofSource source).endToken) (place : e.position = t.stop)
    (past : t.text.toList <:+ left)

variable {source : String} {before rest : List Char}

theorem snippet_past (whole : source.toList = before ++ rest)
    (settled : before.getLast? = some '\r' → rest.head? ≠ some '\n') :
    snippet source (.past before) = String.ofList ((splitLines before).getLastD [] ++
      (rest.takeWhile fun c => !isLineBreak c) ++
      '\n' :: List.replicate ((splitLines before).getLastD []).length ' ' ++ ['^']) := by
  rw [← getD_splitLines_append settled, ← whole, ← getD_cutLines]
  rfl

/-- A report from a place that parts no line break shows the line of that place. -/
theorem Fault.report_shows {fault : Fault} (file : String) (place : fault.position = .past before)
    (whole : source.toList = before ++ rest)
    (settled : before.getLast? = some '\r' → rest.head? ≠ some '\n') :
    (fault.report file source).Shows source ((splitLines before).getLastD [])
      (rest.takeWhile fun c => !isLineBreak c) := by
  have line := Position.charactersOn_past settled
  have inLine := Position.charactersOn_inLine (Position.past before).line .start (before ++ rest)
  rw [line] at inLine
  rw [← whole, ← place] at line
  constructor
  · exact line
  · exact congrArg Position.column place
  · change snippet source fault.position = _
    rw [place]
    exact snippet_past whole settled
  · exact inLine

/-- What begins the rest of a text, and lies on one line, begins the rest of that line. -/
theorem prefix_takeWhile_inLine {text : List Char} (inLine : ∀ c ∈ text, isLineBreak c = false)
    (begins : text <+: rest) : text <+: rest.takeWhile fun c => !isLineBreak c := by
  obtain ⟨more, rfl⟩ := begins
  rw [List.takeWhile_append_of_pos fun c among => by simp [inLine c among]]
  exact List.prefix_append text _

theorem head?_ne_feed {text : List Char} (some : text ≠ []) (inLine : ∀ c ∈ text, isLineBreak c = false)
    (begins : text <+: rest) : rest.head? ≠ Option.some '\n' := by
  obtain ⟨more, rfl⟩ := begins
  cases text with
  | nil => contradiction
  | cons c text =>
    rintro ⟨⟩
    have := inLine '\n' List.mem_cons_self
    contradiction

theorem Tiles.stands {source : List Char} {before stop : Nat} {placed : List (Nat × Token)}
    (tiles : Tiles source before placed stop) : ∀ x ∈ placed, x.2.StandsAt source x.1 := by
  induction tiles with
  | nil => exact List.forall_mem_nil _
  | cons _ _ stands _ ih => exact List.forall_mem_cons.mpr ⟨stands, ih⟩

/-- Every token of a text stands in it. -/
theorem TokenStream.ofSource_stands {t : Token} (among : t ∈ (TokenStream.ofSource source).tokens) :
    ∃ offset, t.StandsAt source.toList offset := by
  obtain ⟨placed, stop, tokens, tiles, -⟩ :=
    Lexer.collect_tiles _ (Lexer.State.ofSource_hasPassed source) (Nat.lt_succ_self _)
  have tokens : placed.map Prod.snd = (TokenStream.ofSource source).tokens := tokens
  rw [← tokens] at among
  obtain ⟨x, placed, rfl⟩ := List.mem_map.mp among
  exact ⟨x.1, tiles.stands x placed⟩

theorem isLineBreak_of_visible {c : Char} (visible : Text.isBlank c = false) : isLineBreak c = false := by
  by_contra ends
  simp only [isLineBreak, Bool.not_eq_false, Bool.or_eq_true, beq_iff_eq] at ends
  rcases ends with rfl | rfl <;> contradiction

/-- A line break is never refused, as it is skipped. -/
theorem Lexer.next_error_visible {s : State} {p : Position} {c : Char}
    (failed : next s = .error ⟨p, .unexpectedCharacter c⟩) : isLineBreak c = false := by
  rcases next_error failed with skipped | ⟨q, d, cs, skipped, read⟩
  · rcases skip_error skipped with ⟨_, _, _, same⟩ | ⟨_, _, _, _, _, same⟩ <;> cases same
  · obtain ⟨_, _, _, _, stops⟩ := skip_ok skipped
    obtain ⟨-, here⟩ := token_error read
    cases Option.some.inj here
    exact isLineBreak_of_visible (stops.1 _ rfl)

/-- What is no token begins with a character that ends no line. -/
theorem Lexer.next_error_begins {s : State} {fault : Fault} (failed : next s = .error fault)
    (begins : fault.cause.Begins rest) : ∃ c more, rest = c :: more ∧ isLineBreak c = false := by
  obtain ⟨p, cause⟩ := fault
  cases cause with
  | unexpectedCharacter c =>
    obtain ⟨more, rfl⟩ := List.head?_eq_some_iff.mp begins
    exact ⟨c, more, rfl, next_error_visible failed⟩
  | malformedNumber text =>
    obtain ⟨⟨more, rfl⟩, signs, d, others, whole, isSign, digit⟩ := begins
    rw [whole]
    rcases isSign with rfl | rfl | rfl
    · exact ⟨d, _, rfl, inLine_of_isWordChar (by simp [isWordChar, Char.isAlphanum, digit])⟩
    · exact ⟨'+', _, rfl, rfl⟩
    · exact ⟨'-', _, rfl, rfl⟩
  | unterminatedString =>
    obtain ⟨quote, more, rfl, rfl | rfl, -⟩ := begins <;> exact ⟨_, _, rfl, rfl⟩
  | unterminatedComment =>
    obtain ⟨more, rfl, -⟩ := begins
    exact ⟨'/', _, rfl, rfl⟩
  | _ => cases begins

/-- The fault of a text stands in it, at a character that ends no line. -/
theorem TokenStream.ofSource_failure {fault : Fault} (failed : (TokenStream.ofSource source).failure = some fault) :
    ∃ offset c more, fault.position = .ofOffset source.toList offset ∧ source.toList.drop offset = c :: more ∧
      isLineBreak c = false ∧ fault.cause.Begins (source.toList.drop offset) := by
  obtain ⟨placed, stop, -, -, ends⟩ :=
    Lexer.collect_tiles _ (Lexer.State.ofSource_hasPassed source) (Nat.lt_succ_self _)
  have here : EndsAt source.toList stop (TokenStream.ofSource source).failure := ends
  rw [failed] at here
  obtain ⟨offset, _, _, place, begins⟩ := here
  obtain ⟨s, read⟩ := TokenStream.ofSource_failed failed
  obtain ⟨c, more, split, inLine⟩ := Lexer.next_error_begins read begins
  exact ⟨offset, c, more, place, split, inLine, begins⟩

section

variable (file : String) {t : Token} {cause : SyntaxError}

/-- A report from the place of a token has its caret under the first character of the token. -/
theorem Token.report_points (among : t ∈ (TokenStream.ofSource source).tokens) (about : cause.IsAbout t) :
    ∃ left right, (Fault.report ⟨t.position, cause⟩ file source).Shows source left right ∧
      (Fault.report ⟨t.position, cause⟩ file source).PointsAt source left right := by
  obtain ⟨offset, stands⟩ := TokenStream.ofSource_stands among
  have whole := (List.take_append_drop offset source.toList).symm
  have settled := head?_ne_feed stands.some stands.inLine stands.text
  refine ⟨_, _, Fault.report_shows file stands.place whole fun _ => settled, .token t among about rfl ?_⟩
  exact prefix_takeWhile_inLine stands.inLine stands.text

/-- A report from the end of the text has its caret just past the last token. -/
theorem Token.report_points_past (clean : (TokenStream.ofSource source).failure = none)
    (last : (TokenStream.ofSource source).tokens.getLast? = some t)
    (about : cause.IsAbout (TokenStream.ofSource source).endToken) :
    ∃ left right, (Fault.report ⟨t.stop, cause⟩ file source).Shows source left right ∧
      (Fault.report ⟨t.stop, cause⟩ file source).PointsAt source left right := by
  obtain ⟨offset, stands⟩ := TokenStream.ofSource_stands (List.mem_of_getLast? last)
  obtain ⟨rest, split⟩ := stands.text
  have whole : source.toList = source.toList.take offset ++ t.text.toList ++ rest := by
    rw [List.append_assoc, split, List.take_append_drop]
  have place : t.stop = .past (source.toList.take offset ++ t.text.toList) := by
    rw [Position.past_append_inLine _ stands.inLine, Token.stop, stands.place, String.length_toList]
    rfl
  have settled : (source.toList.take offset ++ t.text.toList).getLast? = some '\r' → rest.head? ≠ some '\n' := by
    rw [List.getLast?_append_of_ne_nil _ stands.some]
    intro ends
    have := stands.inLine '\r' (List.mem_of_getLast? ends)
    contradiction
  refine ⟨_, _, Fault.report_shows file place whole settled, .ending t clean last about rfl ?_⟩
  rw [splitLines_append_inLine _ stands.inLine, List.getLastD_concat]
  exact List.suffix_append _ _

/-- The report of a lexical fault has its caret under the first character of what is no token. -/
theorem Fault.report_points {fault : Fault} (failed : (TokenStream.ofSource source).failure = some fault) :
    ∃ left right, (fault.report file source).Shows source left right ∧
      (fault.report file source).PointsAt source left right := by
  obtain ⟨offset, c, more, place, split, inLine, begins⟩ := TokenStream.ofSource_failure failed
  have whole := (List.take_append_drop offset source.toList).symm
  refine ⟨_, _, Fault.report_shows file place whole fun _ => ?_, .text offset place begins rfl ?_⟩
  · rw [split]
    rintro ⟨⟩
    contradiction
  · rw [split, List.takeWhile_cons_of_pos (by simp [inLine])]
    exact nofun

end

/-- A text without tokens and faults is parsed. -/
theorem ModuleTree.ofSource_empty (clean : (TokenStream.ofSource source).failure = none)
    (empty : (TokenStream.ofSource source).tokens = []) : ∃ m, ModuleTree.ofSource source = .ok m := by
  have stream : TokenStream.ofSource source = ⟨[], none⟩ := by
    cases made : TokenStream.ofSource source
    rw [made] at clean empty
    cases clean
    cases empty
    rfl
  unfold ModuleTree.ofSource
  rw [stream]
  exact ⟨_, rfl⟩

/-- Every report of a refused text points into the text, whether reading tokens or parsing finds the fault. -/
theorem Program.ofSource_report_points (source file : String) (o : LoweringOptions) :
    (∀ fault, (TokenStream.ofSource source).failure = some fault →
      ∃ left right, (fault.report file source).Shows source left right ∧
        (fault.report file source).PointsAt source left right) ∧
    ∀ e, (Program.ofSource source file o).failure = some e →
      ∃ left right, e.Shows source left right ∧ e.PointsAt source left right := by
  refine ⟨fun fault failed => Fault.report_points file failed, fun e failed => ?_⟩
  have reads := ModuleTree.ofSource_reads source
  cases parsed : ModuleTree.ofSource source with
  | ok m =>
    obtain ⟨parts, same, _⟩ := Program.ofSource_eq file o parsed
    rw [same] at failed
    cases failed
  | error fault =>
    rw [parsed] at reads
    rw [Program.ofSource_refused file o parsed] at failed
    cases failed
    cases reads with
    | text failed => exact Fault.report_points file failed
    | token shown about =>
      cases shown with
      | token among => exact Token.report_points file among about
      | ending clean =>
        cases last : (TokenStream.ofSource source).tokens.getLast? with
        | none =>
          obtain ⟨m, done⟩ := ModuleTree.ofSource_empty clean (List.getLast?_eq_none_iff.mp last)
          rw [parsed] at done
          cases done
        | some t =>
          have place : (TokenStream.ofSource source).endToken.position = t.stop := by
            change Cursor.stopOf _ = _
            rw [Cursor.stopOf, last]
          rw [place]
          exact Token.report_points_past file clean last about

/-- Line breaks of all three forms before a character that begins no token. -/
theorem Program.unexpectedCharacter_report_points :
    ∃ source fault, (TokenStream.ofSource source).failure = some fault ∧ fault.position = ⟨5, 5⟩ ∧
      (Program.ofSource source "demo" ⟨0, true⟩).failure = some (fault.report "demo" source) ∧
      ∃ left right, (fault.report "demo" source).Shows source left right ∧
        (fault.report "demo" source).PointsAt source left right := by
  let source := "a = 1;\r\rb = 2;\r\n\nc = @"
  let fault : Fault := ⟨⟨5, 5⟩, .unexpectedCharacter '@'⟩
  have failed : (TokenStream.ofSource source).failure = some fault := by decide +kernel
  have refused : (Program.ofSource source "demo" ⟨0, true⟩).failure = some (fault.report "demo" source) := by
    decide +kernel
  exact ⟨source, fault, failed, rfl, refused, (Program.ofSource_report_points _ "demo" ⟨0, true⟩).2 _ refused⟩

end ScriptEngine
