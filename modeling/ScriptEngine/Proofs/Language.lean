import ScriptEngine.Proofs.Acceptance
import ScriptEngine.Proofs.Recognition
import ScriptEngine.Proofs.WellFormed

/-! # The language of the parser

A source text without a lexical fault is accepted exactly when its tokens are a module of the grammar whose
clauses fulfil the conditions: each one by itself, and no two of them clash. Two conditions that the parser
checks in passing, from the names declared so far, are said here of the whole text at once.
-/

namespace ScriptEngine

namespace Lexer

theorem token_isSpelled {afterOperand : Bool} {p : Position} {c : Char} {rest : List Char} {t : Token} {s : State}
    (read : token afterOperand p c rest = .ok (t, s)) : t.IsSpelled := by
  obtain ⟨text, rest, kind, literal, -, lexeme, same⟩ := token_ok read
  obtain ⟨rfl, rfl⟩ := Prod.mk.inj same
  cases lexeme with
  | @keyword _ _ k =>
    refine ⟨nofun, ?_⟩
    cases k <;> rfl
  | _ => exact ⟨nofun, rfl⟩

theorem next_isSpelled {s s' : State} {t : Token} (read : next s = .ok (some (t, s'))) : t.IsSpelled := by
  obtain ⟨p, c, cs, -, here⟩ := next_some read
  exact token_isSpelled here

theorem collect_isSpelled (fuel : Nat) (s : State) : ∀ t ∈ (collect fuel s).1, t.IsSpelled := by
  induction fuel generalizing s with
  | zero => exact List.forall_mem_nil _
  | succ fuel ih =>
    unfold collect
    split
    · exact List.forall_mem_nil _
    · exact List.forall_mem_nil _
    · next read => exact List.forall_mem_cons.mpr ⟨next_isSpelled read, ih _⟩

end Lexer

theorem TokenStream.ofSource_isSpelled (source : String) : ∀ t ∈ (TokenStream.ofSource source).tokens, t.IsSpelled :=
  Lexer.collect_isSpelled ((Lexer.State.ofSource source).rest.length + 1) _

/-- Before the first token of a text without a lexical fault nothing can go wrong. -/
theorem ParserState.ofStream_isWhole {source : String} (clean : (TokenStream.ofSource source).failure = none) :
    (ParserState.ofStream (.ofSource source)).IsWhole := ⟨clean, TokenStream.ofSource_isSpelled source⟩

namespace ParserState

variable {s : ParserState}

/-- What a clause forbids to later ones is what clashes with it. -/
theorem permits_meet (outside : s.depth = 0) (c d : Clause) :
    (s.meet c).Permits d ↔ s.Permits d ∧ ¬c.Clashes d := by
  cases d with
  | assigns | takes =>
    cases c <;> exact (and_iff_left id).symm
  | declares name' isClass' =>
    cases c with
    | assigns | takes => exact (and_iff_left id).symm
    | declares name isClass =>
      cases isClass <;> cases isClass' <;>
        simp [meet, Permits, Clause.Clashes, outside, eq_comm, and_comm, and_assoc, and_left_comm]

theorem permitsAll_iff (outside : s.depth = 0) {cs : List Clause} :
    s.PermitsAll cs ↔ (∀ c ∈ cs, s.Permits c) ∧ cs.Pairwise fun c d => ¬c.Clashes d := by
  induction cs generalizing s with
  | nil => simp [PermitsAll]
  | cons c cs ih =>
    have onward := ih ((meet_depth s c).trans outside)
    simp only [PermitsAll, onward, permits_meet outside, List.forall_mem_cons, List.pairwise_cons, forall_and]
    grind

/-- Before the first token no name is taken. -/
theorem ofStream_permits (stream : TokenStream) (c : Clause) : (ofStream stream).Permits c ↔ c.IsAllowed := by
  cases c with
  | declares => exact iff_of_true (fun _ => ⟨List.not_mem_nil, fun _ => List.not_mem_nil⟩) trivial
  | _ => exact Iff.rfl

end ParserState

/-- Whether some tokens are a module that fulfils the conditions. -/
def IsAccepted (ts : List Token) : Prop :=
  ∃ cs, IsModule ts cs ∧ (∀ c ∈ cs, c.IsAllowed) ∧ cs.Pairwise fun c d => ¬c.Clashes d

theorem ModuleTree.ofSource_eq (source : String) :
    ModuleTree.ofSource source = Prod.fst <$> Parser.module ((TokenStream.ofSource source).tokens.length + 2)
      (.ofStream (.ofSource source)) := rfl

theorem ModuleTree.ofSource_eq_ok_iff {source : String} {m : ModuleTree} : ModuleTree.ofSource source = .ok m ↔
    ∃ s, Parser.module ((TokenStream.ofSource source).tokens.length + 2) (.ofStream (.ofSource source)) =
      .ok (m, s) := by
  rw [ModuleTree.ofSource_eq]
  cases Parser.module ((TokenStream.ofSource source).tokens.length + 2) (.ofStream (.ofSource source)) with
  | error fault => exact iff_of_false nofun nofun
  | ok r =>
    obtain ⟨m', s⟩ := r
    change Except.ok m' = .ok m ↔ _
    simp

/-- A text that is parsed has no lexical fault. -/
theorem ModuleTree.ofSource_clean {source : String} {m : ModuleTree} (parsed : ModuleTree.ofSource source = .ok m) :
    (TokenStream.ofSource source).failure = none := by
  obtain ⟨s, read⟩ := ModuleTree.ofSource_eq_ok_iff.mp parsed
  have given := Parser.module_gives ((TokenStream.ofSource source).tokens.length + 2) _
    (TokenStream.ofSource_lexed source)
  rw [read] at given
  have lexed := given.2
  have spelled : ∀ t ∈ s.cursor.tokens, t.IsSpelled := fun t among =>
    TokenStream.ofSource_isSpelled source t (lexed.tokens.subset among)
  exact lexed.failure.symm.trans (Parser.module_ends read spelled).2

/-- The conditions on the clauses of a text are those that its first state puts on them. -/
theorem ParserState.ofStream_permitsAll (stream : TokenStream) (cs : List Clause) :
    (ParserState.ofStream stream).PermitsAll cs ↔
      (∀ c ∈ cs, c.IsAllowed) ∧ cs.Pairwise fun c d => ¬c.Clashes d := by
  have outside : (ParserState.ofStream stream).depth = 0 := rfl
  simp only [ParserState.permitsAll_iff outside, ParserState.ofStream_permits]

/-- No two functions or classes of a module declare one name, if one of them is a class. -/
theorem ModuleTree.ofSource_declarations {source : String} {m : ModuleTree}
    (parsed : ModuleTree.ofSource source = .ok m) : m.declarations.Pairwise fun c d => ¬c.Clashes d := by
  have whole := ParserState.ofStream_isWhole (ModuleTree.ofSource_clean parsed)
  obtain ⟨s, read⟩ := ModuleTree.ofSource_eq_ok_iff.mp parsed
  obtain ⟨cs, _, permits, declared⟩ := whole.derives rfl read
  exact ((ParserState.ofStream_permitsAll _ cs).mp permits).2.sublist declared

theorem ModuleTree.ofSource_isOk_iff {source : String} (clean : (TokenStream.ofSource source).failure = none) :
    (∃ m, ModuleTree.ofSource source = .ok m) ↔ IsAccepted (TokenStream.ofSource source).tokens := by
  have whole := ParserState.ofStream_isWhole clean
  have outside : (ParserState.ofStream (.ofSource source)).depth = 0 := rfl
  constructor
  · rintro ⟨m, parsed⟩
    obtain ⟨s, read⟩ := ModuleTree.ofSource_eq_ok_iff.mp parsed
    obtain ⟨cs, derives, permits, _⟩ := whole.derives outside read
    exact ⟨cs, derives, (ParserState.ofStream_permitsAll _ cs).mp permits⟩
  · rintro ⟨cs, derives, permits⟩
    obtain ⟨m, read, _⟩ := Parser.module_takes derives (Nat.lt_add_of_pos_right Nat.two_pos) _ [] whole outside
      (List.append_nil _).symm rfl ((ParserState.ofStream_permitsAll _ cs).mpr permits)
    exact ⟨m, ModuleTree.ofSource_eq_ok_iff.mpr ⟨_, read⟩⟩

/-- A source text without a lexical fault is accepted exactly if its tokens are a module of the grammar whose
clauses fulfil the conditions. -/
theorem Program.ofSource_accepted_iff (source file : String) (o : LoweringOptions)
    (clean : (TokenStream.ofSource source).failure = none) :
    (Program.ofSource source file o).failure = none ↔ IsAccepted (TokenStream.ofSource source).tokens := by
  rw [← ModuleTree.ofSource_isOk_iff clean]
  constructor
  · intro accepted
    cases parsed : ModuleTree.ofSource source with
    | ok m => exact ⟨m, rfl⟩
    | error fault =>
      rw [Program.ofSource_refused file o parsed] at accepted
      cases accepted
  · rintro ⟨m, parsed⟩
    exact ((Program.ofSource_well_formed source file o).2 m parsed).1

theorem Program.class_and_chain_accepted :
    (TokenStream.ofSource
        "class A \x7b static n = 1; \x7d if (A.n == 1) \x7b b = [2]; \x7d else if (c) \x7b \x7d").failure = none ∧
      IsAccepted (TokenStream.ofSource
        "class A \x7b static n = 1; \x7d if (A.n == 1) \x7b b = [2]; \x7d else if (c) \x7b \x7d").tokens := by
  have clean : (TokenStream.ofSource
      "class A \x7b static n = 1; \x7d if (A.n == 1) \x7b b = [2]; \x7d else if (c) \x7b \x7d").failure = none :=
    Option.isNone_iff_eq_none.mp (by decide +kernel)
  refine ⟨clean, (Program.ofSource_accepted_iff _ "demo" ⟨0, true⟩ clean).mp ?_⟩
  exact Option.isNone_iff_eq_none.mp (by decide +kernel)

end ScriptEngine
