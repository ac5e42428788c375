import ScriptEngine.Token

/-! # The grammar of the language

The sequences of tokens that are modules. The rules are those of the reference grammar, one constructor for
each alternative; what the reference writes with a star or in brackets is a relation with a parameter for what
is repeated (`Chain`, `Trailed`, `Listed`, `Many`). Rules look at the kinds of tokens and keep two things that
kinds do not tell: an expression has a form, which says what it could be assigned to as, and statements have
clauses, which are what the conditions on a module are about.

The conditions are no part of the grammar: they are those of `Clause.IsAllowed` on single clauses, and that no
two clauses clash.
-/

namespace ScriptEngine

/-- The kinds of tokens that are constants. -/
def TokenKind.isConstant : TokenKind → Bool
  | .number | .string | .keyword .trueWord | .keyword .falseWord | .keyword .nullWord => true
  | _ => false

/-- What an expression can be assigned to as: a variable, a member that is not called, an element, or nothing
of these, which only has a value. -/
inductive Form where
  | variable (name : String)
  | member
  | element
  | value
deriving DecidableEq

section

variable {α : Type}

/-- The rule `x (s x)*`, where `s` is one of some signs. -/
inductive Chain (signs : List Symbol) (operand : List Token → Form → Prop) : List Token → Form → Prop
  | one {ts : List Token} {f : Form} (first : operand ts f) : Chain signs operand ts f
  | more {ts us : List Token} {f g : Form} {s : Symbol} {t : Token} (left : Chain signs operand ts f)
      (among : s ∈ signs) (sign : t.kind = .symbol s) (right : operand us g) :
      Chain signs operand (ts ++ t :: us) .value

/-- The rule `x (',' x)*`. -/
inductive Separated (element : List Token → α → Prop) : List Token → List α → Prop
  | one {ts : List Token} {a : α} (first : element ts a) : Separated element ts [a]
  | more {ts us : List Token} {as : List α} {a : α} {t : Token} (before : Separated element ts as)
      (comma : t.kind = .symbol .comma) (last : element us a) : Separated element (ts ++ t :: us) (as ++ [a])

/-- The rule `[x (',' x)*]`. -/
inductive Listed (element : List Token → α → Prop) : List Token → List α → Prop
  | none : Listed element [] []
  | some {ts : List Token} {as : List α} (elements : Separated element ts as) : Listed element ts as

end

/-- The rule `primary ('.' IDENT ['(' args ')'] | '[' expr ']')*`. -/
inductive Trailed (primary arg expr : List Token → Form → Prop) : List Token → Form → Prop
  | bare {ts : List Token} {f : Form} (first : primary ts f) : Trailed primary arg expr ts f
  | member {ts : List Token} {f : Form} {dot name : Token} (receiver : Trailed primary arg expr ts f)
      (dotted : dot.kind = .symbol .dot) (named : name.kind = .ident) :
      Trailed primary arg expr (ts ++ [dot, name]) .member
  | send {ts us : List Token} {f : Form} {fs : List Form} {dot name opening closing : Token}
      (receiver : Trailed primary arg expr ts f) (dotted : dot.kind = .symbol .dot) (named : name.kind = .ident)
      (opened : opening.kind = .symbol .openParen) (args : Listed arg us fs)
      (closed : closing.kind = .symbol .closeParen) :
      Trailed primary arg expr (ts ++ dot :: name :: opening :: (us ++ [closing])) .value
  | element {ts us : List Token} {f g : Form} {opening closing : Token} (receiver : Trailed primary arg expr ts f)
      (opened : opening.kind = .symbol .openBracket) (key : expr us g)
      (closed : closing.kind = .symbol .closeBracket) :
      Trailed primary arg expr (ts ++ opening :: (us ++ [closing])) .element

/-- The phrases that make up expressions, from the weakest binding to the strongest. -/
inductive Phrase where
  | expr | either | both | equality | compare | additive | term | unary | postfixed | primary | arg

/-- Whether some tokens are a phrase, and of which form. -/
inductive Phrase.Derives : Phrase → List Token → Form → Prop
  -- expr := or [':' or]
  | single {ts : List Token} {f : Form} (only : Derives .either ts f) : Derives .expr ts f
  | pair {ts us : List Token} {f g : Form} {colon : Token} (first : Derives .either ts f)
      (sign : colon.kind = .symbol .colon) (second : Derives .either us g) :
      Derives .expr (ts ++ colon :: us) .value
  -- or := and ('||' and)*
  | either {ts : List Token} {f : Form} (chain : Chain [.either] (Derives .both) ts f) : Derives .either ts f
  -- and := equality ('&&' equality)*
  | both {ts : List Token} {f : Form} (chain : Chain [.both] (Derives .equality) ts f) : Derives .both ts f
  -- equality := compare (('=='|'!=') compare)*
  | equality {ts : List Token} {f : Form} (chain : Chain [.equal, .notEqual] (Derives .compare) ts f) :
      Derives .equality ts f
  -- compare := additive (('<'|'>'|'<='|'>=') additive)*
  | compare {ts : List Token} {f : Form}
      (chain : Chain [.less, .greater, .atMost, .atLeast] (Derives .additive) ts f) : Derives .compare ts f
  -- additive := term (('+'|'-') term)*
  | additive {ts : List Token} {f : Form} (chain : Chain [.plus, .minus] (Derives .term) ts f) :
      Derives .additive ts f
  -- term := unary (('*'|'/'|'%') unary)*
  | term {ts : List Token} {f : Form} (chain : Chain [.star, .slash, .percent] (Derives .unary) ts f) :
      Derives .term ts f
  -- unary := ('!'|'-') unary | postfix
  | signed {ts : List Token} {f : Form} {s : Symbol} {t : Token} (among : s ∈ [Symbol.bang, .minus])
      (sign : t.kind = .symbol s) (operand : Derives .unary ts f) : Derives .unary (t :: ts) .value
  | unsigned {ts : List Token} {f : Form} (operand : Derives .postfixed ts f) : Derives .unary ts f
  -- postfix := primary ('.' IDENT ['(' args ')'] | '[' expr ']')*
  | postfixed {ts : List Token} {f : Form}
      (trailed : Trailed (Derives .primary) (Derives .arg) (Derives .expr) ts f) : Derives .postfixed ts f
  -- primary := NUMBER | STRING | true | false | null | IDENT ['(' args ')']
  --          | '(' expr ')' | '[' [expr (',' expr)*] ']' | '{' [expr (',' expr)*] '}'
  | constant {t : Token} (constant : t.kind.isConstant = true) : Derives .primary [t] .value
  | variable {name : Token} (named : name.kind = .ident) : Derives .primary [name] (.variable name.text)
  | call {us : List Token} {fs : List Form} {name opening closing : Token} (named : name.kind = .ident)
      (opened : opening.kind = .symbol .openParen) (args : Listed (Derives .arg) us fs)
      (closed : closing.kind = .symbol .closeParen) :
      Derives .primary (name :: opening :: (us ++ [closing])) .value
  | group {us : List Token} {f : Form} {opening closing : Token} (opened : opening.kind = .symbol .openParen)
      (inner : Derives .expr us f) (closed : closing.kind = .symbol .closeParen) :
      Derives .primary (opening :: (us ++ [closing])) .value
  | list {us : List Token} {fs : List Form} {opening closing : Token}
      (opened : opening.kind = .symbol .openBracket) (items : Listed (Derives .expr) us fs)
      (closed : closing.kind = .symbol .closeBracket) : Derives .primary (opening :: (us ++ [closing])) .value
  | map {us : List Token} {fs : List Form} {opening closing : Token}
      (opened : opening.kind = .symbol .openBrace) (entries : Listed (Derives .expr) us fs)
      (closed : closing.kind = .symbol .closeBrace) : Derives .primary (opening :: (us ++ [closing])) .value
  -- arg := IDENT '=' expr | expr
  | keyword {ts : List Token} {f : Form} {name sign : Token} (named : name.kind = .ident)
      (signed : sign.kind = .symbol .assign) (value : Derives .expr ts f) : Derives .arg (name :: sign :: ts) .value
  | positional {ts : List Token} {f : Form} (value : Derives .expr ts f) : Derives .arg ts .value

/-- What the conditions on a module are about: the target of an assignment, the parameters of a function, and a
name that is declared at the top level, as that of a class or not. -/
inductive Clause where
  | assigns (target : Form)
  | takes (params : List String)
  | declares (name : String) (isClass : Bool)
deriving DecidableEq

/-- The clauses of an assignment to a target. A variable is declared by it. -/
def Form.clauses : Form → List Clause
  | .variable name => [.assigns (.variable name), .declares name false]
  | target => [.assigns target]

/-- Whether a clause stays one inside a function, where nothing is declared at the top level. -/
def Clause.isLocal : Clause → Bool
  | .declares .. => false
  | _ => true

/-- The rule `param := IDENT ['=' literal]`, with the name. -/
inductive ParameterRule : List Token → String → Prop
  | required {name : Token} (named : name.kind = .ident) : ParameterRule [name] name.text
  | optional {name sign value : Token} (named : name.kind = .ident) (signed : sign.kind = .symbol .assign)
      (constant : value.kind.isConstant = true) : ParameterRule [name, sign, value] name.text

/-- The rule `function := IDENT '(' [param (',' param)*] ')' block`, with the name and the clauses. -/
inductive FunctionRule (block : List Token → List Clause → Prop) : List Token → String → List Clause → Prop
  | mk {us vs : List Token} {params : List String} {cs : List Clause} {name opening closing : Token}
      (named : name.kind = .ident) (opened : opening.kind = .symbol .openParen)
      (listed : Listed ParameterRule us params)
      (closed : closing.kind = .symbol .closeParen) (body : block vs cs) :
      FunctionRule block (name :: opening :: (us ++ closing :: vs)) name.text
        (.takes params :: cs.filter Clause.isLocal)

/-- The rule `x*`. -/
inductive Many (element : List Token → List Clause → Prop) : List Token → List Clause → Prop
  | none : Many element [] []
  | more {ts us : List Token} {cs ds : List Clause} (before : Many element ts cs) (last : element us ds) :
      Many element (ts ++ us) (cs ++ ds)

theorem Many.isLocal {element : List Token → List Clause → Prop} {ts : List Token} {cs : List Clause}
    (many : Many element ts cs) (each : ∀ ts cs, element ts cs → ∀ c ∈ cs, c.isLocal = true) :
    ∀ c ∈ cs, c.isLocal = true := by
  induction many with
  | none => exact List.forall_mem_nil _
  | more _ last ih => exact List.forall_mem_append.mpr ⟨ih, each _ _ last⟩

/-- The rule `'(' expr ')'` of a condition. -/
inductive ConditionRule : List Token → Prop
  | mk {us : List Token} {f : Form} {opening closing : Token} (opened : opening.kind = .symbol .openParen)
      (test : Phrase.expr.Derives us f) (closed : closing.kind = .symbol .closeParen) :
      ConditionRule (opening :: (us ++ [closing]))

/-- The rule `[':' IDENT]` of a handler. -/
inductive HandlerName : List Token → Prop
  | none : HandlerName []
  | some {colon name : Token} (sign : colon.kind = .symbol .colon) (named : name.kind = .ident) :
      HandlerName [colon, name]

/-- What a module is made up of. -/
inductive Sentence where
  | item | member | block | statement | otherwise

/-- Whether some tokens are a sentence, and with which clauses. -/
inductive Sentence.Derives : Sentence → List Token → List Clause → Prop
  -- item := 'def' function | 'class' class | statement
  -- A `def` at the top level is the first of these, and no statement.
  | function {us : List Token} {name : String} {cs : List Clause} {word : Token}
      (opened : word.kind = .keyword .defWord) (function : FunctionRule (Derives .block) us name cs) :
      Derives .item (word :: us) (.declares name false :: cs)
  -- class := IDENT '{' member* '}'
  | classDef {us : List Token} {cs : List Clause} {word name opening closing : Token}
      (opened : word.kind = .keyword .classWord) (named : name.kind = .ident)
      (before : opening.kind = .symbol .openBrace) (members : Many (Derives .member) us cs)
      (after : closing.kind = .symbol .closeBrace) :
      Derives .item (word :: name :: opening :: (us ++ [closing])) (.declares name.text true :: cs)
  | plain {ts : List Token} {cs : List Clause} (statement : Derives .statement ts cs)
      (other : ∀ t ∈ ts.head?, t.kind ≠ .keyword .defWord) : Derives .item ts cs
  -- member := 'static' IDENT '=' expr ';' | 'static' 'def' function | 'def' function
  | field {us : List Token} {f : Form} {word name sign semicolon : Token}
      (opened : word.kind = .keyword .staticWord) (named : name.kind = .ident)
      (signed : sign.kind = .symbol .assign) (value : Phrase.expr.Derives us f)
      (ended : semicolon.kind = .symbol .semicolon) :
      Derives .member (word :: name :: sign :: (us ++ [semicolon])) []
  | staticMethod {us : List Token} {name : String} {cs : List Clause} {static word : Token}
      (stands : static.kind = .keyword .staticWord) (opened : word.kind = .keyword .defWord)
      (function : FunctionRule (Derives .block) us name cs) : Derives .member (static :: word :: us) cs
  | method {us : List Token} {name : String} {cs : List Clause} {word : Token}
      (opened : word.kind = .keyword .defWord) (function : FunctionRule (Derives .block) us name cs) :
      Derives .member (word :: us) cs
  -- block := '{' statement* '}'
  | block {us : List Token} {cs : List Clause} {opening closing : Token}
      (before : opening.kind = .symbol .openBrace) (statements : Many (Derives .statement) us cs)
      (after : closing.kind = .symbol .closeBrace) : Derives .block (opening :: (us ++ [closing])) cs
  -- if := 'if' '(' expr ')' block otherwise
  | branch {us vs ws : List Token} {cs ds : List Clause} {word : Token} (opened : word.kind = .keyword .ifWord)
      (condition : ConditionRule us) (body : Derives .block vs cs) (others : Derives .otherwise ws ds) :
      Derives .statement (word :: (us ++ (vs ++ ws))) (cs ++ ds)
  -- otherwise := [('elif' | 'else' 'if') '(' expr ')' block otherwise | 'else' block]
  | nothing : Derives .otherwise [] []
  | elifArm {us vs ws : List Token} {cs ds : List Clause} {word : Token} (opened : word.kind = .keyword .elifWord)
      (condition : ConditionRule us) (body : Derives .block vs cs) (others : Derives .otherwise ws ds) :
      Derives .otherwise (word :: (us ++ (vs ++ ws))) (cs ++ ds)
  | elseIfArm {us vs ws : List Token} {cs ds : List Clause} {word second : Token}
      (opened : word.kind = .keyword .elseWord) (again : second.kind = .keyword .ifWord) (condition : ConditionRule us)
      (body : Derives .block vs cs) (others : Derives .otherwise ws ds) :
      Derives .otherwise (word :: second :: (us ++ (vs ++ ws))) (cs ++ ds)
  | elseArm {us : List Token} {cs : List Clause} {word : Token} (opened : word.kind = .keyword .elseWord)
      (body : Derives .block us cs) : Derives .otherwise (word :: us) cs
  -- while := 'while' '(' expr ')' block
  | whileLoop {us vs : List Token} {cs : List Clause} {word : Token} (opened : word.kind = .keyword .whileWord)
      (condition : ConditionRule us) (body : Derives .block vs cs) : Derives .statement (word :: (us ++ vs)) cs
  -- for := 'for' '(' IDENT ':' expr ')' block
  | forLoop {us vs : List Token} {f : Form} {cs : List Clause} {word opening name colon closing : Token}
      (opened : word.kind = .keyword .forWord) (before : opening.kind = .symbol .openParen)
      (named : name.kind = .ident) (sign : colon.kind = .symbol .colon) (items : Phrase.expr.Derives us f)
      (after : closing.kind = .symbol .closeParen) (body : Derives .block vs cs) :
      Derives .statement (word :: opening :: name :: colon :: (us ++ closing :: vs)) cs
  -- return := 'return' [expr] ';'
  | ret {word semicolon : Token} (opened : word.kind = .keyword .returnWord)
      (ended : semicolon.kind = .symbol .semicolon) : Derives .statement [word, semicolon] []
  | retValue {us : List Token} {f : Form} {word semicolon : Token} (opened : word.kind = .keyword .returnWord)
      (value : Phrase.expr.Derives us f) (ended : semicolon.kind = .symbol .semicolon) :
      Derives .statement (word :: (us ++ [semicolon])) []
  -- try := 'try' block 'catch' [':' IDENT] block
  | guarded {us vs ws : List Token} {cs ds : List Clause} {word handles : Token}
      (opened : word.kind = .keyword .tryWord) (body : Derives .block us cs)
      (caught : handles.kind = .keyword .catchWord) (binding : HandlerName vs)
      (handler : Derives .block ws ds) : Derives .statement (word :: (us ++ handles :: (vs ++ ws))) (cs ++ ds)
  -- statement := if | while | for | return | try | 'def' function | expr ['=' expr] ';'
  | define {us : List Token} {name : String} {cs : List Clause} {word : Token}
      (opened : word.kind = .keyword .defWord) (function : FunctionRule (Derives .block) us name cs) :
      Derives .statement (word :: us) cs
  | eval {us : List Token} {f : Form} {semicolon : Token} (value : Phrase.expr.Derives us f)
      (ended : semicolon.kind = .symbol .semicolon) : Derives .statement (us ++ [semicolon]) []
  | assign {us vs : List Token} {f g : Form} {sign semicolon : Token} (target : Phrase.expr.Derives us f)
      (signed : sign.kind = .symbol .assign) (value : Phrase.expr.Derives vs g)
      (ended : semicolon.kind = .symbol .semicolon) :
      Derives .statement (us ++ sign :: (vs ++ [semicolon])) f.clauses

theorem FunctionRule.isLocal {block : List Token → List Clause → Prop} {ts : List Token} {name : String}
    {cs : List Clause} (function : FunctionRule block ts name cs) : ∀ c ∈ cs, c.isLocal = true := by
  cases function with
  | mk => exact List.forall_mem_cons.mpr ⟨rfl, fun c among => (List.mem_filter.mp among).2⟩

/-- The members of a class declare nothing at the top level. -/
theorem Sentence.Derives.member_isLocal {ts : List Token} {cs : List Clause} (member : Sentence.Derives .member ts cs) :
    ∀ c ∈ cs, c.isLocal = true := by
  cases member with
  | field => exact List.forall_mem_nil _
  | staticMethod _ _ function => exact function.isLocal
  | method _ function => exact function.isLocal

/-- The rule `module := item*`. -/
abbrev IsModule : List Token → List Clause → Prop := Many (Sentence.Derives .item)

/-- The conditions on one clause: something is assigned to that can be, and parameters are distinct. -/
def Clause.IsAllowed : Clause → Prop
  | .assigns target => target ≠ .value
  | .takes params => params.Nodup
  | .declares .. => True

/-- Whether two clauses declare one name, and one of them declares it as that of a class. -/
def Clause.Clashes : Clause → Clause → Prop
  | .declares name isClass, .declares name' isClass' => name = name' ∧ (isClass ∨ isClass')
  | _, _ => False

/-- What is true of the tokens of each operand, and stays true when a sign and more tokens come after them, is true of
those of a chain. -/
theorem Chain.leading {P : List Token → Prop} {signs : List Symbol} {operand : List Token → Form → Prop}
    {ts : List Token} {f : Form} (grows : ∀ {ts us x t}, P ts → t.kind = .symbol x → x ≠ .assign → P (ts ++ t :: us))
    (other : .assign ∉ signs) (each : ∀ {ts f}, operand ts f → P ts) (chain : Chain signs operand ts f) : P ts := by
  induction chain with
  | one first => exact each first
  | more _ among sign _ ih => exact grows ih sign fun same => other (same ▸ among)

theorem Trailed.leading {P : List Token → Prop} {primary arg expr : List Token → Form → Prop} {ts : List Token}
    {f : Form} (grows : ∀ {ts us x t}, P ts → t.kind = .symbol x → x ≠ .assign → P (ts ++ t :: us))
    (each : ∀ {ts f}, primary ts f → P ts) (trailed : Trailed primary arg expr ts f) : P ts := by
  induction trailed with
  | bare first => exact each first
  | member _ dotted _ ih => exact grows ih dotted nofun
  | send _ dotted _ _ _ _ ih => exact grows ih dotted nofun
  | element _ opened _ _ ih => exact grows ih opened nofun

namespace Phrase.Derives

variable {P : List Token → Prop} {ts : List Token} {f : Form}

theorem postfixed_leading (grows : ∀ {ts us x t}, P ts → t.kind = .symbol x → x ≠ .assign → P (ts ++ t :: us))
    (primary : ∀ {ts f}, Phrase.Derives .primary ts f → P ts) (derives : Phrase.Derives .postfixed ts f) : P ts := by
  cases derives with
  | postfixed trailed => exact trailed.leading grows primary

/-- What is known of the first tokens of primaries and after signs is known of those of all expressions. -/
theorem expr_leading (grows : ∀ {ts us x t}, P ts → t.kind = .symbol x → x ≠ .assign → P (ts ++ t :: us))
    (primary : ∀ {ts f}, Phrase.Derives .primary ts f → P ts)
    (signed : ∀ {ts x t}, x ∈ [Symbol.bang, .minus] → t.kind = .symbol x → P (t :: ts))
    (derives : Phrase.Derives .expr ts f) : P ts := by
  have either {ts : List Token} {f : Form} (derives : Phrase.Derives .either ts f) : P ts := by
    cases derives with
    | either chain =>
    refine chain.leading grows (by decide) fun derives => ?_
    cases derives with
    | both chain =>
    refine chain.leading grows (by decide) fun derives => ?_
    cases derives with
    | equality chain =>
    refine chain.leading grows (by decide) fun derives => ?_
    cases derives with
    | compare chain =>
    refine chain.leading grows (by decide) fun derives => ?_
    cases derives with
    | additive chain =>
    refine chain.leading grows (by decide) fun derives => ?_
    cases derives with
    | term chain =>
    refine chain.leading grows (by decide) fun derives => ?_
    cases derives with
    | signed among sign => exact signed among sign
    | unsigned operand => exact operand.postfixed_leading grows primary
  cases derives with
  | single only => exact either only
  | pair first sign => exact grows (either first) sign nofun

end Phrase.Derives

/-- The kinds of tokens with which a primary can begin. -/
def TokenKind.opensPrimary : TokenKind → Bool
  | .ident | .symbol .openParen | .symbol .openBracket | .symbol .openBrace => true
  | k => k.isConstant

/-- The kinds of tokens with which an expression can begin. -/
def TokenKind.opensPhrase : TokenKind → Bool
  | .symbol .bang | .symbol .minus => true
  | k => k.opensPrimary

/-- The kinds of tokens with which a statement can begin. -/
def TokenKind.opensStatement : TokenKind → Bool
  | .keyword .ifWord | .keyword .whileWord | .keyword .forWord | .keyword .returnWord | .keyword .tryWord
  | .keyword .defWord => true
  | k => k.opensPhrase

/-- Whether there is a first token, of one of some kinds. -/
def Begins (kinds : TokenKind → Bool) (ts : List Token) : Prop := ∃ t us, ts = t :: us ∧ kinds t.kind = true

namespace Begins

variable {kinds kinds' : TokenKind → Bool} {ts us : List Token}

theorem append (begins : Begins kinds ts) : Begins kinds (ts ++ us) := by
  obtain ⟨t, vs, rfl, kind⟩ := begins
  exact ⟨t, vs ++ us, rfl, kind⟩

theorem mono (begins : Begins kinds ts) (h : ∀ k, kinds k = true → kinds' k = true) : Begins kinds' ts := by
  obtain ⟨t, vs, rfl, kind⟩ := begins
  exact ⟨t, vs, rfl, h _ kind⟩

theorem length_pos (begins : Begins kinds ts) : 0 < ts.length := by
  obtain ⟨t, vs, rfl, _⟩ := begins
  exact Nat.succ_pos _

end Begins

theorem TokenKind.opensPhrase_of_opensPrimary {k : TokenKind} (opens : k.opensPrimary = true) :
    k.opensPhrase = true := by
  unfold opensPhrase
  split
  · rfl
  · rfl
  · exact opens

theorem TokenKind.opensStatement_of_opensPhrase {k : TokenKind} (opens : k.opensPhrase = true) :
    k.opensStatement = true := by
  unfold opensStatement
  split <;> first | rfl | exact opens

namespace Phrase.Derives

variable {ts : List Token} {f : Form}

theorem primary_begins (derives : Phrase.Derives .primary ts f) : Begins TokenKind.opensPrimary ts := by
  cases derives with
  | @constant t constant =>
    refine ⟨t, [], rfl, ?_⟩
    unfold TokenKind.opensPrimary
    split <;> first | rfl | exact constant
  | «variable» named | call named => exact ⟨_, _, rfl, by rw [named]; rfl⟩
  | group opened | list opened | map opened => exact ⟨_, _, rfl, by rw [opened]; rfl⟩

theorem postfixed_begins (derives : Phrase.Derives .postfixed ts f) : Begins TokenKind.opensPrimary ts :=
  derives.postfixed_leading (fun begins _ _ => begins.append) primary_begins

theorem expr_begins (derives : Phrase.Derives .expr ts f) : Begins TokenKind.opensPhrase ts := by
  refine derives.expr_leading (fun begins _ _ => begins.append) (fun primary => ?_) ?_
  · exact primary.primary_begins.mono fun _ => TokenKind.opensPhrase_of_opensPrimary
  · intro ts x t among sign
    refine ⟨t, ts, rfl, ?_⟩
    rw [sign]
    obtain rfl | rfl : x = .bang ∨ x = .minus := by simpa using among
    · rfl
    · rfl

theorem arg_begins (derives : Phrase.Derives .arg ts f) : Begins TokenKind.opensPhrase ts := by
  cases derives with
  | keyword named => exact ⟨_, _, rfl, by rw [named]; rfl⟩
  | positional value => exact value.expr_begins

end Phrase.Derives

theorem Sentence.Derives.statement_begins {ts : List Token} {cs : List Clause}
    (derives : Sentence.Derives .statement ts cs) : Begins TokenKind.opensStatement ts := by
  have phrase {us vs : List Token} {f : Form} (value : Phrase.expr.Derives us f) :
      Begins TokenKind.opensStatement (us ++ vs) :=
    value.expr_begins.append.mono fun _ => TokenKind.opensStatement_of_opensPhrase
  cases derives with
  | branch opened | whileLoop opened | forLoop opened | ret opened | retValue opened | guarded opened
  | define opened => exact ⟨_, _, rfl, by rw [opened]; rfl⟩
  | eval value => exact phrase value
  | assign target => exact phrase target

end ScriptEngine
