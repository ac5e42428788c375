import ScriptEngine.Token.Cursor
import ScriptEngine.Tree

/-! # Parsing

Reads a module from its tokens, from left to right and without going back; one token decides what comes
next, except that a keyword argument and a static method need two. Three conditions that the grammar does
not express are checked on the way: the parameters of a function have distinct names, only a variable,
member or element is assigned to, and no class shares its name with a top-level function, variable or
other class.

Every round of a loop and every level of nesting reads at least one token. Each function therefore takes a
bound, `fuel`, on both; one more than the number of tokens is never used up.
-/

namespace ScriptEngine

/-- What the parser remembers: the tokens to come, the names that top-level functions and assignments
declared, the class names, and how many function bodies are open. -/
structure ParserState where
  cursor : Cursor
  topLevel : List String
  classes : List String
  depth : Nat

/-- A step of parsing: it reads tokens and yields a result, or reports a fault. -/
abbrev Parser := StateT ParserState (Except Fault)

namespace Parser

def faultAt {α : Type} (place : Position) (cause : SyntaxError) : Parser α :=
  throw ⟨place, cause⟩

def peek : Parser Token := do
  let s ← get
  s.cursor.peek

def peekSecond : Parser Token := do
  let s ← get
  s.cursor.peekSecond

def advance : Parser Token := do
  let s ← get
  let (t, cursor) ← s.cursor.advance
  set { s with cursor }
  pure t

/-- Whether the next token is of a kind. -/
def sees (kind : TokenKind) : Parser Bool := do
  let t ← peek
  pure (t.kind = kind)

/-- Reads the next token if it is of a kind. -/
def accept (kind : TokenKind) : Parser (Option Token) := do
  if ← sees kind then some <$> advance else pure none

/-- Reads the next two tokens if they are of these kinds. -/
def acceptTwo (first second : TokenKind) : Parser (Option (Token × Token)) := do
  let a ← peek
  let b ← peekSecond
  if a.kind = first ∧ b.kind = second then
    let a ← advance
    let b ← advance
    pure (some (a, b))
  else pure none

/-- Reports the next token where `what` was expected. -/
def unexpected {α : Type} (what : String) : Parser α := do
  let t ← peek
  faultAt t.position (.unexpectedToken what t.describe)

/-- Reads a token of a kind, which messages call `what`. -/
def expect (kind : TokenKind) (what : String) : Parser Token := do
  match ← accept kind with
  | some t => pure t
  | none => unexpected what

def acceptSymbol (s : Symbol) : Parser (Option Token) := accept (.symbol s)

def acceptWord (k : Keyword) : Parser (Option Token) := accept (.keyword k)

def expectSymbol (s : Symbol) : Parser Token := expect (.symbol s) (TokenKind.symbol s).text

/-- The first of some symbols that comes next, with what it stands for. -/
def acceptAny {α : Type} : List (Symbol × α) → Parser (Option (Token × α))
  | [] => pure none
  | (s, a) :: rest => do
    match ← acceptSymbol s with
    | some t => pure (some (t, a))
    | none => acceptAny rest

/-- The fault of a loop that outlives its bound. -/
def exhausted {α : Type} : Parser α := unexpected "a token"

/-- Repeats a round, from one state to the next, until it yields a result. -/
def rounds {σ α : Type} (round : σ → Parser (σ ⊕ α)) : Nat → σ → Parser α
  | 0, _ => exhausted
  | fuel + 1, s => do
    match ← round s with
    | .inl s => rounds round fuel s
    | .inr a => pure a

/-- Elements with commas between them up to a closing symbol. Each is read with those before it at hand,
latest first. -/
def separated {α : Type} (element : List α → Parser α) (close : Symbol) (fuel : Nat) :
    Parser (List α) := do
  if (← acceptSymbol close).isSome then pure []
  else
    rounds (fun before => do
      let a ← element before
      if (← acceptSymbol .comma).isSome then pure (.inl (a :: before))
      else
        let _ ← expectSymbol close
        pure (.inr (a :: before).reverse)) fuel []

/-- Operands with operators between them, grouped from the left. -/
def leftToRight (operators : List (Symbol × (Position → Expr → Expr → Expr)))
    (operand : Parser Expr) (fuel : Nat) : Parser Expr := do
  let first ← operand
  rounds (fun left => do
    match ← acceptAny operators with
    | some (t, build) =>
      let right ← operand
      pure (.inl (build t.position left right))
    | none => pure (.inr left)) fuel first

def operator (s : Symbol) (op : BinaryOp) : Symbol × (Position → Expr → Expr → Expr) :=
  (s, fun place left right => .binary op left right place)

def multiplicative : List (Symbol × (Position → Expr → Expr → Expr)) :=
  [operator .star .mul, operator .slash .div, operator .percent .mod]

def additive : List (Symbol × (Position → Expr → Expr → Expr)) :=
  [operator .plus .add, operator .minus .sub]

def comparison : List (Symbol × (Position → Expr → Expr → Expr)) :=
  [operator .less .less, operator .greater .greater, operator .atMost .atMost,
    operator .atLeast .atLeast]

def equality : List (Symbol × (Position → Expr → Expr → Expr)) :=
  [operator .equal .equal, operator .notEqual .notEqual]

/-- The levels of binding strength above the unary operators, `||` the weakest. -/
def disjunction (operand : Parser Expr) (fuel : Nat) : Parser Expr :=
  let products := leftToRight multiplicative operand fuel
  let sums := leftToRight additive products fuel
  let comparisons := leftToRight comparison sums fuel
  let equalities := leftToRight equality comparisons fuel
  let conjunctions := leftToRight [(.both, fun _ left right => .both left right)] equalities fuel
  leftToRight [(.either, fun _ left right => .either left right)] conjunctions fuel

/-- A disjunction, or two of them with a colon between, which make a pair. -/
def fromOperand (operand : Parser Expr) (fuel : Nat) : Parser Expr := do
  let first ← disjunction operand fuel
  match ← acceptSymbol .colon with
  | some colon =>
    let second ← disjunction operand fuel
    pure (.pair first second colon.position)
  | none => pure first

/-- The arguments of a call after its opening parenthesis, through the closing one. -/
def arguments (expression : Parser Expr) (fuel : Nat) :
    Parser (List (Option String) × List Expr) := do
  let args ← separated (fun _ => do
    let tag ← acceptTwo .ident (.symbol .assign)
    let value ← expression
    pure (tag.map (·.1.text), value)) .closeParen fuel
  pure args.unzip

/-- A constant, a name, a call by name, or something in brackets. -/
def primary (expression : Parser Expr) (fuel : Nat) : Parser Expr := do
  let t ← peek
  match t.literal, t.kind with
  | some value, _ =>
    let _ ← advance
    pure (.literal value)
  | none, .ident =>
    let _ ← advance
    if (← acceptSymbol .openParen).isSome then
      let (keywords, args) ← arguments expression fuel
      pure (.call t.text keywords args t.position)
    else pure (.variable t.text t.position)
  | none, .symbol .openParen =>
    let _ ← advance
    let inner ← expression
    let _ ← expectSymbol .closeParen
    pure (.group inner)
  | none, .symbol .openBracket =>
    let _ ← advance
    let items ← separated (fun _ => expression) .closeBracket fuel
    pure (.list items t.position)
  | none, .symbol .openBrace =>
    let _ ← advance
    let entries ← separated (fun _ => expression) .closeBrace fuel
    pure (.map entries t.position)
  | none, _ => unexpected "expression"

/-- A primary followed by member accesses, method calls and indexings. -/
def postfixed (expression : Parser Expr) (fuel : Nat) : Parser Expr := do
  let first ← primary expression fuel
  rounds (fun e => do
    if (← acceptSymbol .dot).isSome then
      let name ← expect .ident "member name"
      if (← acceptSymbol .openParen).isSome then
        let (keywords, args) ← arguments expression fuel
        pure (.inl (.send e name.text keywords args name.position))
      else pure (.inl (.member e name.text name.position))
    else
      match ← acceptSymbol .openBracket with
      | some bracket =>
        let key ← expression
        let _ ← expectSymbol .closeBracket
        pure (.inl (.index e key bracket.position))
      | none => pure (.inr e)) fuel first

/-- Unary operators before a postfixed primary, which may hold whole expressions. -/
def unary : Nat → Parser Expr
  | 0 => exhausted
  | fuel + 1 => do
    match ← acceptAny [(.bang, UnaryOp.not), (.minus, UnaryOp.neg)] with
    | some (t, op) =>
      let operand ← unary fuel
      pure (.unary op operand t.position)
    | none => postfixed (fromOperand (unary fuel) fuel) fuel

def expression (fuel : Nat) : Parser Expr := fromOperand (unary fuel) fuel

/-- Declares a top-level name, which must not be that of a class. -/
def declare (name : String) (place : Position) : Parser Unit := do
  let s ← get
  if name ∈ s.classes then faultAt place (.classShadowsName name)
  else set { s with topLevel := name :: s.topLevel }

/-- A condition in parentheses. -/
def condition (fuel : Nat) : Parser Expr := do
  let _ ← expectSymbol .openParen
  let e ← expression fuel
  let _ ← expectSymbol .closeParen
  pure e

/-- Statements in braces. -/
def block (statement : Parser Stmt) (fuel : Nat) : Parser (List Stmt) := do
  let _ ← expectSymbol .openBrace
  rounds (fun before => do
    if (← acceptSymbol .closeBrace).isSome then pure (.inr before.reverse)
    else if ← sees .endOfInput then unexpected "'\x7d'"
    else
      let s ← statement
      pure (.inl (s :: before))) fuel []

/-- The arms of a conditional after the first: `elif` and `else if` open another one. -/
def otherwise (condition : Parser Expr) (body : Parser (List Stmt)) : Nat → Parser Otherwise
  | 0 => exhausted
  | fuel + 1 => do
    let another : Parser Otherwise := do
      let c ← condition
      let b ← body
      let rest ← otherwise condition body fuel
      pure (.branch c b rest)
    if (← acceptWord .elifWord).isSome then another
    else if (← acceptWord .elseWord).isSome then
      if (← acceptWord .ifWord).isSome then another
      else .block <$> body
    else pure .nothing

/-- A default value: the next token must be a constant. -/
def defaultValue (parameter : String) : Parser Literal := do
  let t ← advance
  match t.literal with
  | some value => pure value
  | none => faultAt t.position (.nonLiteralDefault parameter)

/-- A parameter after those in `before`. -/
def parameter (before : List ParamTree) : Parser ParamTree := do
  let t ← expect .ident "parameter name"
  if before.any (·.name == t.text) then faultAt t.position (.duplicateParameter t.text)
  else if (← acceptSymbol .assign).isSome then
    let value ← defaultValue t.text
    pure ⟨t.text, some value⟩
  else pure ⟨t.text, none⟩

/-- A function after the word that opens it, which stands at `place`. -/
def function (place : Position) (statement : Parser Stmt) (fuel : Nat) : Parser FunctionTree := do
  let name ← expect .ident "function name"
  let _ ← expectSymbol .openParen
  let params ← separated parameter .closeParen fuel
  modify fun s => { s with depth := s.depth + 1 }
  let body ← block statement fuel
  modify fun s => { s with depth := s.depth - 1 }
  pure ⟨place, name.text, params, body⟩

/-- An assignment after its target and the sign at `place`. -/
def assignment (first : Token) (target : Expr) (place : Position) (fuel : Nat) : Parser Stmt := do
  let value ← expression fuel
  match target.target? with
  | none => faultAt place .invalidAssignmentTarget
  | some target =>
    match target with
    | .variable name here => if (← get).depth = 0 then declare name here
    | _ => pure ()
    let semicolon ← expectSymbol .semicolon
    pure (.assign ⟨first.position.line, semicolon.position.line⟩ target value place)

/-- A statement without blocks, whose first token is `first`. -/
def simple (first : Token) (fuel : Nat) : Parser Stmt := do
  if (← acceptWord .returnWord).isSome then
    let value ← if ← sees (.symbol .semicolon) then pure none else some <$> expression fuel
    let semicolon ← expectSymbol .semicolon
    pure (.ret ⟨first.position.line, semicolon.position.line⟩ value)
  else
    let e ← expression fuel
    match ← acceptSymbol .assign with
    | some sign => assignment first e sign.position fuel
    | none =>
      let semicolon ← expectSymbol .semicolon
      pure (.eval ⟨first.position.line, semicolon.position.line⟩ e)

/-- The loop over the elements of a container, after the word at `place`. -/
def forLoop (place : Position) (statement : Parser Stmt) (fuel : Nat) : Parser Stmt := do
  let _ ← expectSymbol .openParen
  let name ← expect .ident "loop variable"
  let _ ← expectSymbol .colon
  let items ← expression fuel
  let _ ← expectSymbol .closeParen
  let body ← block statement fuel
  pure (.forLoop place name.text name.position items body)

/-- A guarded block and its handler, after the word on `line`. -/
def guarded (line : Nat) (statement : Parser Stmt) (fuel : Nat) : Parser Stmt := do
  let body ← block statement fuel
  let _ ← expect (.keyword .catchWord) "'catch'"
  let binding ←
    if (← acceptSymbol .colon).isSome then
      let name ← expect .ident "variable name"
      pure (some name.text)
    else pure none
  let handler ← block statement fuel
  pure (.guarded line body binding handler)

/-- A statement. -/
def statement : Nat → Parser Stmt
  | 0 => exhausted
  | fuel + 1 => do
    let first ← peek
    let place := first.position
    match first.kind with
    | .keyword .ifWord =>
      let _ ← advance
      let c ← condition fuel
      let body ← block (statement fuel) fuel
      let rest ← otherwise (condition fuel) (block (statement fuel) fuel) fuel
      pure (.branch place.line c body rest)
    | .keyword .whileWord =>
      let _ ← advance
      let c ← condition fuel
      let body ← block (statement fuel) fuel
      pure (.whileLoop place.line c body)
    | .keyword .forWord =>
      let _ ← advance
      forLoop place (statement fuel) fuel
    | .keyword .tryWord =>
      let _ ← advance
      guarded place.line (statement fuel) fuel
    | .keyword .defWord =>
      let _ ← advance
      let f ← function place (statement fuel) fuel
      pure (.define f.place f.name f.params f.body)
    | .keyword .staticWord => faultAt place .staticOutsideClass
    | _ => simple first fuel

/-- A member of a class body. -/
def classMember (fuel : Nat) : Parser MemberTree := do
  match ← acceptTwo (.keyword .staticWord) (.keyword .defWord) with
  | some (_, opening) =>
    .staticMethod <$> function opening.position (statement fuel) fuel
  | none =>
    match ← acceptWord .staticWord with
    | some opening =>
      let name ← expect .ident "static member name"
      let _ ← expectSymbol .assign
      let value ← expression fuel
      let semicolon ← expectSymbol .semicolon
      let lines : Lines := ⟨opening.position.line, semicolon.position.line⟩
      pure (.staticField lines name.text name.position value)
    | none =>
      match ← acceptWord .defWord with
      | some opening => .method <$> function opening.position (statement fuel) fuel
      | none => unexpected "class member"

/-- A class after the word that opens it, which stands on `line`. -/
def classDef (line : Nat) (fuel : Nat) : Parser ClassTree := do
  let name ← expect .ident "class name"
  let s ← get
  if name.text ∈ s.topLevel ∨ name.text ∈ s.classes then
    faultAt name.position (.classShadowsName name.text)
  else
    let _ ← expectSymbol .openBrace
    let members ← rounds (fun before => do
      if (← acceptSymbol .closeBrace).isSome then pure (.inr before.reverse)
      else
        let m ← classMember fuel
        pure (.inl (m :: before))) fuel []
    modify fun s => { s with classes := name.text :: s.classes }
    pure ⟨line, name.text, members⟩

/-- A function, a class or a statement at the top level. -/
def item (fuel : Nat) : Parser Item := do
  match ← acceptWord .defWord with
  | some opening =>
    let f ← function opening.position (statement fuel) fuel
    declare f.name opening.position
    pure (.function f)
  | none =>
    match ← acceptWord .classWord with
    | some opening => .classDef <$> classDef opening.position.line fuel
    | none => .statement <$> statement fuel

/-- A module up to the end of input. -/
def module (fuel : Nat) : Parser ModuleTree := do
  let items ← rounds (fun before => do
    if ← sees .endOfInput then pure (.inr before.reverse)
    else
      let i ← item fuel
      pure (.inl (i :: before))) fuel []
  let stop ← peek
  pure ⟨items, stop.position⟩

end Parser

/-- The state before the first token. -/
def ParserState.ofStream (stream : TokenStream) : ParserState := ⟨.ofStream stream, [], [], 0⟩

/-- The tree of a source text, or its first fault. -/
def ModuleTree.ofSource (source : String) : Except Fault ModuleTree := do
  let stream := TokenStream.ofSource source
  let (tree, _) ← (Parser.module (stream.tokens.length + 2)).run (.ofStream stream)
  pure tree

end ScriptEngine
