import ScriptEngine.Token.Cursor

/-! # Reading on demand

A cursor that reads its text as far as it is needed. A call that looks at the next token, or at the next two, has the
lexer read them and keeps them until they are handed out; past the last token it makes up end tokens, at the place just
past the last token read. A fault comes out of the call that first needs the token in its place. Calls go on from
where they are also after a fault.
-/

namespace ScriptEngine

/-- The lexer, the tokens that were read and not yet handed out, and the place past the last one read. -/
structure Lookahead where
  reader : Lexer.Reader
  buffered : List Token
  stop : Position

namespace Lookahead

def ofSource (source : String) : Lookahead := ⟨.ofSource source, [], .start⟩

/-- The token that stands for the end of input. -/
def endToken (c : Lookahead) : Token := ⟨.endOfInput, none, "", c.stop⟩

end Lookahead

/-- A call of a cursor that reads on demand. -/
abbrev LookaheadM := EStateM Fault Lookahead

namespace Lookahead

/-- Has one more token read. -/
def read : LookaheadM Unit := fun c =>
  match c.reader.pull with
  | (some (.ok t), reader) => .ok () ⟨reader, c.buffered ++ [t], t.stop⟩
  | (some (.error fault), reader) => .error fault { c with reader }
  | (none, reader) => .ok () { c with reader, buffered := c.buffered ++ [c.endToken] }

/-- Has some more tokens read. -/
def readMany : Nat → LookaheadM Unit
  | 0 => pure ()
  | n + 1 => do
    read
    readMany n

/-- Makes sure that so many tokens are at hand. -/
def fill (count : Nat) : LookaheadM Unit := do
  let c ← get
  readMany (count - c.buffered.length)

/-- The next token. -/
def peek : LookaheadM Token := do
  fill 1
  let c ← get
  pure (c.buffered.getD 0 c.endToken)

/-- The next token but one. -/
def peekSecond : LookaheadM Token := do
  fill 2
  let c ← get
  pure (c.buffered.getD 1 c.endToken)

/-- Whether the next token is of a kind. -/
def sees (kind : TokenKind) : LookaheadM Bool := do
  let t ← peek
  pure (t.kind = kind)

def atEnd : LookaheadM Bool := sees .endOfInput

/-- Hands out the next token. -/
def advance : LookaheadM Token := do
  fill 1
  let c ← get
  match c.buffered with
  | t :: rest =>
    set { c with buffered := rest }
    pure t
  | [] => throw ⟨c.stop, .unexpectedToken "a token" TokenKind.endOfInput.text⟩

/-- Hands out the next token if it is of a kind. -/
def accept (kind : TokenKind) : LookaheadM (Option Token) := do
  if ← sees kind then some <$> advance else pure none

/-- Hands out the next two tokens if they are of these kinds. -/
def acceptTwo (first second : TokenKind) : LookaheadM (Option (Token × Token)) := do
  fill 2
  let c ← get
  if (c.buffered.getD 0 c.endToken).kind = first ∧ (c.buffered.getD 1 c.endToken).kind = second then
    let a ← advance
    let b ← advance
    pure (some (a, b))
  else pure none

/-- The fault of the next token where `what` was expected. -/
def unexpected (what : String) : LookaheadM Fault := do
  let t ← peek
  pure ⟨t.position, .unexpectedToken what t.describe⟩

/-- Hands out a token of a kind, which messages call `what`. -/
def expect (kind : TokenKind) (what : String) : LookaheadM Token := do
  match ← accept kind with
  | some t => pure t
  | none =>
    let fault ← unexpected what
    throw fault

end Lookahead

end ScriptEngine
