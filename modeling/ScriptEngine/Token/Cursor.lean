import ScriptEngine.Token.Lexer

/-! # Reading tokens

A cursor over the tokens of a source text, with two tokens of lookahead. After the last token it shows end
tokens for ever, placed just past the last one; where the text has a fault, looking that far reports the
fault instead. So a fault is found when the parser first needs the token that it spoils, and not before.
-/

namespace ScriptEngine

/-- The tokens still to be read, the fault after them if there is one, and the place past the last. -/
structure Cursor where
  tokens : List Token
  failure : Option Fault
  stop : Position

namespace Cursor

/-- The place just past the last of some tokens. -/
def stopOf (tokens : List Token) : Position :=
  match tokens.getLast? with
  | some t => t.stop
  | none => .start

def ofStream (stream : TokenStream) : Cursor :=
  ⟨stream.tokens, stream.failure, stopOf stream.tokens⟩

/-- The token that stands for the end of input. -/
def endToken (c : Cursor) : Token := ⟨.endOfInput, none, "", c.stop⟩

/-- What the cursor shows after its last token. -/
def atStop (c : Cursor) : Except Fault Token :=
  match c.failure with
  | some fault => .error fault
  | none => .ok c.endToken

/-- The next token. -/
def peek (c : Cursor) : Except Fault Token :=
  match c.tokens with
  | t :: _ => .ok t
  | [] => c.atStop

/-- The next token but one. -/
def peekSecond (c : Cursor) : Except Fault Token :=
  match c.tokens with
  | _ :: t :: _ => .ok t
  | _ => c.atStop

/-- The next token and the cursor past it. The end token is never used up. -/
def advance (c : Cursor) : Except Fault (Token × Cursor) := do
  let t ← c.peek
  pure (t, { c with tokens := c.tokens.tail })

end Cursor

end ScriptEngine
