import ScriptEngine.Literal
import ScriptEngine.Source

/-! # Tokens

The vocabulary of the language: reserved words, symbols, and the kinds of tokens, each with the name that
error messages give it. A token keeps its exact text and its place; a token that is a constant also keeps
the constant.
-/

namespace ScriptEngine

/-- The reserved words. -/
inductive Keyword where
  | defWord | ifWord | elifWord | elseWord | forWord | whileWord | returnWord | tryWord | catchWord
  | staticWord | classWord | trueWord | falseWord | nullWord
deriving DecidableEq, Repr

namespace Keyword

/-- The spelling of a reserved word in lower case. -/
def text : Keyword → String
  | defWord => "def"
  | ifWord => "if"
  | elifWord => "elif"
  | elseWord => "else"
  | forWord => "for"
  | whileWord => "while"
  | returnWord => "return"
  | tryWord => "try"
  | catchWord => "catch"
  | staticWord => "static"
  | classWord => "class"
  | trueWord => "true"
  | falseWord => "false"
  | nullWord => "null"

def all : List Keyword :=
  [defWord, ifWord, elifWord, elseWord, forWord, whileWord, returnWord, tryWord, catchWord, staticWord,
    classWord, trueWord, falseWord, nullWord]

/-- The reserved word that a word spells in any mixture of cases. -/
def ofWord? (word : List Char) : Option Keyword :=
  let lowered := String.ofList (word.map Char.toLower)
  all.find? fun k => k.text == lowered

/-- The constant that a reserved word stands for. -/
def literal? : Keyword → Option Literal
  | trueWord => some (.bool true)
  | falseWord => some (.bool false)
  | nullWord => some .null
  | _ => none

end Keyword

/-- Operators and punctuation. -/
inductive Symbol where
  | assign | plus | minus | star | slash | percent
  | equal | notEqual | less | greater | atMost | atLeast
  | both | either | bang
  | openParen | closeParen | openBrace | closeBrace | openBracket | closeBracket
  | comma | semicolon | colon | dot
deriving DecidableEq, Repr

/-- The spelling of a symbol. -/
def Symbol.text : Symbol → String
  | assign => "="
  | plus => "+"
  | minus => "-"
  | star => "*"
  | slash => "/"
  | percent => "%"
  | equal => "=="
  | notEqual => "!="
  | less => "<"
  | greater => ">"
  | atMost => "<="
  | atLeast => ">="
  | both => "&&"
  | either => "||"
  | bang => "!"
  | openParen => "("
  | closeParen => ")"
  | openBrace => "\x7b"
  | closeBrace => "\x7d"
  | openBracket => "["
  | closeBracket => "]"
  | comma => ","
  | semicolon => ";"
  | colon => ":"
  | dot => "."

/-- The kinds of tokens. The end of input is a kind of its own that no text spells. -/
inductive TokenKind where
  | ident
  | number
  | string
  | keyword (k : Keyword)
  | symbol (s : Symbol)
  | endOfInput
deriving DecidableEq, Repr

namespace TokenKind

/-- The name of a kind in error messages. -/
def text : TokenKind → String
  | ident => "identifier"
  | number => "number"
  | string => "string"
  | keyword k => s!"'{k.text}'"
  | symbol s => s!"'{s.text}'"
  | endOfInput => "end of input"

/-- Whether a token of this kind can be the last one of an operand, so that a sign after it is an
operator. -/
def endsOperand : TokenKind → Bool
  | ident | number | string => true
  | keyword k => k.literal?.isSome
  | symbol s => s = .closeParen ∨ s = .closeBracket
  | endOfInput => false

end TokenKind

/-- A token with its exact text. -/
structure Token where
  kind : TokenKind
  literal : Option Literal
  text : String
  position : Position

namespace Token

/-- The place just past a token. -/
def stop (t : Token) : Position := t.position.right t.text.length

/-- How a token is named where another one was expected. -/
def describe (t : Token) : String :=
  match t.kind with
  | .ident | .number => s!"{t.kind.text} '{t.text}'"
  | kind => kind.text

end Token

end ScriptEngine
