import ScriptEngine.Literal
import ScriptEngine.Source

/-! # Program trees

A program as its grammar sees it. Nodes keep the places that run-time errors and breakpoints refer to:
an operation keeps the place of its operator or name, a statement the lines it covers. Parentheses stay in
the tree because a parenthesised expression cannot be assigned to.
-/

namespace ScriptEngine

/-- Operators before their operand. -/
inductive UnaryOp where
  | not | neg
deriving DecidableEq, Repr

/-- The method that a unary operator sends to its operand. -/
def UnaryOp.method : UnaryOp → String
  | not => "__not__"
  | neg => "__neg__"

/-- Operators between two operands that are evaluated both. -/
inductive BinaryOp where
  | equal | notEqual | less | greater | atMost | atLeast | add | sub | mul | div | mod
deriving DecidableEq, Repr

/-- The method that a binary operator sends to its left operand. -/
def BinaryOp.method : BinaryOp → String
  | equal => "__eq__"
  | notEqual => "__ne__"
  | less => "__lt__"
  | greater => "__gt__"
  | atMost => "__le__"
  | atLeast => "__ge__"
  | add => "__add__"
  | sub => "__sub__"
  | mul => "__mul__"
  | div => "__div__"
  | mod => "__mod__"

/-- Expressions. The arguments of a call come with one keyword tag each. -/
inductive Expr where
  | literal (value : Literal)
  | variable (name : String) (place : Position)
  | member (receiver : Expr) (name : String) (place : Position)
  | index (receiver key : Expr) (place : Position)
  | call (name : String) (keywords : List (Option String)) (args : List Expr) (place : Position)
  | send (receiver : Expr) (name : String) (keywords : List (Option String)) (args : List Expr)
      (place : Position)
  | unary (op : UnaryOp) (operand : Expr) (place : Position)
  | binary (op : BinaryOp) (left right : Expr) (place : Position)
  | both (left right : Expr)
  | either (left right : Expr)
  | pair (first second : Expr) (place : Position)
  | list (items : List Expr) (place : Position)
  | map (entries : List Expr) (place : Position)
  | group (inner : Expr)

/-- What an assignment writes to. -/
inductive Target where
  | variable (name : String) (place : Position)
  | member (receiver : Expr) (name : String) (place : Position)
  | index (receiver key : Expr) (place : Position)

/-- The target that an expression denotes, if it denotes one. -/
def Expr.target? : Expr → Option Target
  | .variable name place => some (.variable name place)
  | .member receiver name place => some (.member receiver name place)
  | .index receiver key place => some (.index receiver key place)
  | _ => none

/-- A declared parameter. -/
structure ParamTree where
  name : String
  default : Option Literal

mutual

/-- Statements. `line` is the line of the word that opens a statement with blocks. -/
inductive Stmt where
  | eval (lines : Lines) (value : Expr)
  | assign (lines : Lines) (target : Target) (value : Expr) (place : Position)
  | ret (lines : Lines) (value : Option Expr)
  | branch (line : Nat) (condition : Expr) (body : List Stmt) (otherwise : Otherwise)
  | whileLoop (line : Nat) (condition : Expr) (body : List Stmt)
  | forLoop (place : Position) (name : String) (namePlace : Position) (items : Expr)
      (body : List Stmt)
  | guarded (line : Nat) (body : List Stmt) (binding : Option String) (handler : List Stmt)
  | define (place : Position) (name : String) (params : List ParamTree) (body : List Stmt)

/-- What follows the first arm of a conditional. -/
inductive Otherwise where
  | nothing
  | block (body : List Stmt)
  | branch (condition : Expr) (body : List Stmt) (otherwise : Otherwise)

end

/-- A function; `place` is that of the word that opens it. -/
structure FunctionTree where
  place : Position
  name : String
  params : List ParamTree
  body : List Stmt

/-- The members of a class body. -/
inductive MemberTree where
  | method (function : FunctionTree)
  | staticMethod (function : FunctionTree)
  | staticField (lines : Lines) (name : String) (place : Position) (value : Expr)

/-- A class; `line` is that of the word that opens it. -/
structure ClassTree where
  line : Nat
  name : String
  members : List MemberTree

/-- What stands at the top level of a module. -/
inductive Item where
  | function (function : FunctionTree)
  | classDef (definition : ClassTree)
  | statement (statement : Stmt)

/-- A module: its items in source order, and the place just past its last token. -/
structure ModuleTree where
  items : List Item
  stop : Position

end ScriptEngine
