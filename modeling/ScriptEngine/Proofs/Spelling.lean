import ScriptEngine.Tree.Parser

/-! # What a program spells

The calls that a tree spells out, by name and with what tags their arguments. Conditions on a source text
are conditions on this list: which names are called, and with how many arguments. Operators, brackets and
assignments are not calls in this sense, although they compile to some. Apart from calls, a tree spells the names
of variables, functions and classes.
-/

namespace ScriptEngine

/-- A call that a program spells out, by name alone or as a method of a receiver. -/
structure SpelledCall where
  isMethod : Bool
  name : String
  keywords : List (Option String)
  count : Nat
deriving DecidableEq, Repr

namespace SpelledCall

/-- Each argument has one tag. -/
def IsTagged (c : SpelledCall) : Prop := c.keywords.length = c.count

/-- A call of `set` by name, which the machine takes for an assignment. -/
def Assigns (c : SpelledCall) : Prop := c.isMethod = false ∧ c.name = "set"

instance (c : SpelledCall) : Decidable c.Assigns := inferInstanceAs (Decidable (_ ∧ _))

/-- A member access written as a method without the name of a member. -/
def LacksMember (c : SpelledCall) : Prop :=
  c.isMethod = true ∧ (c.name = "getMember" ∨ c.name = "setMember") ∧ c.count = 0

instance (c : SpelledCall) : Decidable c.LacksMember := inferInstanceAs (Decidable (_ ∧ _))

end SpelledCall

mutual

/-- The calls of an expression, inner ones first. -/
def Expr.calls : Expr → List SpelledCall
  | .literal _ | .variable .. => []
  | .member receiver .. => receiver.calls
  | .index receiver key _ => receiver.calls ++ key.calls
  | .call name keywords args _ => callsAll args ++ [⟨false, name, keywords, args.length⟩]
  | .send receiver name keywords args _ =>
    receiver.calls ++ callsAll args ++ [⟨true, name, keywords, args.length⟩]
  | .unary _ operand _ => operand.calls
  | .binary _ left right _ | .both left right | .either left right => left.calls ++ right.calls
  | .pair first second _ => first.calls ++ second.calls
  | .list items _ => callsAll items
  | .map entries _ => callsAll entries
  | .group inner => inner.calls

def callsAll : List Expr → List SpelledCall
  | [] => []
  | e :: rest => e.calls ++ callsAll rest

end

def Target.calls : Target → List SpelledCall
  | .variable .. => []
  | .member receiver .. => receiver.calls
  | .index receiver key _ => receiver.calls ++ key.calls

mutual

/-- The calls of a statement, those of its blocks included. -/
def Stmt.calls : Stmt → List SpelledCall
  | .eval _ value => value.calls
  | .assign _ target value _ => target.calls ++ value.calls
  | .ret _ value => value.elim [] Expr.calls
  | .branch _ condition body otherwise => condition.calls ++ blockCalls body ++ otherwise.calls
  | .whileLoop _ condition body => condition.calls ++ blockCalls body
  | .forLoop _ _ _ items body => items.calls ++ blockCalls body
  | .guarded _ body _ handler => blockCalls body ++ blockCalls handler
  | .define _ _ _ body => blockCalls body

def blockCalls : List Stmt → List SpelledCall
  | [] => []
  | s :: rest => s.calls ++ blockCalls rest

def Otherwise.calls : Otherwise → List SpelledCall
  | .nothing => []
  | .block body => blockCalls body
  | .branch condition body otherwise => condition.calls ++ blockCalls body ++ otherwise.calls

end

def MemberTree.calls : MemberTree → List SpelledCall
  | .method f | .staticMethod f => blockCalls f.body
  | .staticField _ _ _ value => value.calls

def ClassTree.calls (c : ClassTree) : List SpelledCall := c.members.flatMap MemberTree.calls

def Item.calls : Item → List SpelledCall
  | .function f => blockCalls f.body
  | .classDef c => c.calls
  | .statement s => s.calls

/-- The calls of a module. -/
def ModuleTree.calls (m : ModuleTree) : List SpelledCall := m.items.flatMap Item.calls

mutual

/-- The names of the variables that an expression reads. -/
def Expr.names : Expr → List String
  | .literal _ => []
  | .variable name _ => [name]
  | .member receiver .. => receiver.names
  | .index receiver key _ => receiver.names ++ key.names
  | .call _ _ args _ => namesAll args
  | .send receiver _ _ args _ => receiver.names ++ namesAll args
  | .unary _ operand _ => operand.names
  | .binary _ left right _ | .both left right | .either left right => left.names ++ right.names
  | .pair first second _ => first.names ++ second.names
  | .list items _ => namesAll items
  | .map entries _ => namesAll entries
  | .group inner => inner.names

def namesAll : List Expr → List String
  | [] => []
  | e :: rest => e.names ++ namesAll rest

end

def Target.names : Target → List String
  | .variable name _ => [name]
  | .member receiver .. => receiver.names
  | .index receiver key _ => receiver.names ++ key.names

mutual

/-- The names that a statement reads and binds, those of its blocks included. -/
def Stmt.names : Stmt → List String
  | .eval _ value => value.names
  | .assign _ target value _ => target.names ++ value.names
  | .ret _ value => value.elim [] Expr.names
  | .branch _ condition body otherwise => condition.names ++ blockNames body ++ otherwise.names
  | .whileLoop _ condition body => condition.names ++ blockNames body
  | .forLoop _ name _ items body => name :: items.names ++ blockNames body
  | .guarded _ body binding handler => blockNames body ++ binding.toList ++ blockNames handler
  | .define _ name _ body => name :: blockNames body

def blockNames : List Stmt → List String
  | [] => []
  | s :: rest => s.names ++ blockNames rest

def Otherwise.names : Otherwise → List String
  | .nothing => []
  | .block body => blockNames body
  | .branch condition body otherwise => condition.names ++ blockNames body ++ otherwise.names

end

def MemberTree.names : MemberTree → List String
  | .method f | .staticMethod f => blockNames f.body
  | .staticField _ _ _ value => value.names

def ClassTree.names (c : ClassTree) : List String := c.members.flatMap MemberTree.names

def Item.names : Item → List String
  | .function f => f.name :: blockNames f.body
  | .classDef c => c.name :: c.names
  | .statement s => s.names

/-- The names of a module: of variables, of functions and of classes, but not those of members. -/
def ModuleTree.names (m : ModuleTree) : List String := m.items.flatMap Item.names

-- The equations of what follows the tree are made here once, and not by whichever proof needs them first.
attribute [grind =] Expr.calls callsAll Stmt.calls blockCalls Otherwise.calls
attribute [grind =] Expr.names namesAll Stmt.names blockNames Otherwise.names

/-- Whether a source text parses and each call that it spells passes a test. -/
def spellsOnly (source : String) (test : SpelledCall → Bool) : Bool :=
  match ModuleTree.ofSource source with
  | .ok m => m.calls.all test
  | .error _ => false

theorem spellsOnly_iff {source : String} {test : SpelledCall → Bool} :
    spellsOnly source test = true ↔
      ∃ m, ModuleTree.ofSource source = .ok m ∧ ∀ c ∈ m.calls, test c = true := by
  unfold spellsOnly
  cases ModuleTree.ofSource source with
  | ok m => simp
  | error fault => simp

end ScriptEngine
