import ScriptEngine.Run.Exec
import ScriptEngine.Store.Holding

/-! # The lifetime of classes

The procedures of a class see its statics as plain names, but only as long as there is something else that
holds the class: a member of a program, a value that the host keeps, a variable of a call in progress or of
the call stack as it was last shown, or whatever these lead to.
-/

namespace ScriptEngine

/-- What a pending computation holds. -/
def Hold.holders (h : Hold) : List Holder :=
  h.owner.toList.map .classDef ++ h.values.flatMap Value.holders ++ bindingHolders h.bindings

/-- What the host and the calls in progress hold. -/
def Control.holders (c : Control) : List Holder :=
  c.held.flatMap Hold.holders ++ bindingHolders c.kept ++
    c.callStack.items.flatMap fun call => call.locals.flatMap fun entry => entry.2.holders

/-- Whether a class is still the member of its program that declared it, as it mostly is. -/
def Store.isDeclared (s : Store) (c : ClassId) : Bool :=
  let p := s.program c.program
  match p.members.get? (s.classDef c).name with
  | some (.classRef id) => id == c && !p.released
  | _ => false

namespace State

variable (s : State)

/-- What is held from outside the store, by programs or by variables that are about to be used. -/
def roots (locals : Bindings) : List Holder :=
  bindingHolders locals ++ s.control.holders ++ s.store.programs.toList.flatMap Program.holders

/-- Whether something holds a class. The search of the whole store comes last, since what holds a class is
seldom far away. -/
def keeps (c : ClassId) (locals : Bindings) : Bool :=
  s.store.isDeclared c ||
    let roots := s.roots locals
    roots.any (fun h => h == .classDef c || (s.store.heldBy h).contains (.classDef c)) ||
      (s.store.lasting roots s.store.allHolders).contains (.classDef c)

/-- The class whose statics a procedure sees when it is entered with some variables. -/
def ownerOf? (p : Procedure) (locals : Bindings) : Option ClassId :=
  p.owner.filter fun c => s.keeps c locals

end State

end ScriptEngine
