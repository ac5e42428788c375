import ScriptEngine.Call.Arguments

/-! # Parameter binding

Matches the arguments of a call with declared parameters. Positional arguments come first and bind in the
order of declaration, keyword arguments bind by name, and a parameter that is left takes its default. No
parameter is bound twice, and none without a default is left.
-/

namespace ScriptEngine.Binding

/-- What each parameter is bound to so far, in the order of declaration. -/
abbrev Slots := List (Option Value)

/-- Binds an argument to the parameter at `index`, unless it is bound already. -/
def bindKeyword (function : String) (params : List Parameter) (slots : Slots) (name : String)
    (v : Value) : Except RuntimeError Slots :=
  match params.findIdx? (·.name == name) with
  | none => .error (.unknownKeyword function name)
  | some index =>
    match slots[index]? with
    | some (some _) => .error (.duplicateArgument function name)
    | _ => .ok (slots.set index (some v))

/-- Binds arguments in call order; `position` is the index of the first of them, and `keywordSeen` tells
whether a keyword came before it. -/
def bindArguments (function : String) (params : List Parameter) :
    (position : Nat) → (keywordSeen : Bool) → Slots → Arguments → Except RuntimeError Slots
  | _, _, slots, [] => .ok slots
  | position, keywordSeen, slots, ⟨none, v⟩ :: rest =>
    if keywordSeen then .error (.positionalAfterKeyword function)
    else bindArguments function params (position + 1) false (slots.set position (some v)) rest
  | position, _, slots, ⟨some name, v⟩ :: rest => do
    let slots ← bindKeyword function params slots name v
    bindArguments function params (position + 1) true slots rest

/-- The value of each parameter: what it is bound to, else its default. -/
def complete (function : String) : List Parameter → Slots → Except RuntimeError (List (String × Value))
  | p :: params, slot :: slots =>
    match slot <|> p.default with
    | some v => ((p.name, v) :: ·) <$> complete function params slots
    | none => .error (.missingArgument function p.name)
  | _, _ => .ok []

/-- Binds arguments to parameters. -/
def bind (function : String) (params : List Parameter) (args : Arguments) :
    Except RuntimeError Bindings := do
  if args.length > params.length then
    .error (.tooManyArguments function params.length args.length)
  else
    let slots ← bindArguments function params 0 false (params.map fun _ => none) args
    let entries ← complete function params slots
    pure (Table.ofList entries)

end ScriptEngine.Binding
