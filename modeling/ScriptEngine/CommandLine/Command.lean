/-! # Commands

What the command line asks for: one command on one file. Running a file takes the name of a function to call
afterwards and lines to report at. What follows the argument `--` are files even if it begins with a dash.
-/

namespace ScriptEngine

/-- What to do with a file. -/
inductive Action where
  | tokens
  | list
  | check
  | hash
  | run (entry : Option String) (breakpoints : List Nat)
deriving DecidableEq, Repr

/-- A command of the command line. -/
structure Command where
  action : Action
  input : String
deriving DecidableEq, Repr

namespace Command

/-- What the command line says after the name of the command: the files, and the options for runs. -/
structure Options where
  inputs : List String
  entry : Option String
  breakpoints : List Nat

/-- A line number of an option. -/
def lineNumber? (text : String) : Option Nat :=
  let digits := match text.toList with
    | '+' :: rest => rest
    | cs => cs
  if digits.isEmpty || !digits.all Char.isDigit then none
  else
    let n := digits.foldl (fun n c => 10 * n + (c.toNat - '0'.toNat)) 0
    if n < 4294967296 then some n else none

/-- Whether an argument only raises the verbosity. -/
def isVerbosity (arg : String) : Bool :=
  arg == "--verbose" ||
    match arg.toList with
    | '-' :: 'v' :: rest => rest.all (· == 'v')
    | _ => false

/-- Takes an entry name into some options, which must not have one. -/
def Options.withEntry? (o : Options) (name : String) : Option Options :=
  if o.entry.isSome then none else some { o with entry := some name }

def Options.withBreakpoint? (o : Options) (text : String) : Option Options :=
  (lineNumber? text).map fun line => { o with breakpoints := o.breakpoints ++ [line] }

/-- The part of an argument after a given beginning. -/
def after? (start arg : String) : Option String :=
  if start.toList.isPrefixOf arg.toList then some (String.ofList (arg.toList.drop start.length))
  else none

/-- Whether an argument is read as an option wherever it stands. A single dash is not. -/
def isDashed (arg : String) : Bool := arg.startsWith "-" && arg != "-"

/-- Reads the arguments after the name of the command. -/
def readOptions? : Options → List String → Option Options
  | o, [] => some o
  | o, "--" :: rest => some { o with inputs := o.inputs ++ rest }
  | o, "--entry" :: name :: rest =>
    if isDashed name then none else (o.withEntry? name).bind (readOptions? · rest)
  | o, "--break" :: line :: rest =>
    if isDashed line then none else (o.withBreakpoint? line).bind (readOptions? · rest)
  | o, arg :: rest =>
    let read : Option Options :=
      match after? "--entry=" arg, after? "--break=" arg with
      | some name, _ => o.withEntry? name
      | _, some line => o.withBreakpoint? line
      | none, none =>
        if isVerbosity arg then some o
        else if isDashed arg then none
        else some { o with inputs := o.inputs ++ [arg] }
    read.bind (readOptions? · rest)

/-- The action of a name and some options. Only runs have options. -/
def action? (name : String) (o : Options) : Option Action :=
  let plain (a : Action) := if o.entry.isNone && o.breakpoints.isEmpty then some a else none
  match name with
  | "tokens" => plain .tokens
  | "list" => plain .list
  | "check" => plain .check
  | "hash" => plain .hash
  | "run" => some (.run o.entry o.breakpoints)
  | _ => none

/-- The command that some arguments spell. The name of its file must not be empty. -/
def ofArguments? (args : List String) : Option Command :=
  match args.dropWhile isVerbosity with
  | [] => none
  | name :: rest => do
    let o ← readOptions? ⟨[], none, []⟩ rest
    let action ← action? name o
    match o.inputs with
    | [input] => if input.isEmpty then none else some ⟨action, input⟩
    | _ => none

/-- How commands are written. -/
def usage : String :=
  "usage: tokens|list|check|hash FILE\n       run FILE [--entry NAME] [--break LINE]...\n"

end Command

end ScriptEngine
