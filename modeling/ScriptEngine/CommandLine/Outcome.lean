import ScriptEngine.CommandLine.Command
import ScriptEngine.CommandLine.FileTree
import ScriptEngine.Engine
import ScriptEngine.Verification

/-! # Outcomes of commands

What a command prints and the code it ends with, as a function of what reading its file gave. Code 1 stands
for a file that cannot be read or is refused, 2 for findings of the verification, 3 for an error of the run.
-/

namespace ScriptEngine

/-- What a command wrote to its two outputs, and its exit code. -/
structure Outcome where
  code : Nat
  out : String
  err : String
deriving DecidableEq, Repr

namespace Outcome

/-- Lines with their line breaks. -/
def lines (texts : List String) : String := String.join (texts.map (· ++ "\n"))

def success (out : String) : Outcome := ⟨0, out, ""⟩

/-- A command that fails before it prints anything else. -/
def failure (code : Nat) (messages : List String) : Outcome :=
  ⟨code, "", lines (messages.map ("error: " ++ ·))⟩

/-- The text of a file, given its bytes or the reason why there are none. -/
def sourceOf (input : String) (content : Except ReadFault ByteArray) : Except Outcome String :=
  let unreadable (fault : ReadFault) : Outcome :=
    failure 1 [s!"cannot read '{input}': {fault.message}"]
  match content with
  | .error fault => .error (unreadable fault)
  | .ok bytes =>
    match String.fromUTF8? bytes with
    | some source => .ok source
    | none => .error (unreadable .notText)

/-- A token in the output of the `tokens` command. -/
def tokenLine (t : Token) : String :=
  let what := match t.literal with
    | some (.string content) => s!"string {Text.quoted content}"
    | _ => t.describe
  s!"{t.position.line}:{t.position.column}\t{what}"

def ofTokens (input source : String) : Outcome :=
  let stream := TokenStream.ofSource source
  match stream.failure with
  | some fault => failure 1 [(fault.report input source).message]
  | none => success (lines (stream.tokens.map tokenLine))

/-- A state that holds the program of a source text, unless it was refused. -/
def loaded (input source : String) (breakpoints : Bool) : Except Outcome (ProgramId × State) :=
  let p := Program.ofSource source input ⟨0, breakpoints⟩
  match p.failure with
  | some report => .error (failure 1 [report.message])
  | none =>
    let (id, store) := Store.empty.addProgram p
    .ok (id, ⟨store, .start⟩)

/-- Fails with the findings of the verification if there are any. -/
def verified (s : Store) (id : ProgramId) : Except Outcome Unit :=
  match Verification.ofProgram s id with
  | [] => .ok ()
  | findings => .error (failure 2 (findings.map Finding.message))

/-- Sets breakpoints on some lines and warns about lines without a statement. -/
def setBreakpoints (id : ProgramId) (breakpoints : List Nat) (s : Store) : List String × Store :=
  breakpoints.foldl (fun (warnings, s) line =>
    let (covered, p) := (s.program id).setBreakpoint line true
    let s := s.modifyProgram id fun _ => p
    if covered = 0 then (warnings ++ [s!"warning: no statement on line {line}"], s)
    else (warnings, s)) ([], s)

/-- A debugger that never interferes. -/
def watching : Debugger := ⟨fun _ _ => .proceed⟩

/-- What a run reports about an event: at a stop the innermost call and its variables, at an error all
calls. -/
def eventLines (rules : ObjectRules) : Event → List String
  | .stopped stack s =>
    match stack.getLast? with
    | none => []
    | some call => s!"break: {call.text}" ::
      call.locals.map fun (name, v) => s!"  {name} = {s.text rules v}"
  | .uncaught _ stack _ =>
    "call stack (innermost last):" :: stack.map fun call => s!"  at {call.text}"

/-- What a run does: top-level code, then a call without arguments. -/
def script (e : Engine) (id : ProgramId) (entry : Option String) : Exec ScriptError Value := do
  e.start id
  match entry with
  | some name => e.callMember id name []
  | none => pure .null

/-- The outcome of running a program that is loaded. -/
def ofRun (id : ProgramId) (entry : Option String) (breakpoints : List Nat) (state : State) : Outcome :=
  let e := Engine.ofHost Host.none
  let (warnings, store) := setBreakpoints id breakpoints state.store
  let control := { state.control with watchesErrors := true }
  let control := if breakpoints.isEmpty then control else control.attach watching
  let finished (code : Nat) (out err : List String) (s : State) : Outcome :=
    let events := s.control.events.toList.flatMap (eventLines e.host.rules)
    ⟨code, s.control.output.text ++ lines out, lines (warnings ++ events ++ err)⟩
  match script e id entry ⟨store, control⟩ with
  | .ok .null s => finished 0 [] [] s
  | .ok v s => finished 0 [s.store.text e.host.rules v] [] s
  | .error (.failed error) s => finished 3 [] [s!"runtime error: {error.message}"] s
  | .error .exhausted s => finished 3 [] ["runtime error: the run did not end"] s

/-- The outcome of an action on a file, given its bytes or the reason why there are none. -/
def ofAction (input : String) (content : Except ReadFault ByteArray) : Action → Except Outcome Outcome
  | .tokens => do
    let source ← sourceOf input content
    pure (ofTokens input source)
  | .hash => do
    let source ← sourceOf input content
    pure (success s!"{(SourceDigest.of source).hex}  {input}\n")
  | .list => do
    let source ← sourceOf input content
    let (id, state) ← loaded input source true
    pure (success (Listing.text Host.none.rules state.store id))
  | .check => do
    let source ← sourceOf input content
    let (id, state) ← loaded input source true
    verified state.store id
    pure (success s!"OK: {input} ({(state.store.procedures id).length} procedures)\n")
  | .run entry breakpoints => do
    let source ← sourceOf input content
    let (id, state) ← loaded input source true
    verified state.store id
    pure (ofRun id entry breakpoints state)

/-- The outcome of a command, given the bytes of its file or the reason why there are none. -/
def ofCommand (c : Command) (content : Except ReadFault ByteArray) : Outcome :=
  match ofAction c.input content c.action with
  | .ok o | .error o => o

/-- The outcome of a command that cannot be understood. -/
def misuse : Outcome := ⟨2, "", Command.usage⟩

/-- The outcome of a command line in a tree of files. -/
def ofArguments (t : FileTree) (args : List String) : Outcome :=
  match Command.ofArguments? args with
  | none => misuse
  | some command => ofCommand command (t.read command.input)

end Outcome

end ScriptEngine
