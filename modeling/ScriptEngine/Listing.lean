import ScriptEngine.Procedures
import ScriptEngine.Store.Text

/-! # Listings

Instructions as text, and the listing of a whole program: a block for each procedure and a line for each
instruction, with its index and, for a branch, the index that it leads to.
-/

namespace ScriptEngine

/-- An offset with its sign. -/
def signed (n : Int) : String := if n < 0 then toString n else s!"+{n}"

/-- A call without its place. -/
def CallSite.text (site : CallSite) : String :=
  let keywords := site.keywords.filterMap id
  let tags := if keywords.isEmpty then "" else " [" ++ ", ".intercalate keywords ++ "]"
  s!"{site.name}/{site.argc}{tags}"

/-- The operands of an instruction as text. -/
def Instruction.operands (rules : ObjectRules) (s : Store) : Instruction → Option String
  | value (.string t) => some (Text.quoted t)
  | value v => some (s.text rules v)
  | load name _ => some name
  | call site | send site => some site.text
  | branch _ .exit => none
  | branch _ (.relative n) => some (signed n)
  | enterTry offset => some (signed offset.toInt)
  | stop _ lines =>
    some (if lines.first = lines.last then s!"line {lines.first}"
      else s!"lines {lines.first}-{lines.last}")
  | caught binding => binding
  | discard | leaveTry => none

/-- An instruction as text. -/
def Instruction.text (rules : ObjectRules) (s : Store) (i : Instruction) : String :=
  match i.operands rules s with
  | some operands => s!"{i.mnemonic} {operands}"
  | none => i.mnemonic

/-- The offset of an instruction that leads elsewhere in its list. -/
def Instruction.offset? : Instruction → Option Int
  | branch _ (.relative n) | enterTry (.relative n) => some n
  | _ => none

namespace Listing

variable (rules : ObjectRules) (s : Store)

/-- An index with at least four digits. -/
def indexText (n : Nat) : String :=
  let digits := Nat.toDigits 10 n
  String.ofList (List.replicate (4 - digits.length) '0' ++ digits)

/-- A parameter with its default. -/
def parameterText (p : Parameter) : String :=
  match p.default with
  | none => p.name
  | some (.string t) => s!"{p.name} = {Text.quoted t}"
  | some v => s!"{p.name} = {s.text rules v}"

/-- Where an instruction leads, as a remark behind it. -/
def targetText (index size : Nat) (i : Instruction) : String :=
  match i.offset? with
  | none => ""
  | some offset =>
    match landing? index (.relative offset) size with
    | some (.index target) => s!"  -> {indexText target}"
    | _ => "  -> ????"

/-- The block of a procedure. -/
def block (p : Procedure) : List String :=
  let params := ", ".intercalate (p.params.map (parameterText rules s))
  s!"proc {p.name}({params}) ; line {p.line}" ::
    p.code.toList.zipIdx.map fun (i, index) =>
      s!"  {indexText index}  {i.text rules s}{targetText index p.code.size i}"

/-- The lines of the listing of a program. -/
def lines (id : ProgramId) : List String :=
  let p := s.program id
  s!"; {p.file} blake3:{p.digest.hex}" ::
    (s.procedures id).flatMap fun q => "" :: block rules s (s.procedure q)

/-- The listing of a program. -/
def text (id : ProgramId) : String := String.join ((lines rules s id).map (· ++ "\n"))

end Listing

end ScriptEngine
