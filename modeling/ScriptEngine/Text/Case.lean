import ScriptEngine.Text.CaseTable

/-! # Case mapping

Full upper and lower case of a text. A character may become several (`ß` is `SS`), and a capital sigma
becomes a final one exactly when a cased letter stands before it and none after it, case-ignorable
characters being skipped on both sides.
-/

namespace ScriptEngine.Text

/-- Membership in a table of ranges. -/
def inRanges (ranges : Array (Nat × Nat)) (n : Nat) : Bool :=
  ranges.any fun (low, high) => low ≤ n && n ≤ high

/-- The image of a code point under the run that holds it, or the code point itself. -/
def shiftBy (runs : Array CaseRun) (n : Nat) : Nat :=
  match runs.find? fun r => r.first ≤ n && n ≤ r.last && (n - r.first) % r.step == 0 with
  | some r => (n + r.shift).toNat
  | none => n

/-- The full mapping of one character: its expansion if it has one, else its simple image. -/
def mapCase (runs : Array CaseRun) (expansions : Array (Nat × List Nat)) (c : Char) : List Char :=
  match expansions.find? (·.1 == c.toNat) with
  | some (_, images) => images.map Char.ofNat
  | none => [Char.ofNat (shiftBy runs c.toNat)]

/-- The upper-case form of a text. -/
def upper (cs : List Char) : List Char :=
  cs.flatMap fun c =>
    if c.toNat < 0x80 then [c.toUpper] else mapCase upperRuns upperExpansions c

/-- Whether the first character that is not case-ignorable is a cased letter. -/
def meetsCased (cs : List Char) : Bool :=
  match cs.dropWhile fun c => inRanges caseIgnorableRanges c.toNat with
  | c :: _ => inRanges casedRanges c.toNat
  | [] => false

/-- Lower case of the text `cs` that follows the characters `before`, nearest first. -/
def lowerAfter (before : List Char) : List Char → List Char
  | [] => []
  | c :: rest =>
    let image :=
      if c.toNat < 0x80 then [c.toLower]
      else if c = 'Σ' then [if meetsCased before && !meetsCased rest then 'ς' else 'σ']
      else mapCase lowerRuns lowerExpansions c
    image ++ lowerAfter (c :: before) rest

/-- The lower-case form of a text. -/
def lower (cs : List Char) : List Char := lowerAfter [] cs

end ScriptEngine.Text
