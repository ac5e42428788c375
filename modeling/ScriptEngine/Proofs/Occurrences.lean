import Mathlib.Data.List.Infix
import Mathlib.Data.Nat.Find
import ScriptEngine.Text.Search

/-! # Occurrences of a text in another one

Searching finds the first place at which the needle stands, and splitting cuts a text at the first occurrence of the
separator, then at the first one behind that, and so on. Places count characters. In UTF-8 no byte within a character
begins one, so a search on the bytes finds the same places: it never finds one in the middle of a character.
-/

namespace ScriptEngine.Text

section

variable {α : Type} {needle text before : List α} {c : α} {m n : Nat}

/-- The needle stands in the text behind the first `n` elements. -/
def OccursAt (needle text : List α) (n : Nat) : Prop := n ≤ text.length ∧ needle <+: text.drop n

/-- The needle stands there and at no place before. -/
def FirstAt (needle text : List α) (n : Nat) : Prop :=
  OccursAt needle text n ∧ ∀ m < n, ¬OccursAt needle text m

theorem occursAt_zero : OccursAt needle text 0 ↔ needle <+: text := by simp [OccursAt]

theorem occursAt_cons_succ : OccursAt needle (c :: text) (n + 1) ↔ OccursAt needle text n := by simp [OccursAt]

theorem occursAt_append : OccursAt needle (before ++ text) (before.length + n) ↔ OccursAt needle text n := by
  simp [OccursAt]

/-- An occurrence lies within the text. -/
theorem OccursAt.add_le (occurs : OccursAt needle text n) : n + needle.length ≤ text.length := by
  have inside := occurs.2.length_le
  rw [List.length_drop] at inside
  have := occurs.1
  omega

theorem OccursAt.append (occurs : OccursAt needle text n) (after : List α) : OccursAt needle (text ++ after) n := by
  obtain ⟨inside, starts⟩ := occurs
  refine ⟨?_, ?_⟩
  · rw [List.length_append]
    exact Nat.le_add_right_of_le inside
  · rw [List.drop_append_of_le_length inside]
    exact starts.trans (List.prefix_append _ _)

theorem exists_occursAt_iff : (∃ n, OccursAt needle text n) ↔ needle <:+: text := by
  constructor
  · rintro ⟨n, _, starts⟩
    exact starts.isInfix.trans (List.drop_suffix n text).isInfix
  · rintro ⟨before, after, rfl⟩
    refine ⟨before.length, ?_⟩
    rw [List.append_assoc]
    exact occursAt_append.mpr (occursAt_zero.mpr (List.prefix_append _ _))

theorem firstAt_zero : FirstAt needle text 0 ↔ needle <+: text := by simp [FirstAt, occursAt_zero]

theorem firstAt_cons_succ : FirstAt needle (c :: text) (n + 1) ↔ ¬needle <+: c :: text ∧ FirstAt needle text n := by
  simp only [FirstAt, Nat.forall_lt_succ_left, occursAt_zero, occursAt_cons_succ]
  exact and_left_comm

open Classical in
/-- A text in which the needle occurs has a first place for it. -/
theorem OccursAt.exists_firstAt (occurs : OccursAt needle text n) : ∃ m, FirstAt needle text m :=
  ⟨Nat.find ⟨n, occurs⟩, Nat.find_spec ⟨n, occurs⟩, fun _ => Nat.find_min ⟨n, occurs⟩⟩

/-- An occurrence is the first one, or the first one is before it. -/
theorem FirstAt.le (first : FirstAt needle text n) (occurs : OccursAt needle text m) : n ≤ m :=
  Nat.le_of_not_lt fun less => first.2 m less occurs

end

section

variable {needle text : List Char} {n : Nat}

theorem indexOf?_eq_some_iff : indexOf? needle text = some n ↔ FirstAt needle text n := by
  fun_induction indexOf? needle text generalizing n with
  | case1 empty =>
    cases n with
    | zero => simp [firstAt_zero, empty]
    | succ n => simp [FirstAt, OccursAt]
  | case2 some => simp [FirstAt, OccursAt, some]
  | case3 c rest begins =>
    rw [List.isPrefixOf_iff_prefix] at begins
    cases n with
    | zero => simp [firstAt_zero, begins]
    | succ n => simp [firstAt_cons_succ, begins]
  | case4 c rest other ih =>
    rw [List.isPrefixOf_iff_prefix] at other
    cases n with
    | zero => simp [firstAt_zero, other]
    | succ n => simp [firstAt_cons_succ, other, ih]

theorem indexOf?_eq_none_iff : indexOf? needle text = none ↔ ∀ n, ¬OccursAt needle text n := by
  rw [Option.eq_none_iff_forall_ne_some]
  simp only [ne_eq, indexOf?_eq_some_iff]
  exact ⟨fun none n occurs => occurs.exists_firstAt.elim none, fun none n first => none n first.1⟩

theorem occursIn_iff : occursIn needle text = true ↔ needle <:+: text := by
  rw [← exists_occursAt_iff, occursIn, Option.isSome_iff_ne_none, ne_eq, indexOf?_eq_none_iff]
  simp

end

section

variable {separator : List Char}

/-- The separator in progress is passed over. -/
theorem splitFrom_skip (part : List Char) {skip : Nat} {text : List Char} (inside : skip ≤ text.length) :
    splitFrom separator skip part text = splitFrom separator 0 part (text.drop skip) := by
  induction skip generalizing text with
  | zero => rfl
  | succ skip ih =>
    cases text with
    | nil => contradiction
    | cons c rest => exact ih (Nat.le_of_succ_le_succ inside)

/-- The part in progress goes before the first part of what is left. -/
theorem splitFrom_part (part text : List Char) :
    splitFrom separator 0 part text = (splitOn separator text).modifyHead (part.reverse ++ ·) := by
  unfold splitOn
  induction text generalizing part with
  | nil => simp [splitFrom]
  | cons c rest ih =>
    by_cases begins : separator.isPrefixOf (c :: rest)
    · simp [splitFrom, begins]
    · simp only [splitFrom, begins, Bool.false_eq_true, if_false]
      rw [ih, ih [c], List.modifyHead_modifyHead]
      simp [Function.comp_def]

theorem splitOn_append (some : separator ≠ []) (rest : List Char) :
    splitOn separator (separator ++ rest) = [] :: splitOn separator rest := by
  obtain ⟨c, more, rfl⟩ := List.exists_cons_of_ne_nil some
  have begins : (c :: more).isPrefixOf (c :: (more ++ rest)) = true :=
    List.isPrefixOf_iff_prefix.mpr (List.prefix_append (c :: more) rest)
  rw [splitOn, List.cons_append, splitFrom, if_pos begins, List.length_cons, Nat.add_sub_cancel,
    splitFrom_skip _ (by simp), List.drop_left]
  rfl

theorem splitOn_cons {c : Char} {rest : List Char} (other : ¬separator <+: c :: rest) :
    splitOn separator (c :: rest) = (splitOn separator rest).modifyHead (c :: ·) := by
  rw [← List.isPrefixOf_iff_prefix] at other
  rw [splitOn, splitFrom, if_neg other, splitFrom_part]
  rfl

/-- The parts of a text: all of it where the separator does not occur, else what is before its first occurrence and
then the parts of what is behind that. -/
inductive Parted (separator : List Char) : List Char → List (List Char) → Prop where
  | whole {text : List Char} (absent : ∀ n, ¬OccursAt separator text n) : Parted separator text [text]
  | cut {before after : List Char} {parts : List (List Char)}
      (first : FirstAt separator (before ++ (separator ++ after)) before.length)
      (more : Parted separator after parts) :
      Parted separator (before ++ (separator ++ after)) (before :: parts)

/-- A character before which the separator does not stand belongs to the first part. -/
theorem Parted.cons {c : Char} {text : List Char} {parts : List (List Char)} (parted : Parted separator text parts)
    (other : ¬separator <+: c :: text) : Parted separator (c :: text) (parts.modifyHead (c :: ·)) := by
  cases parted with
  | whole absent =>
    refine .whole fun n => ?_
    cases n with
    | zero => rwa [occursAt_zero]
    | succ n => rw [occursAt_cons_succ]; exact absent n
  | @cut before after parts first more =>
    change Parted separator (c :: before ++ (separator ++ after)) ((c :: before) :: parts)
    exact .cut (firstAt_cons_succ.mpr ⟨other, first⟩) more

/-- Splitting yields the parts of a text. -/
theorem splitOn_parted (some : separator ≠ []) (text : List Char) : Parted separator text (splitOn separator text) := by
  induction length : text.length using Nat.strongRecOn generalizing text with
  | _ size ih =>
    subst length
    by_cases begins : separator <+: text
    · obtain ⟨rest, rfl⟩ := begins
      have shorter : rest.length < (separator ++ rest).length := by
        have := List.length_pos_iff.mpr some
        simp only [List.length_append]
        omega
      rw [splitOn_append some]
      change Parted separator ([] ++ (separator ++ rest)) ([] :: splitOn separator rest)
      exact .cut (firstAt_zero.mpr (List.prefix_append _ _)) (ih _ shorter rest rfl)
    · cases text with
      | nil =>
        refine .whole fun n occurs => ?_
        simp [OccursAt, some] at occurs
      | cons c rest =>
        rw [splitOn_cons begins]
        exact (ih _ (Nat.lt_succ_self _) rest rfl).cons begins

namespace Parted

variable {text : List Char} {parts : List (List Char)}

theorem ne_nil (parted : Parted separator text parts) : parts ≠ [] := by
  cases parted <;> exact List.cons_ne_nil _ _

/-- The parts with the separator between them are the text. -/
theorem intercalate_eq (parted : Parted separator text parts) : separator.intercalate parts = text := by
  induction parted with
  | whole => exact List.intercalate_singleton
  | cut first more ih => rw [List.intercalate_cons_of_ne_nil more.ne_nil, ih, List.append_assoc]

/-- No part contains the separator. -/
theorem not_infix (parted : Parted separator text parts) (some : separator ≠ []) :
    ∀ part ∈ parts, ¬separator <:+: part := by
  induction parted with
  | whole absent =>
    rw [List.forall_mem_singleton, ← exists_occursAt_iff]
    exact fun ⟨n, occurs⟩ => absent n occurs
  | @cut before after parts first more ih =>
    refine List.forall_mem_cons.mpr ⟨fun inside => ?_, ih⟩
    -- An occurrence within the first part is before the first one.
    obtain ⟨n, occurs⟩ := exists_occursAt_iff.mpr inside
    have width := List.length_pos_iff.mpr some
    have within := occurs.add_le
    have earliest := first.le (occurs.append (separator ++ after))
    omega

end Parted

end

/-- The places, from `start` on, at which the needle stands, each one the first that does not overlap the one before
it. -/
inductive Leftmost (needle text : List Char) : Nat → List Nat → Prop where
  | none {start : Nat} (absent : ∀ n, start ≤ n → ¬OccursAt needle text n) : Leftmost needle text start []
  | next {start n : Nat} {ns : List Nat} (behind : start ≤ n) (occurs : OccursAt needle text n)
      (first : ∀ m, start ≤ m → m < n → ¬OccursAt needle text m)
      (more : Leftmost needle text (n + needle.length) ns) : Leftmost needle text start (n :: ns)

variable {needle text : List Char}

theorem Leftmost.unique {start : Nat} {ms ns : List Nat} (left : Leftmost needle text start ms)
    (right : Leftmost needle text start ns) : ms = ns := by
  induction left generalizing ns with
  | none absent =>
    cases right with
    | none => rfl
    | next behind occurs => exact absurd occurs (absent _ behind)
  | @next start m ms behind occurs first more ih =>
    cases right with
    | none absent => exact absurd occurs (absent _ behind)
    | @next _ n ns behind' occurs' first' more' =>
      obtain rfl : m = n := by
        rcases Nat.lt_trichotomy m n with less | same | more
        · exact absurd occurs (first' m behind less)
        · exact same
        · exact absurd occurs' (first n behind' more)
      rw [ih more']

/-- There is one part more than occurrences of the separator that do not overlap. -/
theorem Parted.leftmost {separator after : List Char} {parts : List (List Char)} (parted : Parted separator after parts)
    (before : List Char) :
    ∃ ns, Leftmost separator (before ++ after) before.length ns ∧ parts.length = ns.length + 1 := by
  induction parted generalizing before with
  | whole absent =>
    refine ⟨[], .none fun n behind => ?_, rfl⟩
    obtain ⟨k, rfl⟩ := Nat.exists_eq_add_of_le behind
    rw [occursAt_append]
    exact absent k
  | @cut part after parts first more ih =>
    obtain ⟨ns, leftmost, count⟩ := ih (before ++ (part ++ separator))
    have place : (before ++ (part ++ separator)).length = before.length + part.length + separator.length := by
      simp [Nat.add_assoc]
    rw [place, List.append_assoc, List.append_assoc] at leftmost
    refine ⟨_ :: ns, .next (Nat.le_add_right _ _) (occursAt_append.mpr first.1) (fun m behind less => ?_) leftmost,
      congrArg (· + 1) count⟩
    obtain ⟨k, rfl⟩ := Nat.exists_eq_add_of_le behind
    rw [occursAt_append]
    exact first.2 k (by omega)

/-- The bytes of a text in UTF-8. -/
def bytes (text : List Char) : List UInt8 := text.flatMap String.utf8EncodeChar

theorem bytes_append (left right : List Char) : bytes (left ++ right) = bytes left ++ bytes right :=
  List.flatMap_append

theorem bytes_prefix_iff : bytes needle <+: bytes text ↔ needle <+: text := by
  constructor
  · rintro ⟨more, same⟩
    apply List.isPrefix_of_utf8Encode_append_eq_utf8Encode more.toByteArray
    have whole := congrArg List.toByteArray same
    rwa [List.toByteArray_append] at whole
  · rintro ⟨more, rfl⟩
    rw [bytes_append]
    exact List.prefix_append _ _

/-- Where the bytes of the needle stand, a character begins, since none of its bytes but the first begins one. -/
theorem OccursAt.of_bytes {b : Nat} (some : needle ≠ []) (occurs : OccursAt (bytes needle) (bytes text) b) :
    ∃ n, OccursAt needle text n ∧ b = (bytes (text.take n)).length := by
  induction text generalizing b with
  | nil =>
    obtain ⟨inside, starts⟩ := occurs
    obtain rfl : b = 0 := Nat.le_zero.mp inside
    exact ⟨0, occursAt_zero.mpr (bytes_prefix_iff.mp starts), rfl⟩
  | cons c rest ih =>
    rcases Nat.lt_or_ge b (String.utf8EncodeChar c).length with within | behind
    · obtain ⟨d, more, rfl⟩ := List.exists_cons_of_ne_nil some
      have width : 0 < (String.utf8EncodeChar d).length := by simp [d.utf8Size_pos]
      obtain ⟨tail, same⟩ := occurs.2
      have first := congrArg (·[0]?) same
      simp only [bytes, List.flatMap_cons, List.append_assoc, List.getElem?_drop, Nat.add_zero] at first
      rw [List.getElem?_append_left width, List.getElem?_append_left within, List.getElem?_eq_getElem width,
        List.getElem?_eq_getElem within, Option.some_inj] at first
      have begins : (String.utf8EncodeChar c)[b].IsUTF8FirstByte :=
        first ▸ UInt8.isUTF8FirstByte_getElem_utf8EncodeChar.mpr rfl
      obtain rfl : b = 0 := UInt8.isUTF8FirstByte_getElem_utf8EncodeChar.mp begins
      exact ⟨0, occursAt_zero.mpr (bytes_prefix_iff.mp (occursAt_zero.mp occurs)), rfl⟩
    · obtain ⟨k, rfl⟩ := Nat.exists_eq_add_of_le behind
      obtain ⟨n, found, rfl⟩ := ih (occursAt_append.mp occurs)
      exact ⟨n + 1, occursAt_cons_succ.mpr found, by simp [bytes]⟩

theorem OccursAt.bytes {n : Nat} (occurs : OccursAt needle text n) :
    OccursAt (bytes needle) (bytes text) (bytes (text.take n)).length := by
  have split : Text.bytes text = Text.bytes (text.take n) ++ Text.bytes (text.drop n) := by
    rw [← bytes_append, List.take_append_drop]
  rw [split, ← Nat.add_zero (Text.bytes _).length, occursAt_append, occursAt_zero]
  exact bytes_prefix_iff.mpr occurs.2

/-- The first place of the needle is where its bytes stand first. -/
theorem FirstAt.bytes {n : Nat} (first : FirstAt needle text n) :
    FirstAt (bytes needle) (bytes text) (bytes (text.take n)).length := by
  refine ⟨first.1.bytes, fun b less occurs => ?_⟩
  by_cases empty : needle = []
  · -- The empty needle stands at the start.
    have start : n = 0 := Nat.le_zero.mp (first.le (occursAt_zero.mpr (empty ▸ List.nil_prefix)))
    simp [start, Text.bytes] at less
  · obtain ⟨m, found, rfl⟩ := occurs.of_bytes empty
    have within : text.take n <+: text.take m := by
      rw [← Nat.min_eq_left (first.le found), ← List.take_take]
      exact List.take_prefix _ _
    have := (bytes_prefix_iff.mpr within).length_le
    omega

theorem bytes_infix_iff : bytes needle <:+: bytes text ↔ needle <:+: text := by
  rw [← exists_occursAt_iff, ← exists_occursAt_iff]
  constructor
  · rintro ⟨b, occurs⟩
    by_cases empty : needle = []
    · exact ⟨0, occursAt_zero.mpr (empty ▸ List.nil_prefix)⟩
    · obtain ⟨n, found, -⟩ := occurs.of_bytes empty
      exact ⟨n, found⟩
  · rintro ⟨n, occurs⟩
    exact ⟨_, occurs.bytes⟩

end ScriptEngine.Text
