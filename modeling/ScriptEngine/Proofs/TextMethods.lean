import ScriptEngine.Proofs.Occurrences
import ScriptEngine.Proofs.Positions

/-! # Methods of strings agree on positions

Sizes, indices and the places of occurrences all count characters, so the answers of one method can be given to
another one. What `indexOf` finds is where `substring` takes the needle from, substrings with a common end join, and the
parts that `split` makes are the text without the leftmost occurrences of the separator.
-/

namespace ScriptEngine

namespace Method

/-- The receiver answers a call of a built-in method with a value, and the store stays as it is. -/
def Answers (rules : ObjectRules) (store : Store) (receiver : Value) (name : String) (args : List Value)
    (answer : Value) : Prop :=
  call rules receiver name (.positional args) store = .ok answer store

variable {rules : ObjectRules} {store : Store} {s t : String}

theorem text_contains :
    Answers rules store (.string s) "contains" [.string t] (.bool (Text.occursIn t.toList s.toList)) := rfl

theorem text_indexOf :
    Answers rules store (.string s) "indexOf" [.string t] (positionValue (Text.indexOf? t.toList s.toList)) := rfl

theorem text_size : Answers rules store (.string s) "size" [] (sizeValue s.length) := by
  rw [← String.length_toList]
  rfl

theorem text_get {v : Value} {i : Nat} (denotes : v.Denotes i) (inside : i < s.toList.length) :
    Answers rules store (.string s) "get" [v] (.string (String.ofList [s.toList[i]])) := by
  change StoreM.ofExcept (store.index v s.toList.length >>= fun i =>
    pure (Value.string (String.ofList s.toList[i]?.toList))) store = _
  rw [denotes.index store inside]
  change EStateM.Result.ok (Value.string (String.ofList s.toList[i]?.toList)) store = _
  rw [List.getElem?_eq_getElem inside]
  rfl

/-- The substring between two positions. -/
def between (s : String) (a b : Nat) : String := String.ofList ((s.toList.drop a).take (b - a))

/-- A substring is asked for by two indices, of which the first is not behind the second. -/
theorem call_substring (v w : Value) :
    call rules (.string s) "substring" (.positional [v, w]) store =
      StoreM.ofExcept (store.index v (s.toList.length + 1) >>= fun a =>
        store.index w (s.toList.length + 1) >>= fun b =>
          if b < a then .error (.invalidArgument "substring" s!"end {b} is before start {a}")
          else pure (Value.string (between s a b))) store := rfl

theorem text_substring {v w : Value} {a b : Nat} (start : v.Denotes a) (stop : w.Denotes b) (le : a ≤ b)
    (inside : b ≤ s.toList.length) : Answers rules store (.string s) "substring" [v, w] (.string (between s a b)) := by
  rw [Answers, call_substring, start.index store (by omega), stop.index store (by omega)]
  change StoreM.ofExcept (if b < a then _ else _) store = _
  rw [if_neg (Nat.not_lt.mpr le)]
  rfl

/-- A substring stands in the text where it was taken from. -/
theorem occursAt_of_substring {v w : Value} {z : Int} (whole : v.asInteger? 32 = some z)
    (answer : Answers rules store (.string s) "substring" [v, w] (.string t)) :
    ∃ a : Nat, z = a ∧ Text.OccursAt t.toList s.toList a := by
  rw [Answers, call_substring, store.index_eq whole] at answer
  split at answer
  · cases answer
  · next inside =>
    obtain ⟨a, rfl⟩ := Int.eq_ofNat_of_zero_le (show 0 ≤ z by omega)
    refine ⟨a, rfl, by omega, ?_⟩
    rcases stop : store.index w (s.toList.length + 1) with e | b
    · rw [stop] at answer
      cases answer
    · rw [stop] at answer
      change StoreM.ofExcept (if b < a then _ else _) store = _ at answer
      split at answer
      · cases answer
      · obtain rfl : between s a b = t := by cases answer; rfl
        rw [between, String.toList_ofList]
        exact List.take_prefix _ _

theorem text_add : Answers rules store (.string s) "__add__" [.string t] (.string (s ++ t)) := by
  have itself : store.text? rules (.string t) = some t := by
    unfold Store.text?
    cases store.nesting <;> rfl
  change EStateM.bind (StoreM.ofOption (store.text? rules (.string t))) _ store = _
  rw [itself]
  rfl

/-- The parts of a string come in a new list. -/
theorem text_split (some : t ≠ "") :
    call rules (.string s) "split" (.positional [.string t]) store =
      .ok (.list ⟨store.lists.size⟩)
        (store.addList (((Text.splitOn t.toList s.toList).map String.ofList).map Value.string).toArray).2 := by
  have separates : t.isEmpty = false := by rwa [← Bool.not_eq_true, String.isEmpty_iff]
  change (if t.isEmpty = true then _ else _ : StoreM Value) store = _
  rw [separates, List.map_map]
  rfl

theorem between_append {a b c : Nat} (ab : a ≤ b) (bc : b ≤ c) : between s a b ++ between s b c = between s a c := by
  have width : c - a = (b - a) + (c - b) := by omega
  have behind : s.toList.drop b = (s.toList.drop a).drop (b - a) := by
    rw [List.drop_drop]
    congr 1
    omega
  rw [between, between, between, ← String.ofList_append, width, List.take_add, behind]

theorem between_eq_of_occursAt {i : Nat} (occurs : Text.OccursAt t.toList s.toList i) :
    between s i (i + t.toList.length) = t := by
  rw [between, Nat.add_sub_cancel_left, ← List.prefix_iff_eq_take.mp occurs.2, String.ofList_toList]

/-- The characters of a text, each as a string of its own, join to the text. -/
theorem join_singletons (cs : List Char) : String.join (cs.map fun c => String.ofList [c]) = String.ofList cs := by
  rw [← String.toList_inj, String.toList_join, String.toList_ofList, List.flatMap_map]
  simp

/-- What `contains` and `indexOf` answer for a needle, and what the one has to do with the other, with the bytes of the
texts and with `substring`. -/
structure Searches (rules : ObjectRules) (store : Store) (s t : String) (found : Bool) (place : Value) : Prop where
  contains : Answers rules store (.string s) "contains" [.string t] (.bool found)
  indexOf : Answers rules store (.string s) "indexOf" [.string t] place
  found_iff : found = true ↔ store.equals rules place (.number (-1)) = false
  /-- The needle is found exactly if its bytes stand in a row among those of the text. -/
  found_iff_bytes : found = true ↔ Text.bytes t.toList <:+: Text.bytes s.toList
  found_iff_denotes : found = true ↔ ∃ i, place.Denotes i
  /-- The place counts the characters before the first place of those bytes. -/
  first_bytes : ∀ i, place.Denotes i →
    Text.FirstAt (Text.bytes t.toList) (Text.bytes s.toList) (Text.bytes (s.toList.take i)).length
  /-- From the place on and as long as the needle, the substring is the needle. -/
  taken : ∀ i, place.Denotes i → ∃ size stop, Answers rules store (.string t) "size" [] size ∧
    Answers rules store place "__add__" [size] stop ∧
    Answers rules store (.string s) "substring" [place, stop] (.string t)
  /-- No substring from a smaller index on is the needle. -/
  smallest : ∀ i, place.Denotes i → ∀ (v : Value) (j : Int), v.asInteger? 32 = some j → j < i →
    ∀ stop, ¬Answers rules store (.string s) "substring" [v, stop] (.string t)

theorem text_searches (rules : ObjectRules) (store : Store) (short : s.length < 2 ^ 31) (t : String) :
    ∃ found place, Searches rules store s t found place := by
  have sameBytes : Text.occursIn t.toList s.toList = true ↔ Text.bytes t.toList <:+: Text.bytes s.toList :=
    Text.occursIn_iff.trans Text.bytes_infix_iff.symm
  rw [← String.length_toList] at short
  rcases search : Text.indexOf? t.toList s.toList with _ | i
  · have place : Answers rules store (.string s) "indexOf" [.string t] (.number (-1)) := by
      have answer : Answers rules store (.string s) "indexOf" [.string t] _ := text_indexOf
      rwa [search] at answer
    have absent : Text.occursIn t.toList s.toList = false := by rw [Text.occursIn, search]; rfl
    refine ⟨_, _, text_contains, place, ?_, sameBytes, ?_, ?_, ?_, ?_⟩
    · simp [absent, Store.equals, Number.equal_neg_one_self]
    · simp [absent, Value.Denotes.not_neg_one]
    all_goals exact fun i denotes => absurd denotes Value.Denotes.not_neg_one
  · have place : Answers rules store (.string s) "indexOf" [.string t] (sizeValue i) := by
      have answer : Answers rules store (.string s) "indexOf" [.string t] _ := text_indexOf
      rwa [search] at answer
    have present : Text.occursIn t.toList s.toList = true := by rw [Text.occursIn, search]; rfl
    have first := Text.indexOf?_eq_some_iff.mp search
    have inside := first.1.add_le
    have denotes : (sizeValue i).Denotes i := .sizeValue (by omega)
    refine ⟨_, _, text_contains, place, ?_, sameBytes, ?_, fun j other => ?_, fun j other => ?_, fun j other => ?_⟩
    · simp [present, sizeValue, Store.equals, Number.equal_neg_one (i := i) (by omega)]
    · exact ⟨fun _ => ⟨i, denotes⟩, fun _ => present⟩
    · obtain rfl := other.unique denotes
      exact first.bytes
    · have size : Answers rules store (.string t) "size" [] (sizeValue t.toList.length) := by
        rw [String.length_toList]
        exact text_size
      have taken : Answers rules store (.string s) "substring" _ _ := text_substring denotes
        (.sizeValue (i := i + t.toList.length) (by omega)) (Nat.le_add_right _ _) inside
      rw [between_eq_of_occursAt first.1] at taken
      exact ⟨_, _, size, sizeValue_add (by omega), taken⟩
    · obtain rfl := other.unique denotes
      intro v z whole less stop answer
      obtain ⟨a, rfl, occurs⟩ := occursAt_of_substring whole answer
      exact first.2 a (by omega) occurs

/-- What `split` answers for a separator that is not empty: a new list of parts. -/
structure Splits (rules : ObjectRules) (store : Store) (s t : String) (r : Ref .list) (after : Store)
    (parts : List String) : Prop where
  split : call rules (.string s) "split" (.positional [.string t]) store = .ok (.list r) after
  items : after.list r = (parts.map Value.string).toArray
  joined : t.intercalate parts = s
  absent : ∀ part ∈ parts, Answers rules after (.string part) "contains" [.string t] (.bool false)
  /-- One part more than occurrences that do not overlap, each the leftmost behind the one before. -/
  count : ∃ places, Text.Leftmost t.toList s.toList 0 places ∧
    (∀ others, Text.Leftmost t.toList s.toList 0 others → others = places) ∧ parts.length = places.length + 1

theorem text_splits (rules : ObjectRules) (store : Store) (s : String) (some : t ≠ "") :
    ∃ r after parts, Splits rules store s t r after parts := by
  have some' : t.toList ≠ [] := by simpa using some
  have parted := Text.splitOn_parted some' s.toList
  obtain ⟨places, leftmost, count⟩ := parted.leftmost []
  refine ⟨_, _, (Text.splitOn t.toList s.toList).map String.ofList, text_split some, ?_, ?_, ?_,
    places, leftmost, fun others other => other.unique leftmost, ?_⟩
  · simp [Store.addList, Store.list]
  · have same : String.toList ∘ String.ofList = id := funext fun _ => String.toList_ofList
    rw [← String.toList_inj, String.toList_intercalate, List.map_map, same, List.map_id, parted.intercalate_eq]
  · intro part member
    obtain ⟨cs, among, rfl⟩ := List.mem_map.mp member
    have absent : Text.occursIn t.toList (String.ofList cs).toList = false := by
      rw [← Bool.not_eq_true, Text.occursIn_iff, String.toList_ofList]
      exact parted.not_infix some' cs among
    rw [← absent]
    exact text_contains
  · rw [List.length_map, count]

/-- The methods of a string of less than two to the thirty-first characters agree on its positions. The needle of a
search is found exactly where `substring` takes it from; substrings with a position in common join to the substring from
the first position to the last; the characters that `get` yields for all indices below the size join to the string; and
so do the parts of `split` with the separator between them. -/
theorem text_methods_agree (rules : ObjectRules) (store : Store) {s : String} (short : s.length < 2 ^ 31) (t : String) :
    (∃ found place, Searches rules store s t found place) ∧
    (∀ a b c : Nat, a ≤ b → b ≤ c → c ≤ s.length →
      ∀ va vb vc : Value, va.Denotes a → vb.Denotes b → vc.Denotes c →
        ∃ left right whole, Answers rules store (.string s) "substring" [va, vb] left ∧
          Answers rules store (.string s) "substring" [vb, vc] right ∧
          Answers rules store left "__add__" [right] whole ∧
          Answers rules store (.string s) "substring" [va, vc] whole) ∧
    (∃ pieces : List String, Answers rules store (.string s) "size" [] (sizeValue pieces.length) ∧
      (∀ (i : Nat) (inside : i < pieces.length) (v : Value), v.Denotes i →
        Answers rules store (.string s) "get" [v] (.string pieces[i])) ∧
      String.join pieces = s) ∧
    (t ≠ "" → ∃ r after parts, Splits rules store s t r after parts) := by
  refine ⟨text_searches rules store short t, ?_, ?_, text_splits rules store s⟩
  · intro a b c ab bc inside va vb vc first second third
    rw [← String.length_toList] at inside
    refine ⟨_, _, _, text_substring first second ab (by omega), text_substring second third bc inside, text_add, ?_⟩
    rw [between_append ab bc]
    exact text_substring first third (Nat.le_trans ab bc) inside
  · refine ⟨s.toList.map fun c => String.ofList [c], ?_, fun i inside v denotes => ?_, ?_⟩
    · rw [List.length_map, String.length_toList]
      exact text_size
    · rw [List.getElem_map]
      exact text_get denotes (by simpa using inside)
    · rw [join_singletons, String.ofList_toList]

/-- Characters of more than one byte, and a separator that could overlap itself. -/
theorem overlaps_agree :
    "é😀aaaé".length < 2 ^ 31 ∧
    (∃ found place, Searches .identity .empty "é😀aaaé" "aa" found place) ∧
    (∃ left right whole, Answers .identity .empty (.string "é😀aaaé") "substring" [sizeValue 0, sizeValue 1] left ∧
      Answers .identity .empty (.string "é😀aaaé") "substring" [sizeValue 1, sizeValue 6] right ∧
      Answers .identity .empty left "__add__" [right] whole ∧
      Answers .identity .empty (.string "é😀aaaé") "substring" [sizeValue 0, sizeValue 6] whole) ∧
    ∃ r after parts, Splits .identity .empty "é😀aaaé" "aa" r after parts := by
  have short : "é😀aaaé".length < 2 ^ 31 := by decide
  obtain ⟨searches, substrings, -, splits⟩ := text_methods_agree .identity .empty short "aa"
  exact ⟨short, searches,
    substrings 0 1 6 (by decide) (by decide) (by decide) _ _ _ (.sizeValue (by decide)) (.sizeValue (by decide))
      (.sizeValue (by decide)),
    splits (by decide)⟩

end Method

end ScriptEngine
