import Mathlib.Data.Set.Basic
import ScriptEngine.Proofs.Coherence

/-! # Equality of keys

Values that can be keys: without NaN, and with a hash code. On these the equality of the language is an equivalence,
and equal ones have one hash code, if that is so for the objects of the host. Neither looks into a list, a map, a set
or an instance. So a key stays what it is, whatever happens to these; only the objects of the host matter, and more of
them change nothing.
-/

namespace ScriptEngine

section

variable (rules : ObjectRules) (parts : Nat → Value × Value) (s : Store)

/-- A sound value with a hash code. -/
structure Store.IsKey (v : Value) : Prop where
  sound : v.IsSound parts s
  hashable : ∃ code, s.hashCode rules v = .ok code

/-- An object of the host with a hash code. -/
structure Store.IsHashable (r : Ref .object) : Prop where
  inside : r.index < s.objects.size
  hashable : ∃ code, s.hashCode rules (.object r) = .ok code

/-- On hashable objects the equality of the host is an equivalence, and equal ones have one hash code. -/
structure ObjectRules.IsLawful : Prop where
  refl : ∀ a, s.IsHashable rules a → s.sameObject rules a a = true
  symm : ∀ a b, s.IsHashable rules a → s.IsHashable rules b →
    s.sameObject rules a b = true → s.sameObject rules b a = true
  trans : ∀ a b c, s.IsHashable rules a → s.IsHashable rules b → s.IsHashable rules c →
    s.sameObject rules a b = true → s.sameObject rules b c = true → s.sameObject rules a c = true
  hash : ∀ a b, s.IsHashable rules a → s.IsHashable rules b →
    s.sameObject rules a b = true → s.hashCode rules (.object a) = s.hashCode rules (.object b)

end

/-- Objects that are known by their identity are lawful, whatever hash codes they have. -/
theorem ObjectRules.isLawful_of_identity {rules : ObjectRules}
    (identity : ∀ left right, rules.equals left right = decide (left.1 = right.1)) (s : Store) : rules.IsLawful s := by
  have same (a b : Ref .object) : s.sameObject rules a b = true ↔ a = b := by
    unfold Store.sameObject
    cases s.object a with
    | module => exact decide_eq_true_iff
    | host object =>
      dsimp only
      rw [identity]
      exact decide_eq_true_iff
  refine ⟨fun a _ => (same a a).mpr rfl, fun a b _ _ here => ?_, fun a b c _ _ _ first second => ?_,
    fun a b _ _ here => ?_⟩
  · exact (same b a).mpr ((same a b).mp here).symm
  · exact (same a c).mpr (((same a b).mp first).trans ((same b c).mp second))
  · rw [(same a b).mp here]

namespace Store

variable {rules : ObjectRules} {parts : Nat → Value × Value} {s w : Store} {a b c : Value}

theorem hashCode_pair_eq_ok {i : Nat} {code : HashCode} : s.hashCode rules (.pair i a b) = .ok code ↔
    ∃ first second, s.hashCode rules a = .ok first ∧ s.hashCode rules b = .ok second ∧ .pair first second = code := by
  rw [hashCode]
  cases s.hashCode rules a with
  | error e => exact iff_of_false (by rintro ⟨⟩) (by rintro ⟨_, _, ⟨⟩, _⟩)
  | ok first =>
    cases s.hashCode rules b with
    | error e => exact iff_of_false (by rintro ⟨⟩) (by rintro ⟨_, _, _, ⟨⟩, _⟩)
    | ok second =>
      change Except.ok _ = Except.ok _ ↔ _
      simp

theorem hashCode_method_eq_ok {id : ProcedureId} {code : HashCode} : s.hashCode rules (.method a id) = .ok code ↔
    ∃ receiver, s.hashCode rules a = .ok receiver ∧ .method id receiver = code := by
  rw [hashCode]
  cases s.hashCode rules a with
  | error e => exact iff_of_false (by rintro ⟨⟩) (by rintro ⟨_, ⟨⟩, _⟩)
  | ok receiver =>
    change Except.ok _ = Except.ok _ ↔ _
    simp

theorem IsKey.pair {i : Nat} (key : s.IsKey rules parts (.pair i a b)) :
    parts i = (a, b) ∧ s.IsKey rules parts a ∧ s.IsKey rules parts b := by
  obtain ⟨⟨same, left, right⟩, _, hashed⟩ := key
  obtain ⟨first, second, hashed, hashed', _⟩ := hashCode_pair_eq_ok.mp hashed
  exact ⟨same, ⟨left, first, hashed⟩, right, second, hashed'⟩

theorem IsKey.method {id : ProcedureId} (key : s.IsKey rules parts (.method a id)) : s.IsKey rules parts a := by
  obtain ⟨sound, _, hashed⟩ := key
  obtain ⟨receiver, hashed, _⟩ := hashCode_method_eq_ok.mp hashed
  exact ⟨sound, receiver, hashed⟩

theorem IsKey.object {r : Ref .object} (key : s.IsKey rules parts (.object r)) : s.IsHashable rules r :=
  ⟨key.sound, key.hashable⟩

end Store

/-- On keys equality and hash codes agree. -/
theorem ObjectRules.IsLawful.coheres {rules : ObjectRules} {s : Store} (lawful : rules.IsLawful s)
    (parts : Nat → Value × Value) : s.Coheres rules (s.IsKey rules parts) where
  number _ key := key.sound
  pair _ _ _ key := key.pair.2
  parts _ _ _ _ _ left right := Prod.mk.inj (left.pair.1.symm.trans right.pair.1)
  method _ _ key := key.method
  refl a key := lawful.refl a key.object
  symm a b left right same := lawful.symm a b left.object right.object same
  trans a b c keyA keyB keyC first second :=
    lawful.trans a b c keyA.object keyB.object keyC.object first second
  hash a b left right same := by
    rw [Store.hashCode?, Store.hashCode?, lawful.hash a b left.object right.object same]

namespace Store

variable {rules : ObjectRules} {parts : Nat → Value × Value} {s w : Store} {a b c : Value}

theorem equals_self (lawful : rules.IsLawful s) (key : s.IsKey rules parts a) : s.equals rules a a = true :=
  (lawful.coheres parts).equals_self key

theorem equals_symm (lawful : rules.IsLawful s) (left : s.IsKey rules parts a) (right : s.IsKey rules parts b)
    (same : s.equals rules a b = true) : s.equals rules b a = true :=
  (lawful.coheres parts).equals_symm left right same

theorem equals_trans (lawful : rules.IsLawful s) (keyA : s.IsKey rules parts a) (keyB : s.IsKey rules parts b)
    (keyC : s.IsKey rules parts c) (first : s.equals rules a b = true) (second : s.equals rules b c = true) :
    s.equals rules a c = true :=
  (lawful.coheres parts).equals_trans keyA keyB keyC first second

/-- Equal keys have one hash code. -/
theorem hashCode_eq_of_equals (lawful : rules.IsLawful s) (left : s.IsKey rules parts a)
    (right : s.IsKey rules parts b) (same : s.equals rules a b = true) : s.hashCode rules a = s.hashCode rules b := by
  obtain ⟨code, hashed⟩ := left.hashable
  have alike := (lawful.coheres parts).hashCode?_eq left right same
  rcases hashCode_alike alike with ⟨_, _, refused, _⟩ | ⟨_, here, there⟩
  · rw [hashed] at refused
    cases refused
  · rw [here, there]

/-- A store has the objects of another one, and perhaps more. -/
structure IsPartOf (s w : Store) : Prop where
  size : s.objects.size ≤ w.objects.size
  same : ∀ r : Ref .object, r.index < s.objects.size → w.object r = s.object r

theorem IsPartOf.refl (s : Store) : s.IsPartOf s := ⟨Nat.le_refl _, fun _ _ => rfl⟩

theorem IsPartOf.trans {u : Store} (first : s.IsPartOf u) (second : u.IsPartOf w) : s.IsPartOf w :=
  ⟨first.size.trans second.size, fun r inside =>
    (second.same r (inside.trans_le first.size)).trans (first.same r inside)⟩

variable (part : s.IsPartOf w)
include part

theorem IsPartOf.isSound (sound : a.IsSound parts s) : a.IsSound parts w := by
  induction a with
  | object r => exact Nat.lt_of_lt_of_le sound part.size
  | pair i x y ihx ihy => exact ⟨sound.1, ihx sound.2.1, ihy sound.2.2⟩
  | method receiver id ih => exact ih sound
  | _ => exact sound

theorem IsPartOf.hashCode_object_eq {r : Ref .object} (inside : r.index < s.objects.size) :
    w.hashCode rules (.object r) = s.hashCode rules (.object r) := by
  rw [hashCode, hashCode, part.same r inside]

theorem IsPartOf.hashCode_eq (sound : a.IsSound parts s) : w.hashCode rules a = s.hashCode rules a := by
  induction a with
  | object r => exact part.hashCode_object_eq sound
  | pair i x y ihx ihy => rw [hashCode, hashCode, ihx sound.2.1, ihy sound.2.2]
  | method receiver id ih => rw [hashCode, hashCode, ih sound]
  | _ => rfl

theorem IsPartOf.sameObject_eq {r q : Ref .object} (left : r.index < s.objects.size)
    (right : q.index < s.objects.size) : w.sameObject rules r q = s.sameObject rules r q := by
  rw [sameObject, sameObject, part.same r left, part.same q right]

theorem IsPartOf.equals_eq (left : a.IsSound parts s) (right : b.IsSound parts s) :
    w.equals rules a b = s.equals rules a b := by
  induction a generalizing b with
  | object r =>
    cases b with
    | object q => exact part.sameObject_eq left right
    | _ => rfl
  | pair i x y ihx ihy =>
    cases b with
    | pair => rw [equals, equals, ihx left.2.1 right.2.1, ihy left.2.2 right.2.2]
    | _ => rfl
  | method receiver id ih =>
    cases b with
    | method receiver' id' => rw [equals, equals, ih (b := receiver') left right]
    | _ => rfl
  | _ => cases b <;> rfl

theorem IsPartOf.isHashable {r : Ref .object} (hashable : s.IsHashable rules r) : w.IsHashable rules r :=
  ⟨hashable.inside.trans_le part.size, part.hashCode_object_eq hashable.inside ▸ hashable.hashable⟩

/-- What is lawful with more objects is lawful with fewer. -/
theorem IsPartOf.isLawful (lawful : rules.IsLawful w) : rules.IsLawful s where
  refl a key := by
    rw [← part.sameObject_eq key.inside key.inside]
    exact lawful.refl a (part.isHashable key)
  symm a b left right same := by
    rw [← part.sameObject_eq left.inside right.inside] at same
    rw [← part.sameObject_eq right.inside left.inside]
    exact lawful.symm a b (part.isHashable left) (part.isHashable right) same
  trans a b c keyA keyB keyC first second := by
    rw [← part.sameObject_eq keyA.inside keyB.inside] at first
    rw [← part.sameObject_eq keyB.inside keyC.inside] at second
    rw [← part.sameObject_eq keyA.inside keyC.inside]
    exact lawful.trans a b c (part.isHashable keyA) (part.isHashable keyB) (part.isHashable keyC) first second
  hash a b left right same := by
    rw [← part.sameObject_eq left.inside right.inside] at same
    have code := lawful.hash a b (part.isHashable left) (part.isHashable right) same
    rwa [part.hashCode_object_eq left.inside, part.hashCode_object_eq right.inside] at code

theorem IsPartOf.isKey (key : s.IsKey rules parts a) : w.IsKey rules parts a :=
  ⟨part.isSound key.sound, part.hashCode_eq key.sound ▸ key.hashable⟩

end Store

section

variable (rules : ObjectRules) (parts : Nat → Value × Value) (s : Store)

/-- The keys that are equal to a value. -/
def Store.keyClass (v : Value) : Set Value := { u | s.IsKey rules parts u ∧ s.equals rules v u = true }

/-- A key that was made of its value. -/
structure Store.HasKey (k : Key) : Prop where
  sound : k.value.IsSound parts s
  code : s.hashCode rules k.value = .ok k.code

end

namespace Store

variable {rules : ObjectRules} {parts : Nat → Value × Value} {s w : Store} {a b : Value} {k l : Key}

theorem keyClass_eq_iff (lawful : rules.IsLawful s) (left : s.IsKey rules parts a) (right : s.IsKey rules parts b) :
    s.keyClass rules parts a = s.keyClass rules parts b ↔ s.equals rules a b = true := by
  constructor
  · intro same
    have here : b ∈ s.keyClass rules parts b := ⟨right, equals_self lawful right⟩
    exact (same ▸ here).2
  · intro same
    ext u
    refine and_congr_right fun key => ⟨fun other => ?_, fun other => ?_⟩
    · exact equals_trans lawful right left key (equals_symm lawful left right same) other
    · exact equals_trans lawful left right key same other

theorem HasKey.isKey (key : s.HasKey rules parts k) : s.IsKey rules parts k.value := ⟨key.sound, k.code, key.code⟩

theorem IsPartOf.hasKey (part : s.IsPartOf w) (key : s.HasKey rules parts k) : w.HasKey rules parts k :=
  ⟨part.isSound key.sound, part.hashCode_eq key.sound ▸ key.code⟩

/-- The key of a value is one that was made of it. -/
theorem hasKey_of_key (sound : a.IsSound parts s) (made : s.key rules a = .ok k) :
    k.value = a ∧ s.HasKey rules parts k := by
  unfold key at made
  cases hashed : s.hashCode rules a with
  | error e =>
    rw [hashed] at made
    cases made
  | ok code =>
    rw [hashed] at made
    cases made
    exact ⟨rfl, sound, hashed⟩

/-- Two keys name one entry exactly if they are of one class, also when there are more objects. -/
theorem sameKey_iff (part : s.IsPartOf w) (lawful : rules.IsLawful w) (left : s.HasKey rules parts k)
    (right : s.HasKey rules parts l) :
    s.sameKey rules k l = true ↔ w.keyClass rules parts k.value = w.keyClass rules parts l.value := by
  rw [keyClass_eq_iff lawful (part.isKey left.isKey) (part.isKey right.isKey), part.equals_eq left.sound right.sound]
  unfold sameKey
  rw [Bool.and_eq_true, decide_eq_true_eq, and_iff_right_iff_imp]
  intro same
  have code := hashCode_eq_of_equals (part.isLawful lawful) left.isKey right.isKey same
  rw [left.code, right.code] at code
  exact Except.ok.inj code

end Store

end ScriptEngine
