import ScriptEngine.Store.Equality

/-! # Equality and hash codes

Away from NaN the equality of the language is an equivalence, and equal values have one hash code or none. Of
the objects of the host only this much is needed: that their own equality is an equivalence, and that equal
ones have one hash key or none. The arguments are about any class of values that is closed under parts, so
that they serve all values without NaN as well as those that can be keys.
-/

namespace ScriptEngine

namespace Number

variable {x y z : Float}

theorem equal_self (number : isNaN x = false) : equal x x = true := by
  simp [equal, number]

theorem equal_symm (same : equal x y = true) : equal y x = true := by
  simp only [equal, Bool.and_eq_true, Bool.or_eq_true, beq_iff_eq] at same ⊢
  obtain ⟨⟨left, right⟩, bits | zeros⟩ := same
  · exact ⟨⟨right, left⟩, .inl bits.symm⟩
  · exact ⟨⟨right, left⟩, .inr zeros.symm⟩

theorem isZero_eq (bits : x.toBits = y.toBits) : isZero x = isZero y := by
  rw [isZero, magnitude, bits]
  rfl

theorem equal_trans (first : equal x y = true) (second : equal y z = true) : equal x z = true := by
  simp only [equal, Bool.and_eq_true, Bool.or_eq_true, beq_iff_eq] at first second ⊢
  obtain ⟨⟨left, _⟩, bits | ⟨zero, zero'⟩⟩ := first
  · refine ⟨⟨left, second.1.2⟩, ?_⟩
    rw [bits, isZero_eq bits]
    exact second.2
  · refine ⟨⟨left, second.1.2⟩, .inr ⟨zero, ?_⟩⟩
    obtain bits | zeros := second.2
    · exact isZero_eq bits ▸ zero'
    · exact zeros.2

/-- Equal numbers have one hash code, also the two zeros. -/
theorem code_eq_of_equal (same : equal x y = true) :
    (if isZero x then 0 else x.toBits) = if isZero y then 0 else y.toBits := by
  simp only [equal, Bool.and_eq_true, Bool.or_eq_true, beq_iff_eq] at same
  obtain ⟨_, bits | ⟨zero, zero'⟩⟩ := same
  · rw [isZero_eq bits, bits]
  · rw [if_pos zero, if_pos zero']

end Number

/-- A value without NaN, whose objects are there, and whose pairs have the parts that belong to their identities. -/
def Value.IsSound (parts : Nat → Value × Value) (s : Store) : Value → Prop
  | .number n => Number.isNaN n = false
  | .pair i a b => parts i = (a, b) ∧ a.IsSound parts s ∧ b.IsSound parts s
  | .method receiver _ => receiver.IsSound parts s
  | .object r => r.index < s.objects.size
  | _ => True

/-- Whether a value is no number, no object and has no parts. -/
def Value.isAtom : Value → Bool
  | .number _ | .object _ | .pair .. | .method .. => false
  | _ => true

/-- The hash key of an object, if it has one. A module has none. -/
def Object.hashKey? (rules : ObjectRules) : Object → Option Nat
  | .module .. => none
  | .host object => rules.hashKey object

namespace Store

section

variable (rules : ObjectRules) (s : Store)

/-- The hash code of a value, if it has one. -/
def hashCode? (v : Value) : Option HashCode := (s.hashCode rules v).toOption

/-- A class of values without NaN that has the parts of its values and knows a pair by its identity. On the
objects in it the equality of the host is an equivalence, and equal ones have one hash code or none. -/
structure Coheres (K : Value → Prop) : Prop where
  number : ∀ n, K (.number n) → Number.isNaN n = false
  pair : ∀ i a b, K (.pair i a b) → K a ∧ K b
  parts : ∀ i a b c d, K (.pair i a b) → K (.pair i c d) → a = c ∧ b = d
  method : ∀ receiver id, K (.method receiver id) → K receiver
  refl : ∀ a, K (.object a) → s.sameObject rules a a = true
  symm : ∀ a b, K (.object a) → K (.object b) → s.sameObject rules a b = true → s.sameObject rules b a = true
  trans : ∀ a b c, K (.object a) → K (.object b) → K (.object c) →
    s.sameObject rules a b = true → s.sameObject rules b c = true → s.sameObject rules a c = true
  hash : ∀ a b, K (.object a) → K (.object b) → s.sameObject rules a b = true →
    s.hashCode? rules (.object a) = s.hashCode? rules (.object b)

end

variable {rules : ObjectRules} {s : Store} {a b c : Value}

theorem hashCode?_object (r : Ref .object) :
    s.hashCode? rules (.object r) = ((s.object r).hashKey? rules).map .object := by
  unfold hashCode? hashCode Object.hashKey?
  cases s.object r with
  | module => rfl
  | host object =>
    dsimp only
    cases rules.hashKey object <;> rfl

theorem hashCode?_pair (i : Nat) : s.hashCode? rules (.pair i a b) =
    (s.hashCode? rules a).bind fun first => (s.hashCode? rules b).map (.pair first) := by
  unfold hashCode?
  rw [hashCode]
  cases s.hashCode rules a with
  | error e => rfl
  | ok first => cases s.hashCode rules b <;> rfl

theorem hashCode?_method (id : ProcedureId) :
    s.hashCode? rules (.method a id) = (s.hashCode? rules a).map (.method id) := by
  unfold hashCode?
  rw [hashCode]
  cases s.hashCode rules a <;> rfl

/-- Two values with one hash code or none: both are refused as keys, or both have that code. -/
theorem hashCode_alike (same : s.hashCode? rules a = s.hashCode? rules b) :
    (∃ e e', s.hashCode rules a = .error e ∧ s.hashCode rules b = .error e') ∨
      ∃ code, s.hashCode rules a = .ok code ∧ s.hashCode rules b = .ok code := by
  unfold hashCode? at same
  cases left : s.hashCode rules a with
  | error e =>
    cases right : s.hashCode rules b with
    | error e' => exact .inl ⟨e, e', rfl, rfl⟩
    | ok code =>
      rw [left, right] at same
      cases same
  | ok code =>
    cases right : s.hashCode rules b with
    | error e' =>
      rw [left, right] at same
      cases same
    | ok code' =>
      rw [left, right] at same
      cases same
      exact .inr ⟨code, rfl, rfl⟩

/-- Equality with a value that is no number, no object and has no parts is identity. -/
theorem equals_atom_iff (atom : a.isAtom = true) : s.equals rules a b = true ↔ a = b := by
  cases a with
  | number | object | pair | method => cases atom
  | _ => cases b <;> simp [equals]

/-- Values of different kinds are never equal. -/
theorem kind_eq_of_equals (same : s.equals rules a b = true) : a.ctorIdx = b.ctorIdx := by
  cases a with
  | number => cases b <;> first | rfl | nomatch same
  | object => cases b <;> first | rfl | nomatch same
  | pair => cases b <;> first | rfl | nomatch same
  | method => cases b <;> first | rfl | nomatch same
  | _ => rw [(equals_atom_iff rfl).mp same]

namespace Coheres

variable {K : Value → Prop} (coheres : s.Coheres rules K)
include coheres

theorem equals_self (here : K a) : s.equals rules a a = true := by
  induction a with
  | number n => exact Number.equal_self (coheres.number n here)
  | object r => exact coheres.refl r here
  | pair i a b => simp [equals]
  | method receiver id ih => simp [equals, ih (coheres.method receiver id here)]
  | _ => simp [equals]

theorem equals_symm (left : K a) (right : K b) (same : s.equals rules a b = true) :
    s.equals rules b a = true := by
  induction a generalizing b with
  | number n =>
    cases b with
    | number => exact Number.equal_symm same
    | _ => nomatch same
  | object r =>
    cases b with
    | object => exact coheres.symm _ _ left right same
    | _ => nomatch same
  | pair i x y ihx ihy =>
    cases b with
    | pair j x' y' =>
      simp only [equals, Bool.or_eq_true, Bool.and_eq_true, beq_iff_eq] at same ⊢
      obtain ⟨leftX, leftY⟩ := coheres.pair i x y left
      obtain ⟨rightX, rightY⟩ := coheres.pair j x' y' right
      exact same.imp Eq.symm fun ⟨first, second⟩ => ⟨ihx leftX rightX first, ihy leftY rightY second⟩
    | _ => nomatch same
  | method receiver id ih =>
    cases b with
    | method receiver' id' =>
      simp only [equals, Bool.and_eq_true, decide_eq_true_eq] at same ⊢
      exact ⟨same.1.symm, ih (coheres.method _ _ left) (coheres.method _ _ right) same.2⟩
    | _ => nomatch same
  | _ =>
    cases (equals_atom_iff rfl).mp same
    exact same

theorem equals_trans (inA : K a) (inB : K b) (inC : K c) (first : s.equals rules a b = true)
    (second : s.equals rules b c = true) : s.equals rules a c = true := by
  induction a generalizing b c with
  | number n =>
    cases b with
    | number =>
      cases c with
      | number => exact Number.equal_trans first second
      | _ => nomatch second
    | _ => nomatch first
  | object r =>
    cases b with
    | object =>
      cases c with
      | object => exact coheres.trans _ _ _ inA inB inC first second
      | _ => nomatch second
    | _ => nomatch first
  | pair i x y ihx ihy =>
    cases b with
    | pair j x' y' =>
      cases c with
      | pair k x'' y'' =>
        obtain ⟨aX, aY⟩ := coheres.pair i x y inA
        obtain ⟨bX, bY⟩ := coheres.pair j x' y' inB
        obtain ⟨cX, cY⟩ := coheres.pair k x'' y'' inC
        simp only [equals, Bool.or_eq_true, Bool.and_eq_true, beq_iff_eq] at first second ⊢
        -- One identity has the same parts on both sides, so parts can stand for it.
        rcases first with rfl | ⟨firstX, firstY⟩
        · obtain ⟨rfl, rfl⟩ := coheres.parts _ _ _ _ _ inA inB
          exact second
        · rcases second with rfl | ⟨secondX, secondY⟩
          · obtain ⟨rfl, rfl⟩ := coheres.parts _ _ _ _ _ inB inC
            exact .inr ⟨firstX, firstY⟩
          · exact .inr ⟨ihx aX bX cX firstX secondX, ihy aY bY cY firstY secondY⟩
      | _ => nomatch second
    | _ => nomatch first
  | method receiver id ih =>
    cases b with
    | method receiver' id' =>
      cases c with
      | method receiver'' id'' =>
        simp only [equals, Bool.and_eq_true, decide_eq_true_eq] at first second ⊢
        have receivers := ih (coheres.method _ _ inA) (coheres.method _ _ inB) (coheres.method _ _ inC)
        exact ⟨first.1.trans second.1, receivers first.2 second.2⟩
      | _ => nomatch second
    | _ => nomatch first
  | _ =>
    cases (equals_atom_iff rfl).mp first
    exact second

/-- Equal values have one hash code or none. -/
theorem hashCode?_eq (left : K a) (right : K b) (same : s.equals rules a b = true) :
    s.hashCode? rules a = s.hashCode? rules b := by
  induction a generalizing b with
  | number n =>
    cases b with
    | number => exact congrArg (fun bits => some (HashCode.number bits)) (Number.code_eq_of_equal same)
    | _ => nomatch same
  | object r =>
    cases b with
    | object => exact coheres.hash _ _ left right same
    | _ => nomatch same
  | pair i x y ihx ihy =>
    cases b with
    | pair j x' y' =>
      obtain ⟨leftX, leftY⟩ := coheres.pair i x y left
      obtain ⟨rightX, rightY⟩ := coheres.pair j x' y' right
      simp only [equals, Bool.or_eq_true, Bool.and_eq_true, beq_iff_eq] at same
      rw [hashCode?_pair, hashCode?_pair]
      rcases same with rfl | ⟨first, second⟩
      · obtain ⟨rfl, rfl⟩ := coheres.parts _ _ _ _ _ left right
        rfl
      · rw [ihx leftX rightX first, ihy leftY rightY second]
    | _ => nomatch same
  | method receiver id ih =>
    cases b with
    | method receiver' id' =>
      simp only [equals, Bool.and_eq_true, decide_eq_true_eq] at same
      rw [hashCode?_method, hashCode?_method, same.1]
      rw [ih (coheres.method _ _ left) (coheres.method _ _ right) same.2]
    | _ => nomatch same
  | _ =>
    cases (equals_atom_iff rfl).mp same
    rfl

end Coheres

end Store

/-- On the objects of a store equality is an equivalence, and equal ones have one hash key or none. -/
structure ObjectRules.IsCoherent (rules : ObjectRules) (s : Store) : Prop where
  equivalence : Equivalence fun a b : { r : Ref .object // r.index < s.objects.size } =>
    s.sameObject rules a b = true
  hashKey : ∀ a b : Ref .object, a.index < s.objects.size → b.index < s.objects.size →
    s.sameObject rules a b = true → (s.object a).hashKey? rules = (s.object b).hashKey? rules

theorem ObjectRules.IsCoherent.coheres {rules : ObjectRules} {s : Store} (coherent : rules.IsCoherent s)
    (parts : Nat → Value × Value) : s.Coheres rules (Value.IsSound parts s) where
  number _ sound := sound
  pair _ _ _ sound := sound.2
  parts i a b c d left right := Prod.mk.inj (left.1.symm.trans right.1)
  method _ _ sound := sound
  refl a inside := coherent.equivalence.refl ⟨a, inside⟩
  symm a b left right same := coherent.equivalence.symm (x := ⟨a, left⟩) (y := ⟨b, right⟩) same
  trans a b c inA inB inC first second :=
    coherent.equivalence.trans (x := ⟨a, inA⟩) (y := ⟨b, inB⟩) (z := ⟨c, inC⟩) first second
  hash a b left right same := by
    rw [Store.hashCode?_object, Store.hashCode?_object, coherent.hashKey a b left right same]

/-- Equality and hash codes are coherent: on values without NaN equality is an equivalence, it holds between
values of one kind only, and of two equal values either both have the same hash code or both have none. -/
theorem Store.equality_coherent {rules : ObjectRules} {s : Store} (coherent : rules.IsCoherent s)
    (parts : Nat → Value × Value) :
    (Equivalence fun a b : { v : Value // v.IsSound parts s } => s.equals rules a b = true) ∧
      (∀ a b : Value, s.equals rules a b = true → a.ctorIdx = b.ctorIdx) ∧
      ∀ a b : Value, a.IsSound parts s → b.IsSound parts s → s.equals rules a b = true →
        (∃ e e', s.hashCode rules a = .error e ∧ s.hashCode rules b = .error e') ∨
          ∃ code, s.hashCode rules a = .ok code ∧ s.hashCode rules b = .ok code := by
  have coheres := coherent.coheres parts
  refine ⟨⟨fun a => ?_, fun {a b} same => ?_, fun {a b c} first second => ?_⟩, ?_, ?_⟩
  · exact coheres.equals_self a.2
  · exact coheres.equals_symm a.2 b.2 same
  · exact coheres.equals_trans a.2 b.2 c.2 first second
  · intro a b same
    exact kind_eq_of_equals same
  · intro a b left right same
    exact hashCode_alike (coheres.hashCode?_eq left right same)

/-- Objects that are equal if they are of one kind. Those of one of the kinds are no keys. -/
def ObjectRules.byKind : ObjectRules where
  describe := plainText
  hashKey object := if object.kind = "opaque" then none else some object.kind.length
  equals left right :=
    match right.2 with
    | .module .. => false
    | .host object => left.2.kind = object.kind

theorem ObjectRules.byKind_isCoherent (s : Store) : byKind.IsCoherent s := by
  have same (a b : Ref .object) : s.sameObject byKind a b = true ↔
      (∃ name members, s.object a = .module name members) ∧ a = b ∨
        ∃ x y, s.object a = .host x ∧ s.object b = .host y ∧ x.kind = y.kind := by
    unfold Store.sameObject
    cases s.object a with
    | module name members => simp
    | host x => cases s.object b <;> simp [byKind]
  constructor
  · constructor
    · rintro ⟨a, inside⟩
      apply (same a a).mpr
      cases s.object a with
      | module name members => exact .inl ⟨⟨name, members, rfl⟩, rfl⟩
      | host x => exact .inr ⟨x, x, rfl, rfl, rfl⟩
    · rintro ⟨a, _⟩ ⟨b, _⟩ here
      apply (same b a).mpr
      rcases (same a b).mp here with ⟨isModule, rfl⟩ | ⟨x, y, left, right, kinds⟩
      · exact .inl ⟨isModule, rfl⟩
      · exact .inr ⟨y, x, right, left, kinds.symm⟩
    · rintro ⟨a, _⟩ ⟨b, _⟩ ⟨c, _⟩ first second
      apply (same a c).mpr
      rcases (same a b).mp first with ⟨isModule, rfl⟩ | ⟨x, y, left, right, kinds⟩
      · exact (same a c).mp second
      · rcases (same b c).mp second with ⟨⟨name, members, isModule⟩, _⟩ | ⟨y', z, left', right', kinds'⟩
        · rw [right] at isModule
          cases isModule
        · rw [right] at left'
          cases left'
          exact .inr ⟨x, z, left, right', kinds.trans kinds'⟩
  · intro a b _ _ here
    rcases (same a b).mp here with ⟨_, rfl⟩ | ⟨x, y, left, right, kinds⟩
    · rfl
    · simp [left, right, Object.hashKey?, byKind, kinds]

/-- Two objects of one kind, each in a pair with one of the two zeros, as receivers of one procedure. -/
theorem Store.twoZeros_coherent :
    ∃ (s : Store) (parts : Nat → Value × Value) (a b : Value), ObjectRules.byKind.IsCoherent s ∧
      a.IsSound parts s ∧ b.IsSound parts s ∧ s.equals ObjectRules.byKind a b = true ∧
      ((∃ e e', s.hashCode ObjectRules.byKind a = .error e ∧ s.hashCode ObjectRules.byKind b = .error e') ∨
        ∃ code, s.hashCode ObjectRules.byKind a = .ok code ∧ s.hashCode ObjectRules.byKind b = .ok code) := by
  let cell : Object := .host ⟨"cell", .empty⟩
  let s : Store := ((Store.empty.addObject cell).2.addObject cell).2
  let zero (i : Nat) : Float := if i = 0 then 0 else -0
  let parts (i : Nat) : Value × Value := (.object ⟨i⟩, .number (zero i))
  let bound (i : Nat) : Value := .method (.pair i (.object ⟨i⟩) (.number (zero i))) ⟨0, 0⟩
  have coherent : ObjectRules.byKind.IsCoherent s := ObjectRules.byKind_isCoherent s
  have inside : 0 < s.objects.size ∧ 1 < s.objects.size := by decide +kernel
  have zeros : Number.isNaN (zero 0) = false ∧ Number.isNaN (zero 1) = false := by decide +kernel
  have left : (bound 0).IsSound parts s := ⟨rfl, inside.1, zeros.1⟩
  have right : (bound 1).IsSound parts s := ⟨rfl, inside.2, zeros.2⟩
  have same : s.equals ObjectRules.byKind (bound 0) (bound 1) = true := by decide +kernel
  exact ⟨s, parts, bound 0, bound 1, coherent, left, right, same,
    (equality_coherent coherent parts).2.2 _ _ left right same⟩

end ScriptEngine
