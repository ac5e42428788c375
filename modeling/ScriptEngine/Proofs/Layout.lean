import ScriptEngine.Proofs.Grammar

/-! # The layout of compiled code

What is on the stack, and which guarded regions are open, depends only on where a run stands in compiled
code. A shape says so for one index; a layout gives every index a shape, so that an instruction leads from
the shape of its index to the shapes of those where the run may go on, the handler of the region it is in
among them. `Balanced.layout` makes the layout of a whole list out of those of its parts.
-/

namespace ScriptEngine

/-- A list of instructions that stands at an index of a code. -/
def Segment (code : Array Instruction) (lo : Nat) (is : List Instruction) : Prop :=
  ∃ before after, code.toList = before ++ is ++ after ∧ before.length = lo

namespace Segment

variable {code : Array Instruction} {lo : Nat} {i : Instruction} {is a b : List Instruction}

theorem whole (code : Array Instruction) : Segment code 0 code.toList := ⟨[], [], by simp, rfl⟩

theorem cast {lo' : Nat} (seg : Segment code lo is) (same : lo = lo') : Segment code lo' is := same ▸ seg

theorem left (seg : Segment code lo (a ++ b)) : Segment code lo a := by
  obtain ⟨before, after, same, here⟩ := seg
  exact ⟨before, b ++ after, by simp [same], here⟩

theorem right (seg : Segment code lo (a ++ b)) : Segment code (lo + a.length) b := by
  obtain ⟨before, after, same, here⟩ := seg
  exact ⟨before ++ a, after, by simp [same], by simp [here]⟩

theorem tail (seg : Segment code lo (i :: is)) : Segment code (lo + 1) is := right (a := [i]) seg

theorem head (seg : Segment code lo (i :: is)) : code[lo]? = some i := by
  obtain ⟨before, after, same, here⟩ := seg
  rw [← Array.getElem?_toList, same, List.append_assoc, List.getElem?_append_right (by omega)]
  simp [here]

theorem inside (seg : Segment code lo is) : lo + is.length ≤ code.size := by
  obtain ⟨before, after, same, here⟩ := seg
  have := congrArg List.length same
  simp only [Array.length_toList, List.length_append] at this
  omega

end Segment

/-- Where a relative offset leads. -/
theorem landing?_relative {source target size : Nat} {n : Int} (same : (target : Int) = source + n)
    (inside : target ≤ size) : landing? source (.relative n) size = some (.index target) := by
  rw [landing?, if_pos ⟨by omega, by omega⟩]
  congr 2
  omega

/-- What is known of a value on the stack: that it is a string that names a variable, or nothing. -/
inductive Kind where
  | name
  | any
deriving DecidableEq, Repr

/-- The operand stack, top first, and the handlers of the open regions, innermost first. -/
structure Shape where
  stack : List Kind
  handlers : List Nat
deriving DecidableEq, Repr

/-- A procedure that has just been entered. -/
def Shape.start : Shape := ⟨[], []⟩

/-- Where an error leads: to the innermost handler, with nothing but a message on the stack. -/
def unwound : List Nat → List (Nat × Shape)
  | [] => []
  | t :: outer => [(t, ⟨[.any], outer⟩)]

/-- The shapes that an instruction leads to, with their indices, if it does not fail. Guarded regions open,
and markers stand, only where the stack is empty. -/
inductive Flows (size : Nat) : Instruction → Nat → Shape → List (Nat × Shape) → Prop
  | value (v : Value) (pc : Nat) (σ : List Kind) (η : List Nat) :
    Flows size (.value v) pc ⟨σ, η⟩ [(pc + 1, ⟨.any :: σ, η⟩)]
  | name (s : String) (pc : Nat) (σ : List Kind) (η : List Nat) :
    Flows size (.value (.string s)) pc ⟨σ, η⟩ [(pc + 1, ⟨.name :: σ, η⟩)]
  | load (name : String) (place : Position) (pc : Nat) (σ : List Kind) (η : List Nat) :
    Flows size (.load name place) pc ⟨σ, η⟩ [(pc + 1, ⟨.any :: σ, η⟩)]
  | assign {site : CallSite} (named : site.name = "set") (two : site.argc = 2) (k : Kind) (pc : Nat)
    (σ : List Kind) (η : List Nat) :
    Flows size (.call site) pc ⟨k :: .name :: σ, η⟩ [(pc + 1, ⟨σ, η⟩)]
  | call {site : CallSite} (named : site.name ≠ "set") {args : List Kind}
    (count : args.length = site.argc) (pc : Nat) (σ : List Kind) (η : List Nat) :
    Flows size (.call site) pc ⟨args ++ σ, η⟩ [(pc + 1, ⟨.any :: σ, η⟩)]
  | send {site : CallSite} {args : List Kind} (count : args.length = site.argc + 1) (pc : Nat)
    (σ : List Kind) (η : List Nat) :
    Flows size (.send site) pc ⟨args ++ σ, η⟩ [(pc + 1, ⟨.any :: σ, η⟩)]
  | jump {offset : Offset} {pc target : Nat} (lands : landing? pc offset size = some (.index target))
    (σ : List Kind) (η : List Nat) :
    Flows size (.branch .always offset) pc ⟨σ, η⟩ [(target, ⟨σ, η⟩)]
  | test {kind : BranchKind} (conditional : kind ≠ .always) {offset : Offset} {pc target : Nat}
    (lands : landing? pc offset size = some (.index target)) (k : Kind) (σ : List Kind)
    (η : List Nat) :
    Flows size (.branch kind offset) pc ⟨k :: σ, η⟩ [(pc + 1, ⟨σ, η⟩), (target, ⟨σ, η⟩)]
  | ret (pc : Nat) (k : Kind) (σ : List Kind) (η : List Nat) :
    Flows size (.branch .always .exit) pc ⟨k :: σ, η⟩ []
  | stop (index : Nat) (lines : Lines) (pc : Nat) (η : List Nat) :
    Flows size (.stop index lines) pc ⟨[], η⟩ [(pc + 1, ⟨[], η⟩)]
  | discard (pc : Nat) (k : Kind) (σ : List Kind) (η : List Nat) :
    Flows size .discard pc ⟨k :: σ, η⟩ [(pc + 1, ⟨σ, η⟩)]
  | enterTry {offset : Offset} {pc target : Nat}
    (lands : landing? pc offset size = some (.index target)) (η : List Nat) :
    Flows size (.enterTry offset) pc ⟨[], η⟩
      [(pc + 1, ⟨[], target :: η⟩), (target, ⟨[.any], η⟩)]
  | leaveTry (pc t : Nat) (σ : List Kind) (η : List Nat) :
    Flows size .leaveTry pc ⟨σ, t :: η⟩ [(pc + 1, ⟨σ, η⟩)]
  | caught (binding : Option String) (pc : Nat) (k : Kind) (σ : List Kind) (η : List Nat) :
    Flows size (.caught binding) pc ⟨k :: σ, η⟩ [(pc + 1, ⟨σ, η⟩)]

/-- The indices from `lo` up to `hi` have shapes, `σ` the first one, that lead to each other or to `exits`.
An empty stretch leads on at once. -/
def Laid (code : Array Instruction) (lo hi : Nat) (σ : Shape) (exits : List (Nat × Shape)) : Prop :=
  ∃ shapes : Nat → Shape,
    (lo < hi ∧ shapes lo = σ ∨ lo = hi ∧ (lo, σ) ∈ exits) ∧
    ∀ pc, lo ≤ pc → pc < hi → ∃ i next, code[pc]? = some i ∧
      Flows code.size i pc (shapes pc) next ∧
      ∀ x ∈ next ++ unwound (shapes pc).handlers,
        (lo ≤ x.1 ∧ x.1 < hi ∧ shapes x.1 = x.2) ∨ x ∈ exits

namespace Laid

variable {code : Array Instruction} {lo mid hi : Nat} {σ τ : Shape} {exits exits' out : List (Nat × Shape)}

theorem nil (lo : Nat) (σ : Shape) (among : (lo, σ) ∈ exits) : Laid code lo lo σ exits :=
  ⟨fun _ => σ, .inr ⟨rfl, among⟩, fun pc _ _ => by omega⟩

theorem single {i : Instruction} {next : List (Nat × Shape)} (found : code[lo]? = some i)
    (flows : Flows code.size i lo σ next) : Laid code lo (lo + 1) σ (next ++ unwound σ.handlers) := by
  refine ⟨fun _ => σ, .inl ⟨by omega, rfl⟩, fun pc _ _ => ?_⟩
  obtain rfl : pc = lo := by omega
  exact ⟨i, next, found, flows, fun x member => .inr member⟩

/-- Two stretches in sequence. The exits of the first are the entry of the second or exits of the whole; those
of the second may also lead back to the entry of the first. -/
theorem append (first : Laid code lo mid σ exits) (second : Laid code mid hi τ exits')
    (same : lo < mid ∨ σ = τ) (onward : ∀ x ∈ exits, x = (mid, τ) ∨ x ∈ out)
    (further : ∀ x ∈ exits', (x = (lo, σ) ∧ lo < mid) ∨ x ∈ out) : Laid code lo hi σ out := by
  obtain ⟨shapes, entry, flows⟩ := first
  obtain ⟨shapes', entry', flows'⟩ := second
  have order : lo ≤ mid ∧ mid ≤ hi := by omega
  have enter : (mid < hi ∧ shapes' mid = τ) ∨ (mid, τ) ∈ out := by
    rcases entry' with ⟨inside, here⟩ | ⟨empty, member⟩
    · exact .inl ⟨inside, here⟩
    · rcases further _ member with ⟨back, forth⟩ | member
      · cases back
        omega
      · exact .inr member
  have leave (x : Nat × Shape) (member : x ∈ exits) :
      (mid ≤ x.1 ∧ x.1 < hi ∧ shapes' x.1 = x.2) ∨ x ∈ out := by
    rcases onward x member with rfl | member
    · rcases enter with ⟨inside, here⟩ | member
      · exact .inl ⟨Nat.le_refl _, inside, here⟩
      · exact .inr member
    · exact .inr member
  refine ⟨fun pc => if pc < mid then shapes pc else shapes' pc, ?_, ?_⟩
  · rcases entry with ⟨inside, here⟩ | ⟨empty, member⟩
    · exact .inl ⟨by omega, by simp [inside, here]⟩
    · obtain rfl : σ = τ := same.resolve_left (by omega)
      subst empty
      rcases enter with ⟨inside, here⟩ | member
      · exact .inl ⟨inside, by simp [here]⟩
      · rcases Nat.lt_or_ge lo hi with inside | outside
        · rcases entry' with ⟨_, here⟩ | ⟨empty, _⟩
          · exact .inl ⟨inside, by simp [here]⟩
          · omega
        · exact .inr ⟨by omega, member⟩
  · intro pc above below
    by_cases before : pc < mid
    · obtain ⟨i, next, found, leads, all⟩ := flows pc above before
      refine ⟨i, next, found, by simpa [before] using leads, ?_⟩
      simp only [before, if_true]
      intro x member
      rcases all x member with ⟨above, below, here⟩ | member
      · exact .inl ⟨above, by omega, by simp [below, here]⟩
      · rcases leave x member with ⟨above, below, here⟩ | member
        · exact .inl ⟨by omega, below, by simp [Nat.not_lt.mpr above, here]⟩
        · exact .inr member
    · obtain ⟨i, next, found, leads, all⟩ := flows' pc (by omega) below
      refine ⟨i, next, found, by simpa [before] using leads, ?_⟩
      simp only [before, if_false]
      intro x member
      rcases all x member with ⟨above, below, here⟩ | member
      · exact .inl ⟨by omega, below, by simp [Nat.not_lt.mpr above, here]⟩
      · rcases further x member with ⟨rfl, inside⟩ | member
        · rcases entry with ⟨_, here⟩ | ⟨empty, _⟩
          · exact .inl ⟨by omega, by omega, by simp [inside, here]⟩
          · omega
        · exact .inr member

/-- An instruction after a stretch. -/
theorem snoc {i : Instruction} {next : List (Nat × Shape)} (first : Laid code lo mid σ exits)
    (found : code[mid]? = some i) (flows : Flows code.size i mid τ next) (same : lo < mid ∨ σ = τ)
    (onward : ∀ x ∈ exits, x = (mid, τ) ∨ x ∈ out)
    (further : ∀ x ∈ next ++ unwound τ.handlers, (x = (lo, σ) ∧ lo < mid) ∨ x ∈ out) :
    Laid code lo (mid + 1) σ out :=
  first.append (single found flows) same onward further

/-- A condition and what runs if it holds. -/
theorem arm {test : Instruction} {η : List Nat} {other : Nat}
    (asks : Laid code lo mid ⟨[], η⟩ ((mid, ⟨[.any], η⟩) :: unwound η)) (solid : lo < mid)
    (found : code[mid]? = some test)
    (flows : Flows code.size test mid ⟨[.any], η⟩ [(mid + 1, ⟨[], η⟩), (other, ⟨[], η⟩)])
    (inner : Laid code (mid + 1) hi ⟨[], η⟩ ((hi, ⟨[], η⟩) :: unwound η)) :
    Laid code lo hi ⟨[], η⟩ ([(hi, ⟨[], η⟩), (other, ⟨[], η⟩)] ++ unwound η) := by
  have asked : Laid code lo (mid + 1) ⟨[], η⟩
      ([(mid + 1, ⟨[], η⟩), (other, ⟨[], η⟩)] ++ unwound η) := by
    refine asks.snoc found flows (.inl solid) ?_ ?_ <;> simp +contextual
  refine asked.append inner (.inl (by omega)) ?_ ?_ <;> simp +contextual

end Laid

/-- No call by name assigns. -/
def CallsOnly (C : Instruction → Prop) : Prop := ∀ site, C (.call site) → site.name ≠ "set"

variable {C : Instruction → Prop} {code : Array Instruction} {lo hi : Nat}

theorem Pushes.le_length {n : Nat} {is : List Instruction} (h : Pushes C n is) : n ≤ is.length := by
  induction h with
  | shortCircuit =>
    simp only [Fragment.shortCircuit, List.length_append, List.length_cons]
    omega
  | _ => simp_all <;> omega

/-- Operand code is empty only if it leaves the stack as it is. -/
theorem Pushes.starts {n : Nat} {is : List Instruction} (h : Pushes C n is) (lo : Nat)
    (σ : List Kind) (η : List Nat) :
    lo < lo + is.length ∨ (⟨σ, η⟩ : Shape) = ⟨List.replicate n .any ++ σ, η⟩ := by
  have := h.le_length
  rcases Nat.eq_zero_or_pos n with rfl | positive
  · simp
  · exact .inl (by omega)

theorem Pushes.laid (calls : CallsOnly C) {n : Nat} {is : List Instruction} (h : Pushes C n is)
    (seg : Segment code lo is) (stop : hi = lo + is.length) (σ : List Kind) (η : List Nat) :
    Laid code lo hi ⟨σ, η⟩ ((hi, ⟨List.replicate n .any ++ σ, η⟩) :: unwound η) := by
  induction h generalizing lo hi σ with
  | nil =>
    obtain rfl : hi = lo := stop
    exact .nil _ _ (by simp)
  | @append m n a b left _ first second =>
    rw [List.length_append] at stop
    refine (first seg.left rfl σ).append
      (second seg.right (by omega) (List.replicate m .any ++ σ)) (left.starts lo σ η) ?_ ?_
    · simp +contextual
    · rw [Nat.add_comm m n, ← List.replicate_append_replicate, List.append_assoc]
      simp +contextual
  | value =>
    obtain rfl : hi = lo + 1 := stop
    exact .single seg.head (.value _ lo σ η)
  | load name place =>
    obtain rfl : hi = lo + 1 := stop
    exact .single seg.head (.load name place lo σ η)
  | @call site a known args operands =>
    obtain rfl : hi = lo + a.length + 1 := by simpa [Nat.add_assoc] using stop
    have count : (List.replicate site.argc Kind.any).length = site.argc := by simp
    refine (operands seg.left rfl σ).snoc seg.right.head
      (.call (calls site known) count _ σ η) (args.starts lo σ η) ?_ ?_ <;> simp +contextual
  | @send site a _ args operands =>
    obtain rfl : hi = lo + a.length + 1 := by simpa [Nat.add_assoc] using stop
    have count : (List.replicate (site.argc + 1) Kind.any).length = site.argc + 1 := by simp
    refine (operands seg.left rfl σ).snoc seg.right.head (.send count _ σ η)
      (args.starts lo σ η) ?_ ?_ <;> simp +contextual
  | @shortCircuit kind decided left right conditional one _ first second =>
    have inside := seg.inside
    have solid := one.le_length
    simp only [Fragment.shortCircuit, List.length_append, List.length_cons, List.length_nil]
      at stop inside
    have test : landing? (lo + left.length) (.relative (right.length + 2)) code.size =
        some (.index (lo + left.length + 1 + right.length + 1)) :=
      landing?_relative (by omega) (by omega)
    have skip : landing? (lo + left.length + 1 + right.length) (.relative 2) code.size =
        some (.index hi) := landing?_relative (by omega) (by omega)
    have body := seg.left.right
    have last := seg.right
    rw [List.length_append, List.length_cons, ← Nat.add_assoc, ← Nat.add_assoc,
      Nat.add_right_comm] at last
    obtain rfl : hi = lo + left.length + 1 + right.length + 1 + 1 := by omega
    have asked : Laid code lo (lo + left.length + 1) ⟨σ, η⟩ ([(lo + left.length + 1, ⟨σ, η⟩),
        (lo + left.length + 1 + right.length + 1, ⟨σ, η⟩)] ++ unwound η) := by
      refine (first seg.left.left rfl σ).snoc body.head (.test conditional test .any σ η)
        (.inl (by omega)) ?_ ?_ <;> simp +contextual
    have either : Laid code lo (lo + left.length + 1 + right.length) ⟨σ, η⟩
        ([(lo + left.length + 1 + right.length, ⟨.any :: σ, η⟩),
          (lo + left.length + 1 + right.length + 1, ⟨σ, η⟩)] ++ unwound η) := by
      refine asked.append (second body.tail rfl σ) (.inl (by omega)) ?_ ?_ <;> simp +contextual
    have skipped : Laid code lo (lo + left.length + 1 + right.length + 1) ⟨σ, η⟩
        ([(lo + left.length + 1 + right.length + 1, ⟨σ, η⟩),
          (lo + left.length + 1 + right.length + 1 + 1, ⟨.any :: σ, η⟩)] ++ unwound η) := by
      refine either.snoc last.head (.jump skip (.any :: σ) η) (.inl (by omega)) ?_ ?_ <;>
        simp +contextual
    refine skipped.snoc last.tail.head (.value (.bool decided) _ σ η) (.inl (by omega)) ?_ ?_ <;>
      simp +contextual

theorem Balanced.laid (calls : CallsOnly C) {is : List Instruction} (h : Balanced C is)
    (seg : Segment code lo is) (stop : hi = lo + is.length) (η : List Nat) :
    Laid code lo hi ⟨[], η⟩ ((hi, ⟨[], η⟩) :: unwound η) := by
  induction h generalizing lo hi η with
  | nil =>
    obtain rfl : hi = lo := stop
    exact .nil _ _ (by simp)
  | append _ _ first second =>
    rw [List.length_append] at stop
    refine (first seg.left rfl η).append (second seg.right (by omega) η) (.inr rfl) ?_ ?_ <;>
      simp +contextual
  | stop index lines =>
    obtain rfl : hi = lo + 1 := stop
    exact .single seg.head (.stop index lines lo η)
  | @drop a value =>
    have solid := value.le_length
    obtain rfl : hi = lo + a.length + 1 := by simpa [Nat.add_assoc] using stop
    refine (value.laid calls seg.left rfl [] η).snoc seg.right.head (.discard _ .any [] η)
      (.inl (by omega)) ?_ ?_ <;> simp +contextual
  | @assign name place a value =>
    obtain rfl : hi = lo + 1 + a.length + 1 := by
      simp only [Fragment.assign, List.length_append, List.length_cons, List.length_nil] at stop
      omega
    have last := seg.right
    rw [List.length_cons, ← Nat.add_assoc, Nat.add_right_comm] at last
    have named : Laid code lo (lo + 1 + a.length) ⟨[], η⟩
        ((lo + 1 + a.length, ⟨[.any, .name], η⟩) :: unwound η) := by
      refine (Laid.single seg.left.head (.name name lo [] η)).append
        (value.laid calls seg.left.tail rfl [.name] η) (.inl (by omega)) ?_ ?_ <;> simp +contextual
    refine named.snoc last.head (.assign rfl (by simp) .any _ [] η) (.inl (by omega)) ?_ ?_ <;>
      simp +contextual
  | @ret a value =>
    have solid := value.le_length
    obtain rfl : hi = lo + a.length + 1 := by simpa [Nat.add_assoc] using stop
    refine (value.laid calls seg.left rfl [] η).snoc seg.right.head (.ret _ .any [] η)
      (.inl (by omega)) ?_ ?_ <;> simp +contextual
  | @skipIf kind condition body conditional value _ inner =>
    have inside := seg.inside
    have solid := value.le_length
    simp only [Fragment.skipIf, List.length_append, List.length_cons] at stop inside
    have test : landing? (lo + condition.length) (.relative (body.length + 1)) code.size =
        some (.index hi) := landing?_relative (by omega) (by omega)
    have asked : Laid code lo (lo + condition.length + 1) ⟨[], η⟩
        ([(lo + condition.length + 1, ⟨[], η⟩), (hi, ⟨[], η⟩)] ++ unwound η) := by
      refine (value.laid calls seg.left rfl [] η).snoc seg.right.head
        (.test conditional test .any [] η) (.inl (by omega)) ?_ ?_ <;> simp +contextual
    refine asked.append (inner seg.right.tail (by omega) η) (.inl (by omega)) ?_ ?_ <;>
      simp +contextual
  | @choose condition body rest value _ _ inner other =>
    have inside := seg.inside
    have solid := value.le_length
    simp only [Fragment.choose, List.length_append, List.length_cons] at stop inside
    have test : landing? (lo + condition.length) (.relative (body.length + 2)) code.size =
        some (.index (lo + condition.length + 1 + body.length + 1)) :=
      landing?_relative (by omega) (by omega)
    have skip : landing? (lo + condition.length + 1 + body.length) (.relative (rest.length + 1))
        code.size = some (.index hi) := landing?_relative (by omega) (by omega)
    have last := seg.right
    rw [List.length_append, List.length_cons, ← Nat.add_assoc, ← Nat.add_assoc,
      Nat.add_right_comm] at last
    have chosen : Laid code lo (lo + condition.length + 1 + body.length) ⟨[], η⟩
        ([(lo + condition.length + 1 + body.length, ⟨[], η⟩),
          (lo + condition.length + 1 + body.length + 1, ⟨[], η⟩)] ++ unwound η) :=
      .arm (value.laid calls seg.left.left rfl [] η) (by omega) seg.left.right.head
        (.test (by simp) test .any [] η) (inner seg.left.right.tail rfl η)
    have skipped : Laid code lo (lo + condition.length + 1 + body.length + 1) ⟨[], η⟩
        ([(lo + condition.length + 1 + body.length + 1, ⟨[], η⟩), (hi, ⟨[], η⟩)] ++ unwound η) := by
      refine chosen.snoc last.head (.jump skip [] η) (.inl (by omega)) ?_ ?_ <;> simp +contextual
    refine skipped.append (other last.tail (by omega) η) (.inl (by omega)) ?_ ?_ <;>
      simp +contextual
  | @whileLoop condition body value _ inner =>
    have inside := seg.inside
    have solid := value.le_length
    simp only [Fragment.whileLoop, List.length_append, List.length_cons, List.length_nil]
      at stop inside
    have test : landing? (lo + condition.length) (.relative (body.length + 2)) code.size =
        some (.index hi) := landing?_relative (by omega) (by omega)
    have back : landing? (lo + condition.length + 1 + body.length)
        (.relative (-(condition.length + 1 + body.length))) code.size = some (.index lo) :=
      landing?_relative (by omega) (by omega)
    have last := seg.right
    rw [List.length_append, List.length_cons, ← Nat.add_assoc, ← Nat.add_assoc,
      Nat.add_right_comm] at last
    obtain rfl : hi = lo + condition.length + 1 + body.length + 1 := by omega
    have entered : Laid code lo (lo + condition.length + 1 + body.length) ⟨[], η⟩
        ([(lo + condition.length + 1 + body.length, ⟨[], η⟩),
          (lo + condition.length + 1 + body.length + 1, ⟨[], η⟩)] ++ unwound η) :=
      .arm (value.laid calls seg.left.left rfl [] η) (by omega) seg.left.right.head
        (.test (by simp) test .any [] η) (inner seg.left.right.tail rfl η)
    refine entered.snoc last.head (.jump back [] η) (.inl (by omega)) ?_ ?_
    all_goals simp +contextual
    all_goals omega
  | @guarded binding body handler _ _ inner other =>
    have inside := seg.inside
    simp only [Fragment.guarded, List.length_append, List.length_cons] at stop inside
    have last := seg.right
    rw [List.length_cons, ← Nat.add_assoc, Nat.add_right_comm] at last
    generalize here : lo + 1 + body.length = p at last
    have enter : landing? lo (.relative (body.length + 3)) code.size = some (.index (p + 1 + 1)) :=
      landing?_relative (by omega) (by omega)
    have skip : landing? (p + 1) (.relative (handler.length + 2)) code.size = some (.index hi) :=
      landing?_relative (by omega) (by omega)
    -- The handler is entered from everywhere in the body, with a value that is not there before.
    have entered : Laid code lo p ⟨[], η⟩
        ([(p, ⟨[], (p + 1 + 1) :: η⟩), (p + 1 + 1, ⟨[.any], η⟩)] ++ unwound η) := by
      refine (Laid.single seg.left.head (.enterTry enter η)).append
        (inner seg.left.tail here.symm ((p + 1 + 1) :: η)) (.inl (by omega)) ?_ ?_ <;>
      simp +contextual [unwound]
    have closed : Laid code lo (p + 1) ⟨[], η⟩
        ([(p + 1, ⟨[], η⟩), (p + 1 + 1, ⟨[.any], η⟩)] ++ unwound η) := by
      refine entered.snoc last.head (.leaveTry p (p + 1 + 1) [] η) (.inl (by omega)) ?_ ?_ <;>
      simp +contextual [unwound]
    have skipped : Laid code lo (p + 1 + 1) ⟨[], η⟩
        ([(hi, ⟨[], η⟩), (p + 1 + 1, ⟨[.any], η⟩)] ++ unwound η) := by
      refine closed.snoc last.tail.head (.jump skip [] η) (.inl (by omega)) ?_ ?_ <;>
      simp +contextual
    have caught : Laid code lo (p + 1 + 1 + 1) ⟨[], η⟩
        ([(hi, ⟨[], η⟩), (p + 1 + 1 + 1, ⟨[], η⟩)] ++ unwound η) := by
      refine skipped.snoc last.tail.tail.head (.caught binding _ .any [] η) (.inl (by omega))
        ?_ ?_ <;> simp +contextual
    refine caught.append (other last.tail.tail.tail (by omega) η) (.inl (by omega)) ?_ ?_ <;>
      simp +contextual

/-- A shape for every index of a code and for its end. -/
structure Layout (code : Array Instruction) where
  shapes : Nat → Shape
  entry : shapes 0 = .start
  exit : shapes code.size = .start
  flows : ∀ pc i, code[pc]? = some i → ∃ next, Flows code.size i pc (shapes pc) next ∧
    ∀ x ∈ next ++ unwound (shapes pc).handlers, x.1 ≤ code.size ∧ shapes x.1 = x.2

/-- Compiled code that does not assign by a spelled call has a layout. -/
theorem Balanced.layout (calls : CallsOnly C) (h : Balanced C code.toList) :
    Nonempty (Layout code) := by
  have stop : code.size = 0 + code.toList.length := by simp
  obtain ⟨shapes, entry, flows⟩ := h.laid calls (.whole code) stop []
  refine ⟨fun pc => if pc < code.size then shapes pc else .start, ?_, ?_, ?_⟩
  · rcases entry with ⟨inside, here⟩ | ⟨empty, _⟩
    · simpa [inside, Shape.start] using here
    · simp [← empty]
  · simp
  · intro pc i found
    have inside := (Array.getElem?_eq_some_iff.mp found).1
    obtain ⟨i', next, found', leads, all⟩ := flows pc (Nat.zero_le _) inside
    obtain rfl : i' = i := Option.some.inj (found'.symm.trans found)
    refine ⟨next, by simpa [inside] using leads, ?_⟩
    simp only [inside, if_true]
    intro x member
    rcases all x member with ⟨_, below, here⟩ | among
    · exact ⟨by omega, by simp [below, here]⟩
    · obtain rfl : x = (code.size, ⟨[], []⟩) := by simpa [unwound] using among
      exact ⟨Nat.le_refl _, by simp [Shape.start]⟩

end ScriptEngine
