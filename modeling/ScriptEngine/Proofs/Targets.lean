import ScriptEngine.Proofs.Grammar
import ScriptEngine.Verification

/-! # Where branches and guarded regions lead

In compiled code every branch stays inside the list, every guarded region leads to a handler, every handler
belongs to a region, and regions are opened as often as closed. All of this is about offsets alone and holds
whatever is called; it is what the first pass of the verification looks for.
-/

namespace ScriptEngine

open Verification

/-- No branch leads further than so many instructions before the list or behind it. -/
def Targets (before after : Nat) (is : List Instruction) : Prop :=
  ∀ (k : Nat) (kind : BranchKind) (n : Int), is[k]? = some (.branch kind (.relative n)) →
    -(before : Int) ≤ k + n ∧ k + n ≤ is.length + after

theorem Targets.append {before after : Nat} {a b : List Instruction}
    (first : Targets before (after + b.length) a) (second : Targets (before + a.length) after b) :
    Targets before after (a ++ b) := by
  intro k kind n found
  rw [List.length_append]
  by_cases inside : k < a.length
  · rw [List.getElem?_append_left inside] at found
    have := first k kind n found
    omega
  · rw [List.getElem?_append_right (by omega)] at found
    have := second _ kind n found
    omega

theorem Targets.cons {before after : Nat} {i : Instruction} {is : List Instruction}
    (first : Targets before (after + is.length) [i]) (second : Targets (before + 1) after is) :
    Targets before after (i :: is) :=
  .append first second

theorem Targets.mono {before after more further : Nat} {is : List Instruction}
    (targets : Targets before after is) (h : before ≤ more) (h' : after ≤ further) :
    Targets more further is := by
  intro k kind n found
  have := targets k kind n found
  omega

/-- A list whose branches stay inside, in any place. -/
theorem Targets.anywhere {before after : Nat} {is : List Instruction} (targets : Targets 0 0 is) :
    Targets before after is :=
  targets.mono (Nat.zero_le _) (Nat.zero_le _)

theorem Targets.nil : Targets 0 0 [] := by simp [Targets]

theorem Targets.plain {i : Instruction} (h : ∀ kind n, i ≠ .branch kind (.relative n)) :
    Targets 0 0 [i] := by
  intro k kind n found
  obtain ⟨rfl, rfl⟩ : k = 0 ∧ i = .branch kind (.relative n) := by
    cases k <;> simp_all
  exact absurd rfl (h kind n)

theorem Targets.branch {before after : Nat} {kind : BranchKind} {n : Int} (h : -(before : Int) ≤ n)
    (h' : n ≤ 1 + after) : Targets before after [.branch kind (.relative n)] := by
  intro k kind' n' found
  cases k with
  | zero =>
    obtain ⟨rfl, rfl⟩ := by simpa using found
    simpa using ⟨h, h'⟩
  | succ k => simp at found

variable {C : Instruction → Prop}

theorem Pushes.targets {n : Nat} {is : List Instruction} (h : Pushes C n is) : Targets 0 0 is := by
  induction h with
  | nil => exact .nil
  | append _ _ first second => exact .append first.anywhere second.anywhere
  | value | load => exact .plain (by simp)
  | call _ _ operands | send _ _ operands => exact .append operands.anywhere (.anywhere (.plain (by simp)))
  | shortCircuit decided _ _ _ left right =>
    unfold Fragment.shortCircuit
    refine .append (.append left.anywhere (.cons ?_ right.anywhere)) (.cons ?_ ?_)
    · exact .branch (by omega) (by simp; omega)
    · exact .branch (by omega) (by simp)
    · exact .anywhere (.plain (by simp))

theorem Balanced.targets {is : List Instruction} (h : Balanced C is) : Targets 0 0 is := by
  induction h with
  | nil => exact .nil
  | append _ _ first second => exact .append first.anywhere second.anywhere
  | stop => exact .plain (by simp)
  | drop value | ret value => exact .append value.targets.anywhere (.anywhere (.plain (by simp)))
  | assign name place value =>
    exact .append (.cons (.anywhere (.plain (by simp))) value.targets.anywhere)
      (.anywhere (.plain (by simp)))
  | skipIf _ condition _ body =>
    refine .append condition.targets.anywhere (.cons ?_ body.anywhere)
    exact .branch (by omega) (by omega)
  | choose condition _ _ body rest =>
    refine .append (.append condition.targets.anywhere (.cons ?_ body.anywhere))
      (.cons ?_ rest.anywhere)
    · exact .branch (by omega) (by simp; omega)
    · exact .branch (by omega) (by omega)
  | whileLoop condition _ body =>
    refine .append (.append condition.targets.anywhere (.cons ?_ body.anywhere)) ?_
    · exact .branch (by omega) (by simp; omega)
    · exact .branch (by simp; omega) (by omega)
  | guarded binding _ _ body handler =>
    refine .append (.cons (.anywhere (.plain (by simp))) body.anywhere)
      (.cons (.anywhere (.plain (by simp))) (.cons ?_ (.cons (.anywhere (.plain (by simp)))
        handler.anywhere)))
    exact .branch (by omega) (by simp; omega)

/-- Each region leads to a handler, each handler belongs to a region, and each region is closed. -/
structure Paired (is : List Instruction) : Prop where
  opened : ∀ (k : Nat) (o : Offset), is[k]? = some (.enterTry o) →
    ∃ (n : Nat) (binding : Option String), o = .relative (n + 1) ∧
      is[k + n + 1]? = some (.caught binding)
  handled : ∀ (t : Nat) (binding : Option String), is[t]? = some (.caught binding) →
    ∃ k n, t = k + n + 1 ∧ is[k]? = some (.enterTry (.relative (n + 1)))
  closed : is.countP isEnterTry = is.countP isLeaveTry

theorem Paired.append {a b : List Instruction} (first : Paired a) (second : Paired b) :
    Paired (a ++ b) where
  opened k o found := by
    by_cases inside : k < a.length
    · rw [List.getElem?_append_left inside] at found
      obtain ⟨n, binding, rfl, there⟩ := first.opened k o found
      refine ⟨n, binding, rfl, ?_⟩
      rw [List.getElem?_append_left (List.getElem?_eq_some_iff.mp there).1]
      exact there
    · rw [List.getElem?_append_right (by omega)] at found
      obtain ⟨n, binding, rfl, there⟩ := second.opened _ o found
      refine ⟨n, binding, rfl, ?_⟩
      rw [List.getElem?_append_right (by omega), ← there]
      congr 1
      omega
  handled t binding found := by
    by_cases inside : t < a.length
    · rw [List.getElem?_append_left inside] at found
      obtain ⟨k, n, rfl, there⟩ := first.handled t binding found
      refine ⟨k, n, rfl, ?_⟩
      rw [List.getElem?_append_left (by omega)]
      exact there
    · rw [List.getElem?_append_right (by omega)] at found
      obtain ⟨k, n, same, there⟩ := second.handled _ binding found
      refine ⟨a.length + k, n, by omega, ?_⟩
      rw [List.getElem?_append_right (by omega), ← there]
      congr 1
      omega
  closed := by rw [List.countP_append, List.countP_append, first.closed, second.closed]

theorem Paired.nil : Paired [] := ⟨by simp, by simp, rfl⟩

/-- Whether an instruction opens or closes a region or begins a handler. -/
def Instruction.isRegional : Instruction → Bool
  | .enterTry _ | .leaveTry | .caught _ => true
  | _ => false

theorem Paired.plain {i : Instruction} (h : i.isRegional = false) : Paired [i] where
  opened k o found := by
    cases k with
    | zero =>
      obtain rfl : i = .enterTry o := by simpa using found
      cases h
    | succ k => simp at found
  handled t b found := by
    cases t with
    | zero =>
      obtain rfl : i = .caught b := by simpa using found
      cases h
    | succ t => simp at found
  closed := by cases i <;> first | rfl | cases h

theorem Paired.guarded (binding : Option String) (n : Int) {body : List Instruction}
    (inner : Paired body) :
    Paired (.enterTry (.relative (body.length + 3)) :: (body ++
      [.leaveTry, .branch .always (.relative n), .caught binding])) where
  opened k o found := by
    cases k with
    | zero =>
      obtain rfl : Offset.relative (body.length + 3) = o := by simpa using found
      exact ⟨body.length + 2, binding, by simp; omega, by simp⟩
    | succ k =>
      rw [List.getElem?_cons_succ] at found
      by_cases inside : k < body.length
      · rw [List.getElem?_append_left inside] at found
        obtain ⟨m, b, rfl, there⟩ := inner.opened k o found
        refine ⟨m, b, rfl, ?_⟩
        rw [show k + 1 + m + 1 = k + m + 1 + 1 by omega, List.getElem?_cons_succ,
          List.getElem?_append_left (List.getElem?_eq_some_iff.mp there).1]
        exact there
      · rw [List.getElem?_append_right (by omega)] at found
        rcases h : k - body.length with _ | _ | _ | d <;> simp [h] at found
  handled t b found := by
    cases t with
    | zero => simp at found
    | succ t =>
      rw [List.getElem?_cons_succ] at found
      by_cases inside : t < body.length
      · rw [List.getElem?_append_left inside] at found
        obtain ⟨k, m, rfl, there⟩ := inner.handled t b found
        refine ⟨k + 1, m, by omega, ?_⟩
        rw [List.getElem?_cons_succ, List.getElem?_append_left (by omega)]
        exact there
      · rw [List.getElem?_append_right (by omega)] at found
        refine ⟨0, body.length + 2, ?_, by simp; omega⟩
        rcases h : t - body.length with _ | _ | _ | d <;> simp [h] at found
        omega
  closed := by
    have here := inner.closed
    simp only [List.countP_cons, List.countP_append, List.countP_nil, isEnterTry, isLeaveTry, here]
    simp

theorem Paired.cons {i : Instruction} {is : List Instruction} (first : i.isRegional = false)
    (second : Paired is) : Paired (i :: is) :=
  .append (.plain first) second

theorem Pushes.paired {n : Nat} {is : List Instruction} (h : Pushes C n is) : Paired is := by
  induction h with
  | nil => exact .nil
  | append _ _ first second => exact first.append second
  | value | load => exact .plain rfl
  | call _ _ operands | send _ _ operands => exact operands.append (.plain rfl)
  | shortCircuit decided _ _ _ left right =>
    exact (left.append (.cons rfl right)).append (.cons rfl (.plain rfl))

theorem Balanced.paired {is : List Instruction} (h : Balanced C is) : Paired is := by
  induction h with
  | nil => exact .nil
  | append _ _ first second => exact first.append second
  | stop => exact .plain rfl
  | drop value | ret value => exact value.paired.append (.plain rfl)
  | assign name place value => exact (Paired.cons rfl value.paired).append (.plain rfl)
  | skipIf _ condition _ body => exact condition.paired.append (.cons rfl body)
  | choose condition _ _ body rest =>
    exact (condition.paired.append (.cons rfl body)).append (.cons rfl rest)
  | whileLoop condition _ body =>
    exact (condition.paired.append (.cons rfl body)).append (.plain rfl)
  | @guarded binding _ handlerCode _ _ body handler =>
    have whole := (Paired.guarded binding (handlerCode.length + 2) body).append handler
    simpa [Fragment.guarded] using whole

namespace Verification

theorem mem_flaws {code : Array Instruction} {check : Instruction → Nat → List Flaw} {index : Nat}
    {what : Flaw} :
    (index, what) ∈ flaws code check ↔ ∃ i, code[index]? = some i ∧ what ∈ check i index := by
  simp only [flaws, indexed, List.mem_flatMap, Prod.exists, List.mem_map, Prod.mk.injEq,
    List.mem_zipIdx_iff_getElem?, Array.getElem?_toList]
  constructor
  · rintro ⟨i, k, found, w, member, rfl, rfl⟩
    exact ⟨i, found, member⟩
  · rintro ⟨i, found, member⟩
    exact ⟨i, index, found, what, member, rfl, rfl⟩

end Verification

/-- Whether a flaw says that a branch, a region or a handler leads nowhere. -/
def Flaw.isAstray : Flaw → Bool
  | branchOutOfRange _ | handlerOutOfRange _ | handlerNotCatch _ | orphanCatch => true
  | _ => false

theorem Flaw.isAstray_of_isFatal {what : Flaw} (fatal : what.isFatal = true) :
    what.isAstray = true := by
  cases what <;> simp_all [Flaw.isFatal, Flaw.isAstray]

variable {code : Array Instruction} {k : Nat} {i : Instruction}

/-- A branch of compiled code lands on an index of the list or just behind it. -/
theorem Targets.landing {kind : BranchKind} {n : Int} (targets : Targets 0 0 code.toList)
    (found : code[k]? = some (.branch kind (.relative n))) :
    landing? k (.relative n) code.size = some (.index (k + n).toNat) := by
  have inside := targets k kind n (by simpa using found)
  rw [Array.length_toList] at inside
  rw [landing?, if_pos ⟨by omega, by omega⟩]

/-- A region of compiled code leads to a handler. -/
theorem Paired.handler {o : Offset} (paired : Paired code.toList)
    (found : code[k]? = some (.enterTry o)) :
    ∃ t binding, landing? k o code.size = some (.index t) ∧ code[t]? = some (.caught binding) := by
  obtain ⟨n, binding, rfl, there⟩ := paired.opened k o (by simpa using found)
  rw [Array.getElem?_toList] at there
  refine ⟨k + n + 1, binding, ?_, there⟩
  have inside := (Array.getElem?_eq_some_iff.mp there).1
  rw [landing?, if_pos ⟨by omega, by omega⟩]
  congr 2

theorem Balanced.targetFlaws_eq (h : Balanced C code.toList) (found : code[k]? = some i) :
    targetFlaws code i k = [] := by
  cases i with
  | branch kind o =>
    cases o with
    | exit => rfl
    | relative n => simp [targetFlaws, h.targets.landing found]
  | enterTry o =>
    obtain ⟨t, binding, lands, there⟩ := h.paired.handler found
    have inside := (Array.getElem?_eq_some_iff.mp there).1
    simp only [targetFlaws, handler?, lands, if_pos inside, Option.bind_some, there, isCaught, if_true]
  | _ => rfl

theorem Balanced.orphanFlaws_eq (h : Balanced C code.toList) (found : code[k]? = some i) :
    orphanFlaws (Verification.handled code) i k = [] := by
  cases i with
  | caught binding =>
    obtain ⟨source, n, rfl, there⟩ := h.paired.handled k binding (by simpa using found)
    rw [Array.getElem?_toList] at there
    have member : source + n + 1 ∈ Verification.handled code := by
      simp only [Verification.handled, indexed, List.mem_filterMap, Prod.exists,
        List.mem_zipIdx_iff_getElem?, Array.getElem?_toList]
      refine ⟨_, source, there, ?_⟩
      have inside := (Array.getElem?_eq_some_iff.mp found).1
      rw [handler?, landing?, if_pos ⟨by omega, by omega⟩]
      have same : ((source : Int) + (n + 1)).toNat = source + n + 1 := by omega
      simp only [same, if_pos inside]
    simp [orphanFlaws, member]
  | _ => rfl

/-- Neither arities nor keywords lead astray. -/
theorem arityFlaws_isAstray (i : Instruction) : ∀ what ∈ arityFlaws i, what.isAstray = false := by
  intro what member
  unfold arityFlaws at member
  split at member
  · split at member
    · rw [List.mem_singleton.mp member]
      rfl
    · cases member
  · cases member

theorem keywordFlaws_isAstray (i : Instruction) : ∀ what ∈ keywordFlaws i, what.isAstray = false := by
  intro what member
  unfold keywordFlaws at member
  split at member
  · obtain ⟨name, _, rfl⟩ := List.mem_map.mp member
    rfl
  · cases member

/-- The shape of compiled code: nothing leads astray. -/
theorem Balanced.shape_isAstray (h : Balanced C code.toList) :
    ∀ flaw ∈ shape code, flaw.2.isAstray = false := by
  rintro ⟨index, what⟩ member
  rcases List.mem_append.mp member with member | member
  · obtain ⟨i, found, among⟩ := mem_flaws.mp member
    rw [shapeFlaws, h.targetFlaws_eq found, List.nil_append, List.mem_append] at among
    rcases among with among | among
    · exact arityFlaws_isAstray i what among
    · exact keywordFlaws_isAstray i what among
  · obtain ⟨i, found, among⟩ := mem_flaws.mp member
    rw [h.orphanFlaws_eq found] at among
    cases among

theorem Balanced.not_fatal (h : Balanced C code.toList) :
    (shape code).any (·.2.isFatal) = false := by
  rw [List.any_eq_false]
  intro flaw member fatal
  have := h.shape_isAstray flaw member
  rw [Flaw.isAstray_of_isFatal fatal] at this
  cases this

/-- Compiled code opens as many regions as it closes. -/
theorem Balanced.countP_eq (h : Balanced C code.toList) :
    code.countP isEnterTry = code.countP isLeaveTry := by
  rw [← Array.countP_toList, ← Array.countP_toList]
  exact h.paired.closed

end ScriptEngine
