import ScriptEngine.Proofs.Layout
import ScriptEngine.Verification.Depth

/-! # Charts of compiled code

What compiled code assigns to is a string on the operand stack, and what it reads may have been assigned or not. A
chart says for every index which strings on the stack are names to be assigned, and which of the variables that the
compiler made up are bound there, whatever way a run has come. Only the loop that has such a variable reads and
assigns it, and it does so only where the variable is bound.
-/

namespace ScriptEngine

theorem hiddenName_toList (role : String) (n : Nat) :
    (hiddenName role n).toList = role.toList ++ hiddenMark :: Nat.toDigits 10 n := by
  simp [hiddenName, hiddenMark, String.toList_append, Nat.toList_repr, toString]

@[simp] theorem isHidden_hiddenName (role : String) (n : Nat) : isHidden (hiddenName role n) = true := by
  simp [isHidden, hiddenName_toList]

theorem hiddenMark_notMem_toDigits (n : Nat) : hiddenMark ∉ Nat.toDigits 10 n := by
  intro among
  exact absurd (Nat.isDigit_of_mem_toDigits (by decide) (by decide) among) (by decide)

/-- A hidden name tells the loop that it was made up for. -/
theorem hiddenName_inj {role role' : String} {n n' : Nat} (same : hiddenName role n = hiddenName role' n') :
    role = role' ∧ n = n' := by
  have lists := congrArg String.toList same
  rw [hiddenName_toList, hiddenName_toList, List.append_eq_append_iff] at lists
  have digits (cs : List Char) (k k' : Nat) (split : hiddenMark :: Nat.toDigits 10 k =
      cs ++ hiddenMark :: Nat.toDigits 10 k') : cs = [] ∧ k = k' := by
    cases cs with
    | nil =>
      have back := congrArg (Nat.ofDigitChars 10 · 0) (List.cons.inj split).2
      exact ⟨rfl, by simpa only [Nat.ofDigitChars_ten_toDigits] using back⟩
    | cons c cs =>
      refine absurd ?_ (hiddenMark_notMem_toDigits k)
      rw [(List.cons.inj split).2]
      exact List.mem_append_right _ List.mem_cons_self
  rcases lists with ⟨cs, more, split⟩ | ⟨cs, more, split⟩
  · obtain ⟨rfl, rfl⟩ := digits cs n n' split
    exact ⟨String.toList_inj.mp (by simpa using more.symm), rfl⟩
  · obtain ⟨rfl, rfl⟩ := digits cs n' n split
    exact ⟨String.toList_inj.mp (by simpa using more), rfl⟩

/-- How far the body of a loop over elements stands behind the start of its code. -/
def Fragment.bodyStart (items : List Instruction) : Nat := items.length + 22

theorem Fragment.length_forLoop (n : Nat) (place : Position) (name : String) (namePlace : Position)
    (items body : List Instruction) :
    (forLoop n place name namePlace items body).length = items.length + body.length + 28 := by
  simp [forLoop, assign, skipIf, whileLoop]
  omega

/-- The code of a loop, one part after the other. -/
theorem Fragment.forLoop_eq (n : Nat) (place : Position) (name : String) (namePlace : Position)
    (items body : List Instruction) :
    forLoop n place name namePlace items body =
      assign (hiddenName "iter" n) items place ++
      (assign (hiddenName "len" n) [.load (hiddenName "iter" n) place, .send (.positional "size" 0 place)] place ++
      (assign (hiddenName "idx" n) [.value (.number 0)] place ++
      skipIf .ifTrue [.load (hiddenName "len" n) place, .value (.number 0), .send (.positional "__eq__" 1 place)]
        (whileLoop [.load (hiddenName "idx" n) place, .load (hiddenName "len" n) place,
            .send (.positional "__lt__" 1 place)]
          (assign name [.load (hiddenName "iter" n) place, .load (hiddenName "idx" n) place,
              .send (.positional "__index__" 1 place)] namePlace ++ (body ++
            assign (hiddenName "idx" n) [.load (hiddenName "idx" n) place, .value (.number 1),
              .send (.positional "__add__" 1 place)] place))))) := by
  simp only [forLoop, List.append_assoc]

/-- The loop with a number starts at `lo`, and `pc` is one of its own instructions: not one of its container, and not
one of its body. -/
def OwnAt (code : Array Instruction) (n lo pc : Nat) : Prop :=
  ∃ place name namePlace items body, Segment code lo (Fragment.forLoop n place name namePlace items body) ∧
    lo ≤ pc ∧ pc < lo + (Fragment.forLoop n place name namePlace items body).length ∧
    (pc ≤ lo ∨ lo + items.length < pc) ∧
    (pc < lo + Fragment.bodyStart items ∨ lo + Fragment.bodyStart items + body.length ≤ pc)

/-- What is known at an index: the strings on the operand stack, top first, that name what is going to be assigned,
and the handlers of the open regions, innermost first. -/
structure Sketch where
  names : List (Option String)
  handlers : List Nat

/-- Where an error leads: to the innermost handler, with nothing but a message on the stack. -/
def Sketch.unwound : List Nat → List (Nat × Sketch)
  | [] => []
  | t :: outer => [(t, ⟨[none], outer⟩)]

/-- Instructions other than assignments after which a frame is at the next one and has the same regions open, unless
they fail. -/
def Instruction.goesOn : Instruction → Bool
  | .branch .. | .enterTry _ | .leaveTry => false
  | .call site => site.name ≠ "set"
  | _ => true

/-- The sketches that an instruction leads to, with their indices, if it does not fail. -/
inductive Draws (size : Nat) : Instruction → Nat → Sketch → List (Nat × Sketch) → Prop
  | name (s : String) (pc : Nat) (σ : List (Option String)) (η : List Nat) :
    Draws size (.value (.string s)) pc ⟨σ, η⟩ [(pc + 1, ⟨some s :: σ, η⟩)]
  | next {i : Instruction} (plain : i.goesOn = true) (pc : Nat) (σ : List (Option String)) (η : List Nat) :
    Draws size i pc ⟨σ, η⟩ [(pc + 1, ⟨List.replicate i.pushes none ++ σ.drop i.pops, η⟩)]
  | assign {site : CallSite} (named : site.name = "set") (two : site.argc = 2) (k : Option String) (name : String)
    (pc : Nat) (σ : List (Option String)) (η : List Nat) :
    Draws size (.call site) pc ⟨k :: some name :: σ, η⟩ [(pc + 1, ⟨σ, η⟩)]
  | jump {offset : Offset} {pc target : Nat} (lands : landing? pc offset size = some (.index target))
    (σ : List (Option String)) (η : List Nat) :
    Draws size (.branch .always offset) pc ⟨σ, η⟩ [(target, ⟨σ, η⟩)]
  | test {kind : BranchKind} (conditional : kind ≠ .always) {offset : Offset} {pc target : Nat}
    (lands : landing? pc offset size = some (.index target)) (k : Option String) (σ : List (Option String))
    (η : List Nat) :
    Draws size (.branch kind offset) pc ⟨k :: σ, η⟩ [(pc + 1, ⟨σ, η⟩), (target, ⟨σ, η⟩)]
  | ret (pc : Nat) (σ : List (Option String)) (η : List Nat) :
    Draws size (.branch .always .exit) pc ⟨σ, η⟩ []
  | enterTry {offset : Offset} {pc target : Nat} (lands : landing? pc offset size = some (.index target))
    (η : List Nat) : Draws size (.enterTry offset) pc ⟨[], η⟩ [(pc + 1, ⟨[], target :: η⟩)]
  | leaveTry (pc t : Nat) (σ : List (Option String)) (η : List Nat) :
    Draws size .leaveTry pc ⟨σ, t :: η⟩ [(pc + 1, ⟨σ, η⟩)]

/-- An instruction assigns to a name, where the stack is as in a sketch. -/
def Instruction.Assigns (i : Instruction) (s : Sketch) (name : String) : Prop :=
  ∃ site k σ, i = .call site ∧ site.name = "set" ∧ site.argc = 2 ∧ s.names = k :: some name :: σ

/-- An instruction has to do with a variable: it reads it, assigns it, or binds a message to it. -/
inductive Instruction.Uses (i : Instruction) (s : Sketch) (name : String) : Prop
  | reads {place : Position} (load : i = .load name place)
  | assigns (assigned : i.Assigns s name)
  | catches (caught : i = .caught (some name))

/-- Instructions that have nothing to do with variables. -/
def Instruction.isIndifferent : Instruction → Bool
  | .load .. | .call _ | .caught _ => false
  | _ => true

theorem Instruction.not_uses {i : Instruction} (indifferent : i.isIndifferent = true) {s : Sketch} (name : String) :
    ¬ i.Uses s name := by
  rintro (⟨rfl⟩ | ⟨⟨_, _, _, rfl, _⟩⟩ | ⟨rfl⟩) <;> cases indifferent

theorem Instruction.Uses.call {site : CallSite} {s : Sketch} {name : String}
    (uses : (Instruction.call site).Uses s name) : site.name = "set" ∧ ∃ k σ, s.names = k :: some name :: σ := by
  rcases uses with ⟨⟨⟩⟩ | ⟨_, k, σ, ⟨⟩, named, _, names⟩ | ⟨⟨⟩⟩
  exact ⟨named, k, σ, names⟩

/-- What is known of each index: a sketch, and the names that are bound there. -/
structure Chart where
  sketch : Nat → Sketch
  bound : Nat → List String

namespace Chart

/-- From an index, a chart leads to another one in a stretch, where nothing is bound but what was, or more; or out
of the stretch. -/
def Leads (c : Chart) (lo hi : Nat) (exits : List (Nat × Sketch)) (pc : Nat) (more : String → Prop)
    (x : Nat × Sketch) : Prop :=
  (lo ≤ x.1 ∧ x.1 < hi ∧ c.sketch x.1 = x.2 ∧ ∀ name ∈ c.bound x.1, name ∈ c.bound pc ∨ more name) ∨ x ∈ exits

/-- A chart is right about an index: what the instruction there leads to is as charted, and it has to do only with
hidden names that it owns, and reads only those that are bound. -/
structure Marks (c : Chart) (own : String → Nat → Prop) (code : Array Instruction) (lo hi : Nat)
    (exits : List (Nat × Sketch)) (pc : Nat) (i : Instruction) (next : List (Nat × Sketch)) : Prop where
  found : code[pc]? = some i
  draws : Draws code.size i pc (c.sketch pc) next
  onward : ∀ x ∈ next, c.Leads lo hi exits pc (i.Assigns (c.sketch pc)) x
  raised : ∀ x ∈ Sketch.unwound (c.sketch pc).handlers, c.Leads lo hi exits pc (fun _ => False) x
  uses : ∀ name, isHidden name = true → i.Uses (c.sketch pc) name → own name pc
  reads : ∀ name place, isHidden name = true → i = .load name place → name ∈ c.bound pc

/-- Two charts, one of the indices below `mid` and one of the others. -/
def join (c c' : Chart) (mid : Nat) : Chart where
  sketch := fun pc => if pc < mid then c.sketch pc else c'.sketch pc
  bound := fun pc => if pc < mid then c.bound pc else c'.bound pc

variable {c c' : Chart} {own own' : String → Nat → Prop} {code : Array Instruction} {lo mid hi lo' hi' pc : Nat}
  {exits out : List (Nat × Sketch)} {i : Instruction} {next : List (Nat × Sketch)}

theorem join_before (c c' : Chart) (less : pc < mid) :
    (c.join c' mid).sketch pc = c.sketch pc ∧ (c.join c' mid).bound pc = c.bound pc := by
  simp [join, less]

theorem join_after (c c' : Chart) (less : mid ≤ pc) :
    (c.join c' mid).sketch pc = c'.sketch pc ∧ (c.join c' mid).bound pc = c'.bound pc := by
  simp [join, Nat.not_lt.mpr less]

/-- A chart that says the same of an index, and of where it leads. -/
theorem Marks.congr (marks : c.Marks own code lo hi exits pc i next)
    (same : c'.sketch pc = c.sketch pc ∧ c'.bound pc = c.bound pc)
    (leads : ∀ more x, c.Leads lo hi exits pc more x → c'.Leads lo' hi' out pc more x) :
    c'.Marks own code lo' hi' out pc i next where
  found := marks.found
  draws := same.1 ▸ marks.draws
  onward := fun x member => leads _ x (same.1 ▸ marks.onward x member)
  raised := fun x member => leads _ x (marks.raised x (same.1 ▸ member))
  uses := fun name hidden uses => marks.uses name hidden (same.1 ▸ uses)
  reads := fun name place hidden load => same.2 ▸ marks.reads name place hidden load

end Chart

/-- There is a chart of the indices from `lo` up to `hi`, with some names bound at all of them, and no others at `lo`.
An empty stretch leads on at once. -/
def Charted (own : String → Nat → Prop) (code : Array Instruction) (lo hi : Nat) (names : List String) (s : Sketch)
    (exits : List (Nat × Sketch)) : Prop :=
  ∃ c : Chart,
    (lo < hi ∧ c.sketch lo = s ∧ (∀ name ∈ c.bound lo, name ∈ names) ∨ lo = hi ∧ (lo, s) ∈ exits) ∧
    ∀ pc, lo ≤ pc → pc < hi → (∀ name ∈ names, name ∈ c.bound pc) ∧ ∃ i next, c.Marks own code lo hi exits pc i next

namespace Charted

variable {own own' : String → Nat → Prop} {code : Array Instruction} {lo mid hi : Nat} {names : List String}
  {σ τ : Sketch} {exits exits' out : List (Nat × Sketch)} {i : Instruction} {next : List (Nat × Sketch)}

theorem nil (among : (lo, σ) ∈ exits) : Charted own code lo lo names σ exits :=
  ⟨⟨fun _ => σ, fun _ => names⟩, .inr ⟨rfl, among⟩, fun pc _ _ => by omega⟩

theorem single (found : code[lo]? = some i) (draws : Draws code.size i lo σ next)
    (uses : ∀ name, isHidden name = true → i.Uses σ name → own name lo)
    (reads : ∀ name place, isHidden name = true → i = .load name place → name ∈ names) :
    Charted own code lo (lo + 1) names σ (next ++ Sketch.unwound σ.handlers) := by
  refine ⟨⟨fun _ => σ, fun _ => names⟩, .inl ⟨by omega, rfl, fun _ => id⟩, fun pc above below => ⟨fun _ => id, ?_⟩⟩
  obtain rfl : pc = lo := by omega
  exact ⟨i, next, found, draws, fun x member => .inr (List.mem_append_left _ member),
    fun x member => .inr (List.mem_append_right _ member), uses, reads⟩

/-- An instruction that has nothing to do with variables. -/
theorem plain (found : code[lo]? = some i) (draws : Draws code.size i lo σ next) (none : ∀ name, ¬ i.Uses σ name) :
    Charted own code lo (lo + 1) names σ (next ++ Sketch.unwound σ.handlers) :=
  single found draws (fun name _ uses => absurd uses (none name))
    fun name _ _ load => absurd (.reads load) (none name)

theorem mono (charted : Charted own code lo hi names σ exits) (more : ∀ name pc, own name pc → own' name pc)
    (among : ∀ x ∈ exits, x ∈ out) : Charted own' code lo hi names σ out := by
  obtain ⟨c, entry, marks⟩ := charted
  refine ⟨c, entry.imp_right fun ⟨empty, member⟩ => ⟨empty, among _ member⟩, fun pc above below => ?_⟩
  obtain ⟨bound, i, next, marked⟩ := marks pc above below
  exact ⟨bound, i, next, {
    found := marked.found
    draws := marked.draws
    onward := fun x member => (marked.onward x member).imp_right (among x)
    raised := fun x member => (marked.raised x member).imp_right (among x)
    uses := fun name hidden uses => more _ _ (marked.uses name hidden uses)
    reads := marked.reads }⟩

/-- Two stretches in sequence. The exits of the first are the entry of the second or exits of the whole; those
of the second may also lead back to the entry of the first. -/
theorem append (first : Charted own code lo mid names σ exits) (second : Charted own code mid hi names τ exits')
    (same : lo < mid ∨ σ = τ) (onward : ∀ x ∈ exits, x = (mid, τ) ∨ x ∈ out)
    (further : ∀ x ∈ exits', (x = (lo, σ) ∧ lo < mid) ∨ x ∈ out) : Charted own code lo hi names σ out := by
  obtain ⟨c, entry, marks⟩ := first
  obtain ⟨c', entry', marks'⟩ := second
  have order : lo ≤ mid ∧ mid ≤ hi := by omega
  have enter : (mid < hi ∧ c'.sketch mid = τ ∧ ∀ name ∈ c'.bound mid, name ∈ names) ∨ (mid, τ) ∈ out := by
    rcases entry' with inside | ⟨empty, member⟩
    · exact .inl inside
    · rcases further _ member with ⟨back, _⟩ | member
      · cases back
        omega
      · exact .inr member
  have before {pc : Nat} (less : pc < mid) := c.join_before c' less
  have after {pc : Nat} (less : mid ≤ pc) := c.join_after c' less
  refine ⟨c.join c' mid, ?_, fun pc above below => ?_⟩
  · rcases entry with ⟨inside, here, bound⟩ | ⟨empty, member⟩
    · exact .inl ⟨by omega, (before inside).1.trans here, (before inside).2 ▸ bound⟩
    · obtain rfl : σ = τ := same.resolve_left (by omega)
      subst empty
      rcases enter with ⟨inside, here, bound⟩ | member
      · exact .inl ⟨inside, (after (Nat.le_refl _)).1.trans here, (after (Nat.le_refl _)).2 ▸ bound⟩
      · rcases Nat.lt_or_ge lo hi with inside | outside
        · rcases entry' with ⟨_, here, bound⟩ | ⟨empty, _⟩
          · exact .inl ⟨inside, (after (Nat.le_refl _)).1.trans here, (after (Nat.le_refl _)).2 ▸ bound⟩
          · omega
        · exact .inr ⟨by omega, member⟩
  · rcases Nat.lt_or_ge pc mid with less | less
    · obtain ⟨bound, i, next, marked⟩ := marks pc above less
      refine ⟨(before less).2 ▸ bound, i, next, marked.congr (before less) ?_⟩
      rintro more x (⟨above, below, here, known⟩ | member)
      · refine .inl ⟨above, by omega, (before below).1.trans here, ?_⟩
        rwa [(before below).2, (before less).2]
      · rcases onward x member with rfl | member
        · refine enter.imp_left fun ⟨inside, here, few⟩ =>
            ⟨order.1, inside, (after (Nat.le_refl _)).1.trans here, fun name member => .inl ?_⟩
          rw [(after (Nat.le_refl _)).2] at member
          rw [(before less).2]
          exact bound name (few name member)
        · exact .inr member
    · obtain ⟨bound, i, next, marked⟩ := marks' pc less below
      refine ⟨(after less).2 ▸ bound, i, next, marked.congr (after less) ?_⟩
      rintro more x (⟨above, below, here, known⟩ | member)
      · refine .inl ⟨by omega, below, (after above).1.trans here, ?_⟩
        rwa [(after above).2, (after less).2]
      · rcases further x member with ⟨rfl, inside⟩ | member
        · rcases entry with ⟨_, here, few⟩ | ⟨empty, _⟩
          · refine .inl ⟨Nat.le_refl _, by omega, (before inside).1.trans here, fun name member => .inl ?_⟩
            rw [(before inside).2] at member
            rw [(after less).2]
            exact bound name (few name member)
          · omega
        · exact .inr member

/-- An instruction after a stretch. -/
theorem snoc (first : Charted own code lo mid names σ exits) (last : Charted own code mid (mid + 1) names τ exits')
    (same : lo < mid ∨ σ = τ) (onward : ∀ x ∈ exits, x = (mid, τ) ∨ x ∈ out)
    (further : ∀ x ∈ exits', (x = (lo, σ) ∧ lo < mid) ∨ x ∈ out) : Charted own code lo (mid + 1) names σ out :=
  first.append last same onward further

/-- An assignment. From behind it on, the name is bound. -/
theorem write {site : CallSite} (found : code[mid]? = some (.call site)) (named : site.name = "set")
    (two : site.argc = 2) {name : String} (owned : isHidden name = true → own name mid) (k : Option String)
    {ks : List (Option String)} {η : List Nat} (rest : Charted own code (mid + 1) hi (name :: names) ⟨ks, η⟩ exits)
    (more : ∀ x ∈ exits ++ Sketch.unwound η, x ∈ out) :
    Charted own code mid hi names ⟨k :: some name :: ks, η⟩ out := by
  obtain ⟨c, entry, marks⟩ := rest
  have drawn : Draws code.size (.call site) mid ⟨k :: some name :: ks, η⟩ [(mid + 1, ⟨ks, η⟩)] :=
    .assign named two k name mid ks η
  have assigns : (Instruction.call site).Assigns ⟨k :: some name :: ks, η⟩ name := ⟨site, k, ks, rfl, named, two, rfl⟩
  let here : Chart := ⟨fun _ => ⟨k :: some name :: ks, η⟩, fun _ => names⟩
  have at_mid : (here.join c (mid + 1)).sketch mid = ⟨k :: some name :: ks, η⟩ ∧
      (here.join c (mid + 1)).bound mid = names := here.join_before c (Nat.lt_succ_self mid)
  have after {pc : Nat} (less : mid + 1 ≤ pc) := here.join_after c less
  refine ⟨here.join c (mid + 1), .inl ⟨by omega, at_mid.1, at_mid.2 ▸ fun _ => id⟩, fun pc above below => ?_⟩
  rcases Nat.eq_or_lt_of_le above with rfl | less
  · refine ⟨at_mid.2 ▸ fun _ => id, .call site, _, found, at_mid.1 ▸ drawn, ?_, ?_, ?_, nofun⟩
    · rintro x (_ | ⟨_, ⟨⟩⟩)
      rcases entry with ⟨inside, there, few⟩ | ⟨_, member⟩
      · refine .inl ⟨Nat.le_succ _, inside, (after (Nat.le_refl _)).1.trans there, fun other member => ?_⟩
        rw [(after (Nat.le_refl _)).2] at member
        rcases List.mem_cons.mp (few other member) with rfl | known
        · exact .inr (at_mid.1 ▸ assigns)
        · exact .inl (at_mid.2 ▸ known)
      · exact .inr (more _ (List.mem_append_left _ member))
    · intro x member
      rw [at_mid.1] at member
      exact .inr (more x (List.mem_append_right _ member))
    · rw [at_mid.1]
      intro other hidden uses
      obtain ⟨_, _, _, same⟩ := uses.call
      cases same
      exact owned hidden
  · obtain ⟨bound, i, next, marked⟩ := marks pc less below
    refine ⟨fun other member => (after less).2 ▸ bound other (List.mem_cons_of_mem _ member), i, next,
      marked.congr (after less) ?_⟩
    rintro more' x (⟨above, below, there, known⟩ | member)
    · refine .inl ⟨by omega, below, (after above).1.trans there, ?_⟩
      rwa [(after above).2, (after less).2]
    · exact .inr (more x (List.mem_append_left _ member))

end Charted

/-- The hidden names that a stretch reads are owned, and bound. -/
def Reads (own : String → Nat → Prop) (names : List String) (lo : Nat) (is : List Instruction) : Prop :=
  ∀ k name place, is[k]? = some (.load name place) → isHidden name = true → own name (lo + k) ∧ name ∈ names

section

variable {own : String → Nat → Prop} {code : Array Instruction} {names : List String} {lo mid hi : Nat}
  {a b : List Instruction} {i : Instruction}

theorem Reads.left (reads : Reads own names lo (a ++ b)) : Reads own names lo a := by
  intro k name place found hidden
  have inside := (List.getElem?_eq_some_iff.mp found).1
  exact reads k name place ((List.getElem?_append_left inside).trans found) hidden

theorem Reads.right (reads : Reads own names lo (a ++ b)) : Reads own names (lo + a.length) b := by
  intro k name place found hidden
  have there : (a ++ b)[a.length + k]? = some (.load name place) := by
    rwa [List.getElem?_append_right (Nat.le_add_right ..), Nat.add_sub_cancel_left]
  simpa only [Nat.add_assoc] using reads _ name place there hidden

theorem Reads.tail (reads : Reads own names lo (i :: a)) : Reads own names (lo + 1) a := reads.right (a := [i])

theorem Reads.load {name : String} {place : Position} (owned : own name lo) (bound : name ∈ names)
    (rest : Reads own names (lo + 1) a) : Reads own names lo (.load name place :: a) := by
  rintro (_ | k) other place' found hidden
  · cases found
    exact ⟨owned, bound⟩
  · have there := rest k other place' (by simpa using found) hidden
    rwa [Nat.add_assoc, Nat.add_comm 1] at there

theorem Reads.of_none (none : ∀ name place, .load name place ∈ a → isHidden name = false) : Reads own names lo a := by
  intro k name place found hidden
  rw [none name place (List.mem_of_getElem? found)] at hidden
  cases hidden

namespace Charted

variable {C : Instruction → Prop}

/-- Operand code leaves a value on the stack that is no name to be assigned. -/
theorem pushes (calls : CallsOnly C) {n : Nat} {is : List Instruction} (h : Pushes C n is)
    (seg : Segment code lo is) (stop : hi = lo + is.length) (reads : Reads own names lo is) (σ : List (Option String))
    (η : List Nat) :
    Charted own code lo hi names ⟨σ, η⟩ ((hi, ⟨List.replicate n none ++ σ, η⟩) :: Sketch.unwound η) := by
  induction h generalizing lo hi σ with
  | nil =>
    obtain rfl : hi = lo := stop
    exact .nil (by simp)
  | @append m n a b left _ first second =>
    rw [List.length_append] at stop
    refine (first seg.left rfl reads.left σ).append
      (second seg.right (by omega) reads.right (List.replicate m none ++ σ)) ?_ ?_ ?_
    · have := left.le_length
      rcases Nat.eq_zero_or_pos m with rfl | positive
      · simp
      · exact .inl (by omega)
    · simp +contextual
    · rw [Nat.add_comm m n, ← List.replicate_append_replicate, List.append_assoc]
      simp +contextual
  | value =>
    obtain rfl : hi = lo + 1 := stop
    exact .plain seg.head (.next rfl lo σ η) (Instruction.not_uses rfl)
  | load name place =>
    obtain rfl : hi = lo + 1 := stop
    refine .single seg.head (.next rfl lo σ η) ?_ ?_
    · rintro other hidden (⟨⟨⟩⟩ | ⟨⟨_, _, _, ⟨⟩, _⟩⟩ | ⟨⟨⟩⟩)
      exact (reads 0 name place rfl hidden).1
    · rintro other here hidden ⟨⟩
      exact (reads 0 name place rfl hidden).2
  | @call site a known args operands =>
    obtain rfl : hi = lo + a.length + 1 := by simpa [Nat.add_assoc] using stop
    have plain : (Instruction.call site).goesOn = true := by simpa [Instruction.goesOn] using calls site known
    have drawn : Draws code.size _ _ _ _ := .next plain (lo + a.length) (List.replicate site.argc none ++ σ) η
    rw [Instruction.pushes, if_neg (calls site known), Instruction.pops, List.drop_left' (by simp)] at drawn
    refine (operands seg.left rfl reads.left σ).snoc
      (.plain seg.right.head drawn fun _ uses => calls site known uses.call.1) ?_ ?_ ?_
    · have := args.le_length
      rcases Nat.eq_zero_or_pos site.argc with none | positive
      · simp [none]
      · exact .inl (by omega)
    · simp +contextual
    · simp +contextual
  | @send site a _ args operands =>
    have solid := args.le_length
    obtain rfl : hi = lo + a.length + 1 := by simpa [Nat.add_assoc] using stop
    have drawn : Draws code.size (.send site) _ _ _ :=
      .next rfl (lo + a.length) (List.replicate (site.argc + 1) none ++ σ) η
    rw [Instruction.pushes, Instruction.pops, List.drop_left' (by simp)] at drawn
    refine (operands seg.left rfl reads.left σ).snoc (.plain seg.right.head drawn (Instruction.not_uses rfl))
      (.inl (by omega)) ?_ ?_ <;> simp +contextual
  | @shortCircuit kind decided left right conditional one _ first second =>
    have inside := seg.inside
    have solid := one.le_length
    simp only [Fragment.shortCircuit, List.length_append, List.length_cons, List.length_nil]
      at stop inside
    have test : landing? (lo + left.length) (.relative (right.length + 2)) code.size =
        some (.index (lo + left.length + 1 + right.length + 1)) :=
      landing?_relative (by omega) (by omega)
    have skip : landing? (lo + left.length + 1 + right.length) (.relative 2) code.size =
        some (.index hi) := landing?_relative (by omega) (by omega)
    have body := seg.left.right
    have last := seg.right
    rw [List.length_append, List.length_cons, ← Nat.add_assoc, ← Nat.add_assoc,
      Nat.add_right_comm] at last
    obtain rfl : hi = lo + left.length + 1 + right.length + 1 + 1 := by omega
    have asked : Charted own code lo (lo + left.length + 1) names ⟨σ, η⟩ ([(lo + left.length + 1, ⟨σ, η⟩),
        (lo + left.length + 1 + right.length + 1, ⟨σ, η⟩)] ++ Sketch.unwound η) := by
      refine (first seg.left.left rfl reads.left.left σ).snoc
        (.plain body.head (.test conditional test none σ η) (Instruction.not_uses rfl)) (.inl (by omega)) ?_ ?_ <;>
        simp +contextual
    have either : Charted own code lo (lo + left.length + 1 + right.length) names ⟨σ, η⟩
        ([(lo + left.length + 1 + right.length, ⟨none :: σ, η⟩),
          (lo + left.length + 1 + right.length + 1, ⟨σ, η⟩)] ++ Sketch.unwound η) := by
      refine asked.append (second body.tail rfl reads.left.right.tail σ) (.inl (by omega)) ?_ ?_ <;> simp +contextual
    have skipped : Charted own code lo (lo + left.length + 1 + right.length + 1) names ⟨σ, η⟩
        ([(lo + left.length + 1 + right.length + 1, ⟨σ, η⟩),
          (lo + left.length + 1 + right.length + 1 + 1, ⟨none :: σ, η⟩)] ++ Sketch.unwound η) := by
      refine either.snoc (.plain last.head (.jump skip (none :: σ) η) (Instruction.not_uses rfl))
        (.inl (by omega)) ?_ ?_ <;> simp +contextual
    refine skipped.snoc (.plain last.tail.head (.next rfl _ σ η) (Instruction.not_uses rfl)) (.inl (by omega)) ?_ ?_
    · simp +contextual
    · simp +contextual [Instruction.pushes, Instruction.pops]

end Charted

end

/-- Statement code at an index has a chart, wherever regions are open. -/
def ChartsAt (own : String → Nat → Prop) (code : Array Instruction) (names : List String) (lo : Nat)
    (is : List Instruction) : Prop :=
  ∀ hi η, hi = lo + is.length → Charted own code lo hi names ⟨[], η⟩ ((hi, ⟨[], η⟩) :: Sketch.unwound η)

namespace ChartsAt

variable {own own' : String → Nat → Prop} {code : Array Instruction} {names : List String} {lo : Nat}
  {a b condition body rest handler : List Instruction} {C : Instruction → Prop} {kind : BranchKind}

theorem nil : ChartsAt own code names lo [] := by
  rintro hi η rfl
  exact .nil (by simp)

theorem cast {lo' : Nat} (charts : ChartsAt own code names lo a) (same : lo = lo') : ChartsAt own code names lo' a :=
  same ▸ charts

theorem mono (charts : ChartsAt own code names lo a) (more : ∀ name pc, own name pc → own' name pc) :
    ChartsAt own' code names lo a := fun hi η stop => (charts hi η stop).mono more fun _ => id

theorem append (first : ChartsAt own code names lo a) (second : ChartsAt own code names (lo + a.length) b) :
    ChartsAt own code names lo (a ++ b) := by
  intro hi η stop
  rw [List.length_append] at stop
  refine (first _ η rfl).append (second hi η (by omega)) (.inr rfl) ?_ ?_ <;> simp +contextual

theorem stop {index : Nat} {lines : Lines} (seg : Segment code lo [.stop index lines]) :
    ChartsAt own code names lo [.stop index lines] := by
  rintro hi η rfl
  exact .plain seg.head (.next rfl lo [] η) (Instruction.not_uses rfl)

section

variable (calls : CallsOnly C)
include calls

theorem drop (value : Pushes C 1 a) (seg : Segment code lo (a ++ [.discard])) (reads : Reads own names lo a) :
    ChartsAt own code names lo (a ++ [.discard]) := by
  intro hi η stop
  have solid := value.le_length
  obtain rfl : hi = lo + a.length + 1 := by simpa [Nat.add_assoc] using stop
  refine (Charted.pushes calls value seg.left rfl reads [] η).snoc
    (.plain seg.right.head (.next rfl _ [none] η) (Instruction.not_uses rfl)) (.inl (by omega)) ?_ ?_ <;>
    simp +contextual [Instruction.pushes, Instruction.pops]

/-- An assignment and what follows, where the name is bound. -/
theorem assignThen {name : String} {place : Position} (value : Pushes C 1 a)
    (seg : Segment code lo (Fragment.assign name a place ++ b)) (reads : Reads own names (lo + 1) a)
    (owned : isHidden name = true → own name (lo + 1 + a.length))
    (further : ChartsAt own code (name :: names) (lo + (a.length + 2)) b) :
    ChartsAt own code names lo (Fragment.assign name a place ++ b) := by
  intro hi η stop
  have last := seg.left.right
  rw [List.length_cons, Nat.add_comm a.length, ← Nat.add_assoc] at last
  have solid := value.le_length
  simp only [Fragment.assign, List.length_append, List.length_cons, List.length_nil] at stop
  have named : Charted own code lo (lo + 1 + a.length) names ⟨[], η⟩
      ((lo + 1 + a.length, ⟨[none, some name], η⟩) :: Sketch.unwound η) := by
    refine (Charted.plain seg.left.left.head (.name name lo [] η) (Instruction.not_uses rfl)).append
      (Charted.pushes calls value seg.left.left.tail rfl reads [some name] η) (.inl (by omega)) ?_ ?_ <;>
      simp +contextual
  have follows := further hi η (by omega)
  rw [show lo + (a.length + 2) = lo + 1 + a.length + 1 by omega] at follows
  refine named.append (.write last.head rfl (by simp) owned none follows fun _ => id) (.inl (by omega)) ?_ ?_ <;>
    simp +contextual

theorem assign {name : String} {place : Position} (value : Pushes C 1 a)
    (seg : Segment code lo (Fragment.assign name a place)) (reads : Reads own names (lo + 1) a)
    (owned : isHidden name = true → own name (lo + 1 + a.length)) :
    ChartsAt own code names lo (Fragment.assign name a place) := by
  have charts := assignThen calls (b := []) value (by simpa using seg) reads owned nil
  rwa [List.append_nil] at charts

theorem ret (value : Pushes C 1 a) (seg : Segment code lo (a ++ [.branch .always .exit]))
    (reads : Reads own names lo a) : ChartsAt own code names lo (a ++ [.branch .always .exit]) := by
  intro hi η stop
  have solid := value.le_length
  obtain rfl : hi = lo + a.length + 1 := by simpa [Nat.add_assoc] using stop
  refine (Charted.pushes calls value seg.left rfl reads [] η).snoc
    (.plain seg.right.head (.ret _ [none] η) (Instruction.not_uses rfl)) (.inl (by omega)) ?_ ?_ <;>
    simp +contextual

/-- A condition and what runs if it holds. -/
theorem arm {hi other : Nat} {η : List Nat} {offset : Offset} (value : Pushes C 1 condition)
    (seg : Segment code lo (condition ++ .branch kind offset :: body)) (conditional : kind ≠ .always)
    (lands : landing? (lo + condition.length) offset code.size = some (.index other))
    (reads : Reads own names lo condition) (inner : ChartsAt own code names (lo + (condition.length + 1)) body)
    (stop : hi = lo + (condition.length + 1) + body.length) :
    Charted own code lo hi names ⟨[], η⟩ ([(hi, ⟨[], η⟩), (other, ⟨[], η⟩)] ++ Sketch.unwound η) := by
  have solid := value.le_length
  have asked : Charted own code lo (lo + (condition.length + 1)) names ⟨[], η⟩
      ([(lo + (condition.length + 1), ⟨[], η⟩), (other, ⟨[], η⟩)] ++ Sketch.unwound η) := by
    rw [← Nat.add_assoc]
    refine (Charted.pushes calls value seg.left rfl reads [] η).snoc
      (.plain seg.right.head (.test conditional lands none [] η) (Instruction.not_uses rfl)) (.inl (by omega))
      ?_ ?_ <;> simp +contextual
  refine asked.append (inner hi η stop) (.inl (by omega)) ?_ ?_ <;> simp +contextual

theorem skipIf (conditional : kind ≠ .always) (value : Pushes C 1 condition)
    (seg : Segment code lo (Fragment.skipIf kind condition body)) (reads : Reads own names lo condition)
    (inner : ChartsAt own code names (lo + (condition.length + 1)) body) :
    ChartsAt own code names lo (Fragment.skipIf kind condition body) := by
  intro hi η stop
  have inside := seg.inside
  simp only [Fragment.skipIf, List.length_append, List.length_cons] at stop inside
  have test : landing? (lo + condition.length) (.relative (body.length + 1)) code.size = some (.index hi) :=
    landing?_relative (by omega) (by omega)
  exact (arm calls value seg conditional test reads inner (by omega)).mono (fun _ _ => id) (by simp +contextual)

theorem choose (value : Pushes C 1 condition) (seg : Segment code lo (Fragment.choose condition body rest))
    (reads : Reads own names lo condition) (inner : ChartsAt own code names (lo + (condition.length + 1)) body)
    (other : ChartsAt own code names (lo + (condition.length + 1) + body.length + 1) rest) :
    ChartsAt own code names lo (Fragment.choose condition body rest) := by
  intro hi η stop
  have inside := seg.inside
  simp only [Fragment.choose, List.length_append, List.length_cons] at stop inside
  have test : landing? (lo + condition.length) (.relative (body.length + 2)) code.size =
      some (.index (lo + (condition.length + 1) + body.length + 1)) := landing?_relative (by omega) (by omega)
  have skip : landing? (lo + (condition.length + 1) + body.length) (.relative (rest.length + 1)) code.size =
      some (.index hi) := landing?_relative (by omega) (by omega)
  have last := seg.right.cast (show _ = lo + (condition.length + 1) + body.length by simp; omega)
  have skipped : Charted own code lo (lo + (condition.length + 1) + body.length + 1) names ⟨[], η⟩
      ([(lo + (condition.length + 1) + body.length + 1, ⟨[], η⟩), (hi, ⟨[], η⟩)] ++ Sketch.unwound η) := by
    refine (arm calls value seg.left (by simp) test reads inner rfl).snoc
      (.plain last.head (.jump skip [] η) (Instruction.not_uses rfl)) (.inl (by omega)) ?_ ?_ <;> simp +contextual
  refine skipped.append (other hi η (by omega)) (.inl (by omega)) ?_ ?_ <;> simp +contextual

theorem whileLoop (value : Pushes C 1 condition) (seg : Segment code lo (Fragment.whileLoop condition body))
    (reads : Reads own names lo condition) (inner : ChartsAt own code names (lo + (condition.length + 1)) body) :
    ChartsAt own code names lo (Fragment.whileLoop condition body) := by
  intro hi η stop
  have inside := seg.inside
  simp only [Fragment.whileLoop, List.length_append, List.length_cons, List.length_nil] at stop inside
  have test : landing? (lo + condition.length) (.relative (body.length + 2)) code.size = some (.index hi) :=
    landing?_relative (by omega) (by omega)
  have back : landing? (lo + (condition.length + 1) + body.length) (.relative (-(condition.length + 1 + body.length)))
      code.size = some (.index lo) := landing?_relative (by omega) (by omega)
  have last := seg.right.cast (show _ = lo + (condition.length + 1) + body.length by simp; omega)
  obtain rfl : hi = lo + (condition.length + 1) + body.length + 1 := by omega
  refine (arm calls value seg.left (by simp) test reads inner rfl).snoc
    (.plain last.head (.jump back [] η) (Instruction.not_uses rfl)) (.inl (by omega)) ?_ ?_
  all_goals simp +contextual
  all_goals omega

end

theorem guarded {binding : Option String} (seg : Segment code lo (Fragment.guarded body binding handler))
    (plain : ∀ name ∈ binding, isHidden name = false) (inner : ChartsAt own code names (lo + 1) body)
    (other : ChartsAt own code names (lo + 1 + body.length + 3) handler) :
    ChartsAt own code names lo (Fragment.guarded body binding handler) := by
  intro hi η stop
  have inside := seg.inside
  simp only [Fragment.guarded, List.length_append, List.length_cons] at stop inside
  have last := seg.right
  rw [List.length_cons, ← Nat.add_assoc, Nat.add_right_comm] at last
  generalize here : lo + 1 + body.length = p at last other
  have enter : landing? lo (.relative (body.length + 3)) code.size = some (.index (p + 2)) :=
    landing?_relative (by omega) (by omega)
  have skip : landing? (p + 1) (.relative (handler.length + 2)) code.size = some (.index hi) :=
    landing?_relative (by omega) (by omega)
  have catches {s : Sketch} {pc : Nat} (name : String) (hidden : isHidden name = true)
      (uses : (Instruction.caught binding).Uses s name) : own name pc := by
    rcases uses with ⟨⟨⟩⟩ | ⟨⟨_, _, _, ⟨⟩, _⟩⟩ | ⟨⟨⟩⟩
    rw [plain name rfl] at hidden
    cases hidden
  have loads (name : String) (place : Position) (_ : isHidden name = true)
      (load : Instruction.caught binding = .load name place) : name ∈ names := by cases load
  -- The handler is entered from everywhere in the body, with a value that is not there before.
  have entered : Charted own code lo p names ⟨[], η⟩
      ([(p, ⟨[], (p + 2) :: η⟩), (p + 2, ⟨[none], η⟩)] ++ Sketch.unwound η) := by
    refine (Charted.plain seg.left.head (.enterTry enter η) (Instruction.not_uses rfl)).append
      (inner p ((p + 2) :: η) here.symm) (.inl (by omega)) ?_ ?_ <;> simp +contextual [Sketch.unwound]
  have closed : Charted own code lo (p + 1) names ⟨[], η⟩
      ([(p + 1, ⟨[], η⟩), (p + 2, ⟨[none], η⟩)] ++ Sketch.unwound η) := by
    refine entered.snoc (.plain last.head (.leaveTry p (p + 2) [] η) (Instruction.not_uses rfl)) (.inl (by omega))
      ?_ ?_ <;> simp +contextual [Sketch.unwound]
  have skipped : Charted own code lo (p + 2) names ⟨[], η⟩
      ([(hi, ⟨[], η⟩), (p + 2, ⟨[none], η⟩)] ++ Sketch.unwound η) := by
    refine closed.snoc (.plain last.tail.head (.jump skip [] η) (Instruction.not_uses rfl)) (.inl (by omega)) ?_ ?_ <;>
      simp +contextual
  have caught : Charted own code lo (p + 3) names ⟨[], η⟩
      ([(hi, ⟨[], η⟩), (p + 3, ⟨[], η⟩)] ++ Sketch.unwound η) := by
    refine skipped.snoc (.single last.tail.tail.head (.next rfl _ [none] η) catches loads) (.inl (by omega)) ?_ ?_ <;>
      simp +contextual [Instruction.pushes, Instruction.pops]
  refine caught.append (other hi η (by omega)) (.inl (by omega)) ?_ ?_ <;> simp +contextual

/-- A loop over elements. Its variables are bound one after the other, and then it is a loop with a condition. -/
theorem forLoop {program : ProgramId} {calls : List SpelledCall} (known : Admits program C calls)
    (only : CallsOnly C) {n : Nat} {place : Position} {name : String} {namePlace : Position}
    {items : List Instruction} (seg : Segment code lo (Fragment.forLoop n place name namePlace items body))
    (owned : ∀ role pc, OwnAt code n lo pc → own (hiddenName role n) pc) (plain : isHidden name = false)
    (container : Pushes C 1 items) (reads : Reads own names (lo + 1) items)
    (inner : ChartsAt own code (hiddenName "idx" n :: hiddenName "len" n :: hiddenName "iter" n :: names)
      (lo + Fragment.bodyStart items) body) :
    ChartsAt own code names lo (Fragment.forLoop n place name namePlace items body) := by
  have size := Fragment.length_forLoop n place name namePlace items body
  -- An instruction of the loop that is not one of its container or of its body is its own.
  have mine (role : String) {pc : Nat} (here : (lo ≤ pc ∧ pc < lo + items.length + body.length + 28) ∧
      (pc ≤ lo ∨ lo + items.length < pc) ∧ (pc < lo + items.length + 22 ∨ lo + items.length + 22 + body.length ≤ pc)) :
      own (hiddenName role n) pc :=
    owned role pc ⟨place, name, namePlace, items, body, seg, here.1.1, by omega, here.2.1, here.2.2⟩
  have load (role : String) : Pushes C 1 [.load (hiddenName role n) place] := .load _ _
  have number (x : Float) : Pushes C 1 [.value (.number x)] := known.plain rfl
  have lengths := (load "iter").made_send (known.made _ (.size place))
  have equal := (load "len").append (number 0) |>.made_send (known.made _ (.binary .equal place))
  have below := (load "idx").append (load "len") |>.made_send (known.made _ (.binary .less place))
  have element := (load "iter").append (load "idx") |>.made_send (known.made _ (.element place))
  have advance := (load "idx").append (number 1) |>.made_send (known.made _ (.binary .add place))
  have sends {names : List String} {lo : Nat} (site : CallSite) : Reads own names lo [.send site] := .of_none (by simp)
  have constant {names : List String} {lo : Nat} (x : Float) (site : CallSite) :
      Reads own names lo [.value (.number x), .send site] := .of_none (by simp)
  have assigned (name : String) (is : List Instruction) (at_ : Position) :
      (Fragment.assign name is at_).length = is.length + 2 := by simp [Fragment.assign]
  rw [Fragment.forLoop_eq] at seg ⊢
  have seg₂ := seg.right.cast (show _ = lo + (items.length + 2) by rw [assigned])
  have seg₃ := seg₂.right.cast (show _ = lo + (items.length + 2) + (2 + 2) by rw [assigned]; rfl)
  have seg₄ := seg₃.right.cast (show _ = lo + (items.length + 2) + (2 + 2) + (1 + 2) by rw [assigned]; rfl)
  have seg₅ := seg₄.right.tail.cast (show _ = lo + (items.length + 2) + (2 + 2) + (1 + 2) + (3 + 1) by rfl)
  have seg₆ := seg₅.left.right.tail.cast
    (show _ = lo + (items.length + 2) + (2 + 2) + (1 + 2) + (3 + 1) + (3 + 1) by rfl)
  refine assignThen only container seg reads (fun _ => mine "iter" (by omega))
    (assignThen only lengths seg₂ (.load (mine "iter" (by omega)) (by simp) (sends _)) (fun _ => mine "len" ?_)
    (assignThen only (number 0) seg₃ (.of_none (by simp)) (fun _ => mine "idx" ?_)
    (skipIf only (by simp) equal seg₄ (.load (mine "len" ?_) (by simp) (constant 0 _))
    (whileLoop only below seg₅
      (.load (mine "idx" ?_) (by simp) (.load (mine "len" ?_) (by simp) (sends _)))
    (append (assign only element seg₆.left
      (.load (mine "iter" ?_) (by simp) (.load (mine "idx" ?_) (by simp) (sends _)))
      (fun hidden => absurd (plain.symm.trans hidden) (by simp)))
    (append (inner.cast ?_) (assign only advance (seg₆.right.right.cast ?_)
      (.load (mine "idx" ?_) (by simp) (constant 1 _)) fun _ => mine "idx" ?_)))))))
  all_goals simp only [assigned, Fragment.bodyStart, List.length_cons, List.length_nil]
  all_goals omega

end ChartsAt

end ScriptEngine
