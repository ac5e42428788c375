import ScriptEngine.Proofs.Layout

/-! # Finished code can stand anywhere

A buffer is made by a script of operations, some of which append a whole buffer made by a script of its own. A draft
keeps the books of such a script: which slots are still open, and which jump stands where and leads where. Where the
books are in order, that is, every slot is closed once, in its own buffer and before that is appended, the buffer is a
list of instructions in which every jump leads where the draft says, whatever stands before and after it.
-/

namespace ScriptEngine

/-- What can be done to a buffer. A buffer that is appended comes with all that was done to it before. -/
inductive CodeOp where
  | push (i : Instruction)
  | reserve (p : Pending)
  | patch (slot target : Nat)
  | patchToEnd (slot : Nat)
  | fill (slot : Nat) (v : Value)
  | branchTo (kind : BranchKind) (target : Nat)
  | append (ops : List CodeOp)

namespace Code

mutual

/-- A buffer after an operation. -/
def perform (c : Code) : CodeOp → Code
  | .push i => c.push i
  | .reserve p => (c.reserve p).2
  | .patch slot target => c.patch slot target
  | .patchToEnd slot => c.patchToEnd slot
  | .fill slot v => c.fill slot v
  | .branchTo kind target => c.branchTo kind target
  | .append ops => c ++ performAll empty ops

/-- A buffer after some operations, one after the other. -/
def performAll (c : Code) : List CodeOp → Code
  | [] => c
  | op :: ops => performAll (c.perform op) ops

end

end Code

/-- The instruction that a slot holds once it leads somewhere; a constant leads nowhere. -/
def Pending.leading (offset : Offset) : Pending → Option Instruction
  | .branch kind => some (.branch kind offset)
  | .guard => some (.enterTry offset)
  | .constant => none

/-- A branch or the opening of a guarded region: the index where it stands, and the one to which it leads, which may
be the end of what is laid out. -/
structure Jump where
  source : Nat
  target : Nat
  slot : Pending

/-- A jump whose buffer comes to stand `lo` instructions further on. -/
def Jump.shift (lo : Nat) (j : Jump) : Jump := ⟨lo + j.source, lo + j.target, j.slot⟩

/-- The books of a buffer: its size, its open slots and its jumps. -/
structure Draft where
  size : Nat
  opened : List (Nat × Pending)
  jumps : List Jump

namespace Draft

def empty : Draft := ⟨0, [], []⟩

/-- Takes a slot off the open ones. -/
def close (d : Draft) (slot : Nat) : Draft := { d with opened := d.opened.filter (·.1 ≠ slot) }

/-- Closes an open branch or guard, to which something that is laid out is the target. -/
def lead (d : Draft) (slot target : Nat) : Option Draft :=
  match d.opened.lookup slot with
  | some .constant | none => none
  | some p =>
    if target ≤ d.size then some { d.close slot with jumps := ⟨slot, target, p⟩ :: d.jumps } else none

mutual

/-- The books after an operation; none if the operation is out of order. -/
def note (d : Draft) : CodeOp → Option Draft
  | .push _ => some { d with size := d.size + 1 }
  | .reserve p => some { d with size := d.size + 1, opened := (d.size, p) :: d.opened }
  | .patch slot target => d.lead slot target
  | .patchToEnd slot => d.lead slot d.size
  | .fill slot _ => if d.opened.lookup slot = some .constant then some (d.close slot) else none
  | .branchTo kind target =>
    if target ≤ d.size then
      some { d with size := d.size + 1, jumps := ⟨d.size, target, .branch kind⟩ :: d.jumps }
    else none
  | .append ops =>
    match noteAll empty ops with
    | some ⟨size, [], jumps⟩ =>
      some { d with size := d.size + size, jumps := jumps.map (Jump.shift d.size) ++ d.jumps }
    | _ => none

/-- The books after some operations, one after the other; none if one of them is out of order. -/
def noteAll (d : Draft) : List CodeOp → Option Draft
  | [] => some d
  | op :: ops =>
    match d.note op with
    | some d => d.noteAll ops
    | none => none

end

/-- The slot of a jump holds an instruction that leads to its target. -/
structure Shows (c : Code) (j : Jump) : Prop where
  target : j.target ≤ c.size
  source : ∃ i, j.slot.leading (.relative (j.target - j.source)) = some i ∧ c.slots[j.source]? = some (.ready i)

/-- The books of a buffer are right. -/
structure Describes (d : Draft) (c : Code) : Prop where
  size : c.size = d.size
  opened : ∀ k p, (k, p) ∈ d.opened → c.slots[k]? = some (.pending p)
  pending : ∀ k p, c.slots[k]? = some (.pending p) → (k, p) ∈ d.opened
  jumps : ∀ j ∈ d.jumps, Shows c j

variable {d e : Draft} {c c' : Code} {j : Jump} {slot target : Nat} {p : Pending} {i : Instruction}

theorem slot_left {k : Nat} (inside : k < c.size) : (c ++ c').slots[k]? = c.slots[k]? :=
  Array.getElem?_append_left inside

theorem slot_right (k : Nat) : (c ++ c').slots[c.size + k]? = c'.slots[k]? := by
  change (c.slots ++ c'.slots)[c.slots.size + k]? = c'.slots[k]?
  rw [Array.getElem?_append_right (Nat.le_add_right ..), Nat.add_sub_cancel_left]

theorem size_of_slot {k : Nat} {s : Slot} (found : c.slots[k]? = some s) : k < c.size :=
  (Array.getElem?_eq_some_iff.mp found).1

theorem Shows.left (shows : Shows c j) : Shows (c ++ c') j := by
  obtain ⟨i, leads, found⟩ := shows.source
  refine ⟨?_, i, leads, (slot_left (size_of_slot found)).trans found⟩
  rw [Code.size_append]
  exact Nat.le_add_right_of_le shows.target

/-- Only the distance of the target counts, so a jump may move. -/
theorem Shows.right (shows : Shows c' j) : Shows (c ++ c') (j.shift c.size) := by
  obtain ⟨i, leads, found⟩ := shows.source
  refine ⟨?_, i, ?_, (slot_right j.source).trans found⟩
  · rw [Code.size_append]
    exact Nat.add_le_add_left shows.target c.size
  · have same : ((c.size + j.target : Nat) : Int) - (c.size + j.source : Nat) = j.target - j.source := by omega
    change j.slot.leading (.relative (((c.size + j.target : Nat) : Int) - (c.size + j.source : Nat))) = some i
    rw [same, leads]

theorem Describes.append (first : d.Describes c) (second : e.Describes c') :
    Describes ⟨d.size + e.size, e.opened.map (fun s => (d.size + s.1, s.2)) ++ d.opened,
      e.jumps.map (Jump.shift d.size) ++ d.jumps⟩ (c ++ c') := by
  constructor
  · rw [Code.size_append, first.size, second.size]
  · intro k p among
    rcases List.mem_append.mp among with moved | here
    · obtain ⟨⟨n, q⟩, there, same⟩ := List.mem_map.mp moved
      cases same
      rw [← first.size, slot_right]
      exact second.opened n q there
    · have found := first.opened k p here
      exact (slot_left (size_of_slot found)).trans found
  · intro k p found
    rw [List.mem_append, List.mem_map]
    by_cases inside : k < c.size
    · exact .inr (first.pending k p ((slot_left inside).symm.trans found))
    · obtain ⟨n, rfl⟩ := Nat.exists_eq_add_of_le (Nat.le_of_not_lt inside)
      rw [slot_right] at found
      exact .inl ⟨(n, p), second.pending n p found, by rw [first.size]⟩
  · intro j among
    rcases List.mem_append.mp among with moved | here
    · obtain ⟨j, there, rfl⟩ := List.mem_map.mp moved
      rw [← first.size]
      exact (second.jumps j there).right
    · exact (first.jumps j here).left

theorem describes_empty : empty.Describes .empty := by
  constructor
  · rfl
  · exact nofun
  · intro k p found
    cases found
  · exact nofun

theorem describes_ready (i : Instruction) : Describes ⟨1, [], []⟩ (.ofList [i]) := by
  constructor
  · rfl
  · exact nofun
  · intro k p found
    cases k with
    | zero => cases found
    | succ k => cases found
  · exact nofun

theorem describes_opening (p : Pending) : Describes ⟨1, [(0, p)], []⟩ (.opening p) := by
  constructor
  · rfl
  · intro k q among
    cases List.mem_singleton.mp among
    rfl
  · intro k q found
    cases k with
    | zero =>
      cases found
      exact List.mem_singleton.mpr rfl
    | succ k => cases found
  · exact nofun

theorem mem_of_lookup {slots : List (Nat × Pending)} (found : slots.lookup slot = some p) : (slot, p) ∈ slots := by
  obtain ⟨before, after, same, -⟩ := List.lookup_eq_some_iff.mp found
  rw [same]
  exact List.mem_append_right before List.mem_cons_self

/-- The instruction that closes a slot. -/
theorem Describes.settle (right : d.Describes c) (here : c.slots[slot]? = some (.pending p)) (i : Instruction) :
    (d.close slot).Describes ⟨c.slots.setIfInBounds slot (.ready i)⟩ := by
  have other {k : Nat} (apart : k ≠ slot) : (c.slots.setIfInBounds slot (.ready i))[k]? = c.slots[k]? :=
    Array.getElem?_setIfInBounds_ne (Ne.symm apart)
  constructor
  · exact Array.size_setIfInBounds.trans right.size
  · intro k q among
    obtain ⟨there, apart⟩ := List.mem_filter.mp among
    exact (other (of_decide_eq_true apart)).trans (right.opened k q there)
  · intro k q found
    have apart : k ≠ slot := by
      rintro rfl
      rw [Array.getElem?_setIfInBounds_self_of_lt (size_of_slot here)] at found
      cases found
    exact List.mem_filter.mpr ⟨right.pending k q ((other apart).symm.trans found), decide_eq_true apart⟩
  · intro j among
    obtain ⟨inside, i', leads, found⟩ := right.jumps j among
    refine ⟨?_, i', leads, ?_⟩
    · rw [Code.size, Array.size_setIfInBounds]
      exact inside
    · refine (other ?_).trans found
      rintro same
      rw [same, here] at found
      cases found

theorem patch_eq (here : c.slots[slot]? = some (.pending p))
    (leads : p.leading (.relative (target - slot)) = some i) :
    c.patch slot target = ⟨c.slots.setIfInBounds slot (.ready i)⟩ := by
  unfold Code.patch
  rw [here]
  cases p with
  | constant => cases leads
  | branch kind =>
    cases leads
    rfl
  | guard =>
    cases leads
    rfl

theorem Describes.lead (right : d.Describes c) (led : d.lead slot target = some e) :
    e.Describes (c.patch slot target) := by
  have close {p : Pending} {i : Instruction} (among : d.opened.lookup slot = some p)
      (leads : p.leading (.relative (target - slot)) = some i) (inside : target ≤ d.size) :
      Describes { d.close slot with jumps := ⟨slot, target, p⟩ :: d.jumps } (c.patch slot target) := by
    have here := right.opened slot p (mem_of_lookup among)
    have settled := right.settle here i
    rw [patch_eq here leads]
    refine { settled with jumps := ?_ }
    rw [List.forall_mem_cons]
    refine ⟨⟨?_, i, leads, ?_⟩, settled.jumps⟩
    · rw [settled.size]
      exact inside
    · exact Array.getElem?_setIfInBounds_self_of_lt (size_of_slot here)
  unfold Draft.lead at led
  split at led
  · cases led
  · cases led
  · next p other among =>
    split at led
    · next inside =>
      cases led
      cases p with
      | constant => exact absurd rfl other
      | branch kind => exact close among rfl inside
      | guard => exact close among rfl inside
    · cases led

mutual

/-- An operation in order keeps the books right. -/
theorem Describes.perform {d e : Draft} {c : Code} (right : d.Describes c) (op : CodeOp) (noted : d.note op = some e) :
    e.Describes (c.perform op) := by
  cases op with
  | push i =>
    cases noted
    rw [Code.perform, Code.push_eq]
    exact right.append (describes_ready i)
  | reserve p =>
    cases noted
    rw [Code.perform, Code.reserve_eq]
    exact right.append (describes_opening p)
  | patch slot target => exact right.lead noted
  | patchToEnd slot =>
    rw [Code.perform, Code.patchToEnd, right.size]
    exact right.lead noted
  | fill slot v =>
    simp only [note] at noted
    split at noted
    · next among =>
      cases noted
      exact right.settle (right.opened slot _ (mem_of_lookup among)) (.value v)
    · cases noted
  | branchTo kind target =>
    simp only [note] at noted
    split at noted
    · next inside =>
      cases noted
      rw [Code.perform, Code.branchTo, Code.push_eq, right.size]
      have longer := right.append (describes_ready (.branch kind (.relative (target - d.size))))
      refine { longer with jumps := ?_ }
      rw [List.forall_mem_cons]
      refine ⟨⟨?_, _, rfl, ?_⟩, longer.jumps⟩
      · rw [longer.size]
        exact Nat.le_add_right_of_le inside
      · rw [← right.size]
        exact slot_right 0
    · cases noted
  | append ops =>
    simp only [note] at noted
    split at noted
    · next size jumps written =>
      cases noted
      exact right.append (Describes.performAll describes_empty ops written)
    · cases noted

/-- Operations in order keep the books right. -/
theorem Describes.performAll {d e : Draft} {c : Code} (right : d.Describes c) (ops : List CodeOp)
    (noted : d.noteAll ops = some e) : e.Describes (c.performAll ops) := by
  cases ops with
  | nil =>
    cases noted
    exact right
  | cons op ops =>
    simp only [noteAll] at noted
    split at noted
    · next here => exact Describes.performAll (Describes.perform right op here) ops noted
    · cases noted

end

theorem exists_instructions {slots : List Slot} (ready : ∀ s ∈ slots, ∃ i, Slot.ready i = s) :
    ∃ is : List Instruction, is.map .ready = slots := by
  induction slots with
  | nil => exact ⟨[], rfl⟩
  | cons s slots ih =>
    obtain ⟨⟨i, rfl⟩, others⟩ := List.forall_mem_cons.mp ready
    obtain ⟨is, rfl⟩ := ih others
    exact ⟨i :: is, rfl⟩

/-- A buffer without open slots is a list of instructions. -/
theorem Describes.complete (right : d.Describes c) (closed : d.opened = []) :
    ∃ is : List Instruction, is.length = d.size ∧ c = .ofList is := by
  have ready : ∀ s ∈ c.slots.toList, ∃ i, Slot.ready i = s := by
    intro s among
    obtain ⟨k, found⟩ := List.mem_iff_getElem?.mp among
    cases s with
    | ready i => exact ⟨i, rfl⟩
    | pending p =>
      have open' := right.pending k p (Array.getElem?_toList.symm.trans found)
      rw [closed] at open'
      cases open'
  obtain ⟨is, same⟩ := exists_instructions ready
  have whole : c = .ofList is := by
    rw [Code.ofList, same]
  refine ⟨is, ?_, whole⟩
  rw [← right.size, whole, Code.size_ofList]

end Draft

/-- The number that is written for an offset fits into a signed word of 32 bits, and is not the one that leaves the
procedure. -/
def Offset.IsWritable (offset : Offset) : Prop := -2147483648 ≤ offset.toInt ∧ offset.toInt < returnOffset

/-- An instruction that leads from one index of a list to another, by an offset that is read as it was written. -/
def Jump.LeadsIn (j : Jump) (code : Array Instruction) : Prop :=
  ∃ i offset, j.slot.leading offset = some i ∧ code[j.source]? = some i ∧ offset.IsWritable ∧
    landing? j.source (.ofInt offset.toInt) code.size = some (.index j.target)

/-- A jump that shows in a buffer leads to its target in a list that the buffer is part of. -/
theorem Draft.Shows.leads {is before after : List Instruction} {j : Jump} (shows : Shows (.ofList is) j)
    (short : (before ++ is ++ after).length < 2147483647) :
    (j.shift before.length).LeadsIn (before ++ is ++ after).toArray := by
  obtain ⟨inside, i, leads, found⟩ := shows
  have stands : is[j.source]? = some i := by
    simpa [Code.ofList] using found
  have place : j.source < is.length := (List.getElem?_eq_some_iff.mp stands).1
  rw [Code.size_ofList] at inside
  simp only [List.length_append] at short
  have writable : Offset.IsWritable (.relative (j.target - j.source)) := by
    change -2147483648 ≤ (j.target : Int) - j.source ∧ (j.target : Int) - j.source < 2147483647
    omega
  refine ⟨i, .relative (j.target - j.source), leads, ?_, writable, ?_⟩
  · change (before ++ is ++ after).toArray[before.length + j.source]? = some i
    rw [List.getElem?_toArray, List.append_assoc, List.getElem?_append_right (Nat.le_add_right ..),
      Nat.add_sub_cancel_left, List.getElem?_append_left place, stands]
  · have read : Offset.ofInt ((j.target : Int) - j.source) = .relative (j.target - j.source) :=
      if_neg (Int.ne_of_lt writable.2)
    change landing? (before.length + j.source) (.ofInt ((j.target : Int) - j.source)) _ = _
    rw [read]
    apply landing?_relative
    · change ((before.length + j.target : Nat) : Int) = (before.length + j.source : Nat) + (j.target - j.source : Int)
      omega
    · simp only [Jump.shift, List.size_toArray, List.length_append]
      omega

/-- Code whose slots are all closed, each once and in its own buffer before that is appended, is position
independent. It finishes as a list of instructions, and as the same list between any others; and there each branch and
each opening of a guarded region, at whatever depth its buffer was appended, leads to the place that was its target
when it was laid out or closed. -/
theorem Code.performAll_relocatable {ops : List CodeOp} {d : Draft} (noted : Draft.noteAll .empty ops = some d)
    (closed : d.opened = []) :
    ∃ is : List Instruction, is.length = d.size ∧ (performAll empty ops).finish = .ok is.toArray ∧
      ∀ before after : List Instruction, (before ++ is ++ after).length < 2147483647 →
        (ofList before ++ performAll empty ops ++ ofList after).finish = .ok (before ++ is ++ after).toArray ∧
        ∀ j ∈ d.jumps, (j.shift before.length).LeadsIn (before ++ is ++ after).toArray := by
  have right := Draft.describes_empty.performAll ops noted
  obtain ⟨is, long, same⟩ := right.complete closed
  rw [same] at right ⊢
  refine ⟨is, long, finish_ofList is, ?_⟩
  intro before after short
  refine ⟨?_, ?_⟩
  · rw [ofList_append, ofList_append, finish_ofList]
  · intro j among
    exact (right.jumps j among).leads short

namespace Code

/-- A guarded region around a loop whose buffer is appended, and a constant behind both. The loop is left for the end of
its own buffer, which is not that of the whole. -/
def guardedLoop : List CodeOp :=
  [.reserve .guard,
    .append [.reserve (.branch .ifFalse), .push .discard, .branchTo .always 0, .patchToEnd 0],
    .push .leaveTry, .patchToEnd 0, .reserve .constant, .fill 5 (.bool true)]

def guardedLoopDraft : Draft :=
  ⟨6, [], [⟨0, 5, .guard⟩, ⟨1, 4, .branch .ifFalse⟩, ⟨3, 1, .branch .always⟩]⟩

theorem guardedLoop_relocatable :
    Draft.noteAll .empty guardedLoop = some guardedLoopDraft ∧ guardedLoopDraft.opened = [] ∧
      ∃ is : List Instruction, is.length = guardedLoopDraft.size ∧
        (performAll empty guardedLoop).finish = .ok is.toArray ∧
        ∀ before after : List Instruction, (before ++ is ++ after).length < 2147483647 →
          (ofList before ++ performAll empty guardedLoop ++ ofList after).finish =
            .ok (before ++ is ++ after).toArray ∧
          ∀ j ∈ guardedLoopDraft.jumps, (j.shift before.length).LeadsIn (before ++ is ++ after).toArray :=
  ⟨rfl, rfl, performAll_relocatable (d := guardedLoopDraft) rfl rfl⟩

end Code

end ScriptEngine
