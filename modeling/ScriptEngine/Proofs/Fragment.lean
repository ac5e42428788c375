import ScriptEngine.Code

/-! # Fragments

What a code buffer holds once its slots are closed. Each common sequence of instructions has a closed form
on lists, in which the offsets are read off the lengths of the parts; building a buffer slot by slot and
patching it yields exactly that list. So later statements are about lists and never about open slots.
-/

namespace ScriptEngine

namespace Fragment

/-- Assigns what `code` computes to a variable. -/
def assign (name : String) (code : List Instruction) (place : Position) : List Instruction :=
  .value (.string name) :: code ++ [.call (.positional "set" 2 place)]

/-- `left`, then `right` unless the value of `left` branches under `kind`. -/
def shortCircuit (kind : BranchKind) (decided : Bool) (left right : List Instruction) :
    List Instruction :=
  left ++ .branch kind (.relative (right.length + 2)) :: right ++
    [.branch .always (.relative 2), .value (.bool decided)]

/-- `body` unless the value of `condition` branches under `kind`. -/
def skipIf (kind : BranchKind) (condition body : List Instruction) : List Instruction :=
  condition ++ .branch kind (.relative (body.length + 1)) :: body

/-- `body` if `condition` holds, and `rest` if it does not. -/
def choose (condition body rest : List Instruction) : List Instruction :=
  condition ++ .branch .ifFalse (.relative (body.length + 2)) :: body ++
    .branch .always (.relative (rest.length + 1)) :: rest

/-- `body` if `condition` holds, and nothing or `rest` if it does not. -/
def conditional (condition body : List Instruction) : Option (List Instruction) → List Instruction
  | none => skipIf .ifFalse condition body
  | some rest => choose condition body rest

/-- `body` as long as `condition` holds. -/
def whileLoop (condition body : List Instruction) : List Instruction :=
  condition ++ .branch .ifFalse (.relative (body.length + 2)) :: body ++
    [.branch .always (.relative (-(condition.length + 1 + body.length)))]

/-- `body`, and `handler` if an error escapes from it. -/
def guarded (body : List Instruction) (binding : Option String) (handler : List Instruction) :
    List Instruction :=
  .enterTry (.relative (body.length + 3)) :: body ++
    .leaveTry :: .branch .always (.relative (handler.length + 2)) :: .caught binding :: handler

/-- `body` for each element of what `items` computes: an index loop over the hidden variables of the `n`-th
loop. -/
def forLoop (n : Nat) (place : Position) (name : String) (namePlace : Position)
    (items body : List Instruction) : List Instruction :=
  let container : Instruction := .load (hiddenName "iter" n) place
  let length : Instruction := .load (hiddenName "len" n) place
  let index : Instruction := .load (hiddenName "idx" n) place
  let send (method : String) (count : Nat) : Instruction := .send (.positional method count place)
  assign (hiddenName "iter" n) items place ++
    assign (hiddenName "len" n) [container, send "size" 0] place ++
    assign (hiddenName "idx" n) [.value (.number 0)] place ++
    skipIf .ifTrue [length, .value (.number 0), send "__eq__" 1]
      (whileLoop [index, length, send "__lt__" 1]
        (assign name [container, index, send "__index__" 1] namePlace ++ body ++
          assign (hiddenName "idx" n) [index, .value (.number 1), send "__add__" 1] place))

end Fragment

namespace Code

/-- The buffer of some instructions. -/
def ofList (is : List Instruction) : Code := ⟨(is.map Slot.ready).toArray⟩

/-- A buffer of one open slot. -/
def opening (p : Pending) : Code := ⟨#[.pending p]⟩

theorem append_slots (c d : Code) : (c ++ d).slots = c.slots ++ d.slots := rfl

@[simp] theorem append_assoc (a b c : Code) : a ++ b ++ c = a ++ (b ++ c) := by
  change Code.mk (a.slots ++ b.slots ++ c.slots) = Code.mk (a.slots ++ (b.slots ++ c.slots))
  rw [Array.append_assoc]

@[simp] theorem append_empty (c : Code) : c ++ empty = c := by
  change Code.mk (c.slots ++ #[]) = c
  rw [Array.append_empty]

@[simp] theorem empty_append (c : Code) : empty ++ c = c := by
  change Code.mk (#[] ++ c.slots) = c
  rw [Array.empty_append]

@[simp] theorem size_append (c d : Code) : (c ++ d).size = c.size + d.size := by
  simp only [size, append_slots, Array.size_append]

@[simp] theorem size_ofList (is : List Instruction) : (ofList is).size = is.length := by
  simp only [size, ofList, List.size_toArray, List.length_map]

@[simp] theorem size_opening (p : Pending) : (opening p).size = 1 := rfl

@[simp] theorem ofList_append (a b : List Instruction) : ofList a ++ ofList b = ofList (a ++ b) := by
  change Code.mk _ = Code.mk _
  simp only [ofList, List.map_append, List.append_toArray]

@[simp] theorem ofList_append_append (a b : List Instruction) (c : Code) :
    ofList a ++ (ofList b ++ c) = ofList (a ++ b) ++ c := by
  rw [← append_assoc, ofList_append]

theorem push_eq (c : Code) (i : Instruction) : c.push i = c ++ ofList [i] := by
  change Code.mk _ = Code.mk _
  simp only [ofList, List.map_cons, List.map_nil, Array.push_eq_append]

theorem reserve_eq (c : Code) (p : Pending) : c.reserve p = (c.size, c ++ opening p) := by
  change (c.size, Code.mk _) = (c.size, Code.mk _)
  simp only [opening, Array.push_eq_append]

theorem empty_eq : empty = ofList [] := rfl

theorem close_ready (is : List Instruction) (n : Nat) : close n (is.map Slot.ready) = .ok is := by
  induction is generalizing n with
  | nil => rfl
  | cons i rest ih =>
    simp only [List.map_cons, close, ih]
    rfl

/-- A buffer without open slots is a finished list. -/
theorem finish_ofList (is : List Instruction) : (ofList is).finish = .ok is.toArray := by
  simp only [finish, ofList, close_ready]
  rfl

theorem slot_at (c d : Code) (p : Pending) :
    (c ++ (opening p ++ d)).slots[c.size]? = some (.pending p) := by
  simp only [append_slots, opening, size]
  rw [Array.getElem?_append_right (Nat.le_refl _), Nat.sub_self]
  exact Array.getElem?_append_left (Nat.zero_lt_one)

theorem set_slot (c d : Code) (p : Pending) (i : Instruction) :
    Code.mk ((c ++ (opening p ++ d)).slots.setIfInBounds c.size (.ready i)) =
      c ++ (ofList [i] ++ d) := by
  change _ = Code.mk _
  congr 1
  simp only [append_slots, opening, size, ofList]
  apply Array.ext'
  simp

theorem patch_branch {c d : Code} {kind : BranchKind} {slot target : Nat} {n : Int}
    (here : slot = c.size) (there : (target : Int) = slot + n) :
    (c ++ (opening (.branch kind) ++ d)).patch slot target =
      c ++ (ofList [.branch kind (.relative n)] ++ d) := by
  subst here
  obtain rfl : n = target - c.size := by omega
  simp only [patch, slot_at]
  exact set_slot ..

theorem patch_guard {c d : Code} {slot target : Nat} {n : Int}
    (here : slot = c.size) (there : (target : Int) = slot + n) :
    (c ++ (opening .guard ++ d)).patch slot target =
      c ++ (ofList [.enterTry (.relative n)] ++ d) := by
  subst here
  obtain rfl : n = target - c.size := by omega
  simp only [patch, slot_at]
  exact set_slot ..

@[simp] theorem size_patch (c : Code) (slot target : Nat) : (c.patch slot target).size = c.size := by
  unfold patch
  split <;> simp [size]

/-- Filling a constant changes nothing to the right of its buffer. -/
theorem fill_append (c d : Code) (slot : Nat) (v : Value) (h : slot < c.size) :
    (c ++ d).fill slot v = c.fill slot v ++ d := by
  change Code.mk _ = Code.mk _
  congr 1
  simp only [append_slots, fill]
  apply Array.ext'
  rw [size] at h
  simp [h]

theorem fill_opening (c d : Code) (v : Value) :
    (c ++ (opening .constant ++ d)).fill c.size v = c ++ (ofList [.value v] ++ d) :=
  set_slot ..

@[simp] theorem size_fill (c : Code) (slot : Nat) (v : Value) : (c.fill slot v).size = c.size := by
  simp only [size, fill, Array.size_setIfInBounds]

theorem value_eq (v : Value) : value v = ofList [.value v] := rfl

theorem load_eq (name : String) (place : Position) : load name place = ofList [.load name place] := rfl

theorem call_eq (name : String) (count : Nat) (place : Position) :
    call name count place = ofList [.call (.positional name count place)] := rfl

theorem send_eq (name : String) (count : Nat) (place : Position) :
    send name count place = ofList [.send (.positional name count place)] := rfl

theorem discard_eq : discard = ofList [.discard] := rfl

theorem assign_ofList (name : String) (is : List Instruction) (place : Position) :
    assign name (ofList is) place = ofList (Fragment.assign name is place) := by
  simp only [assign, value_eq, call_eq, ofList_append, Fragment.assign, List.cons_append, List.nil_append]

theorem shortCircuit_ofList (kind : BranchKind) (decided : Bool) (left right : List Instruction) :
    shortCircuit kind decided (ofList left) (ofList right) =
      ofList (Fragment.shortCircuit kind decided left right) := by
  simp only [shortCircuit, reserve_eq, patchToEnd, append_assoc]
  rw [patch_branch (n := right.length + 2) rfl (by simp; omega)]
  simp only [value_eq, append_assoc, ofList_append_append]
  rw [patch_branch (n := 2) (by simp; omega) (by simp; omega)]
  simp [Fragment.shortCircuit]

theorem skipIf_ofList (kind : BranchKind) (condition body : List Instruction) :
    (ofList condition ++ (opening (.branch kind) ++ ofList body)).patchToEnd condition.length =
      ofList (Fragment.skipIf kind condition body) := by
  rw [patchToEnd, patch_branch (n := body.length + 1) (by simp) (by simp; omega)]
  simp [Fragment.skipIf]

theorem conditional_ofList (condition body : List Instruction) (rest : Option (List Instruction)) :
    conditional (ofList condition) (ofList body) (rest.map ofList) =
      ofList (Fragment.conditional condition body rest) := by
  cases rest with
  | none =>
    simp only [conditional, reserve_eq, Option.map_none, append_assoc, size_ofList]
    exact skipIf_ofList ..
  | some rest =>
    simp only [conditional, reserve_eq, Option.map_some, append_assoc, patchToEnd]
    rw [patch_branch (n := body.length + 2) rfl (by simp; omega)]
    simp only [append_assoc, ofList_append_append]
    rw [patch_branch (n := rest.length + 1) (by simp; omega) (by simp; omega)]
    simp [Fragment.conditional, Fragment.choose]

theorem whileLoop_ofList (condition body : List Instruction) :
    whileLoop (ofList condition) (ofList body) = ofList (Fragment.whileLoop condition body) := by
  have back : (0 : Nat) - ((condition.length + (1 + body.length) : Nat) : Int) =
      -(condition.length + 1 + body.length) := by omega
  simp only [whileLoop, reserve_eq, branchTo, push_eq, append_assoc, patchToEnd]
  rw [patch_branch (n := body.length + 2) rfl (by simp; omega)]
  simp only [size_append, size_ofList, size_opening, back]
  simp [Fragment.whileLoop]

theorem guarded_ofList (body : List Instruction) (binding : Option String)
    (handler : List Instruction) :
    guarded (ofList body) binding (ofList handler) =
      ofList (Fragment.guarded body binding handler) := by
  simp only [guarded, reserve_eq, push_eq, append_assoc, empty_append, patchToEnd]
  rw [← empty_append (opening .guard ++ _), patch_guard (n := body.length + 3) rfl]
  · simp only [append_assoc, empty_append, ofList_append_append]
    rw [patch_branch (n := handler.length + 2) (by simp; omega) (by simp; omega)]
    simp [Fragment.guarded]
  · simp [empty_eq]
    omega

/-- A loop behind a branch that skips it, with both exits still open. -/
theorem skippedLoop_ofList {start condition body : List Instruction} {skip exit stop last : Nat}
    {back : Int} (skip_eq : skip = start.length) (exit_eq : exit = start.length + 1 + condition.length)
    (stop_eq : stop = start.length + condition.length + body.length + 3) (last_eq : last = stop)
    (back_eq : back = -(condition.length + 1 + body.length)) :
    ((ofList start ++ (opening (.branch .ifTrue) ++ (ofList condition ++
      (opening (.branch .ifFalse) ++ ofList (body ++ [.branch .always (.relative back)]))))).patch
        exit stop).patch skip last =
      ofList (Fragment.skipIf .ifTrue start (Fragment.whileLoop condition body)) := by
  subst last_eq skip_eq exit_eq stop_eq back_eq
  rw [← append_assoc (opening (.branch .ifTrue)), ← append_assoc (ofList start),
    patch_branch (n := body.length + 2) (by simp; omega) (by simp; omega)]
  simp only [append_assoc, ofList_append]
  rw [patch_branch (n := condition.length + body.length + 3) (by simp) (by simp; omega)]
  have length : (Fragment.whileLoop condition body).length = condition.length + body.length + 2 := by
    simp [Fragment.whileLoop]
    omega
  simp only [Fragment.skipIf, length, ofList_append]
  congr 1
  simp [Fragment.whileLoop]
  omega

theorem forLoop_ofList (n : Nat) (place : Position) (name : String) (namePlace : Position)
    (items body : List Instruction) :
    forLoop n place name namePlace (ofList items) (ofList body) =
      ofList (Fragment.forLoop n place name namePlace items body) := by
  simp only [forLoop, reserve_eq, branchTo, push_eq, patchToEnd, value_eq, load_eq, send_eq,
    ofList_append, assign_ofList, append_assoc]
  rw [skippedLoop_ofList (by simp) (by simp) (by simp; omega) (by simp) (by simp; omega)]
  simp [Fragment.forLoop, Fragment.skipIf]

end Code

end ScriptEngine
