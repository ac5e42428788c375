import ScriptEngine.Proofs.LoopVariables
import ScriptEngine.Proofs.Placement

/-! # The variables of loops are private

A frame writes a variable where it executes an assignment or binds a message, and nowhere else. In compiled code the
only instructions that write or read a hidden variable are those of the loop that it was made up for, and wherever one
of them reads it, one of them has written it before, in the same frame. Unless a static of the class captures the name,
it has the value that was written last.
-/

namespace ScriptEngine

/-- The name and the value that are the operands of an assignment. -/
def assigned? : Arguments → Option (String × Value)
  | ⟨_, .string name⟩ :: ⟨_, v⟩ :: _ => some (name, v)
  | _ => none

/-- The variable that an instruction writes, and its value. -/
def Instruction.write? (m : Machine) : Instruction → Option (String × Value)
  | .call site => if site.name = "set" then assigned? (m.operands site) else none
  | .caught binding => binding.bind fun name => m.frame.stack.top?.map (name, ·)
  | _ => none

/-- The variable that a machine is about to write, and its value. -/
def Machine.write? (m : Machine) : Option (String × Value) :=
  m.frame.procedure.code[m.frame.pc]?.bind (Instruction.write? m)

namespace Frame

/-- The own variables of a frame after a write, if there is one. -/
def written (f : Frame) (s : Store) : Option (String × Value) → Locals
  | some (name, v) => (f.assign s name v).1.locals
  | none => f.locals

variable {f g : Frame} {s : Store} {name other : String} {v : Value}

theorem written_congr (locals : g.locals = f.locals) (owner : g.owner = f.owner) (program : g.program = f.program)
    (write : Option (String × Value)) : g.written s write = f.written s write := by
  rcases write with _ | ⟨name, v⟩
  · exact locals
  · simp only [written, assign, staticOwner?, locals, owner, program]
    grind

/-- What the frame assigns to a hidden name becomes a variable of its own: a procedure has a variable of that name
already, or neither its class has such a static nor its program such a member. -/
def Keeps (f : Frame) (s : Store) (name : String) : Prop :=
  ∀ table, f.locals = .procedure table → table.contains name = false →
    f.staticOwner? s name = none ∧ (s.program f.program).members.contains name = false

theorem get?_assign_self (hidden : isHidden name = true) (keeps : f.Keeps s name) :
    (f.assign s name v).1.locals.get? name = some v := by
  unfold assign
  split
  · simp [hidden, Locals.get?, Locals.table, Table.get?_set]
  · next table same =>
    split
    · simp [Locals.get?, Locals.table, Table.get?_set]
    · next fresh =>
      obtain ⟨none, free⟩ := keeps table same (by simpa using fresh)
      simp [none, free, Locals.get?, Locals.table, Table.get?_set]

theorem get?_assign_other (differ : other ≠ name) :
    (f.assign s other v).1.locals.get? name = f.locals.get? name := by
  have kept (table : Bindings) : (table.set other v).get? name = table.get? name := by
    rw [Table.get?_set, if_neg differ.symm]
  unfold assign
  split
  · next same =>
    rw [same]
    split
    · exact kept _
    · split <;> exact same ▸ rfl
  · next same =>
    rw [same]
    split
    · exact kept _
    · split
      · exact same ▸ rfl
      · split
        · exact same ▸ rfl
        · exact kept _

end Frame

namespace Machine

variable {host : Host} {calls : Calls} {m m' : Machine} {i : Instruction}

theorem callNamed_locals {site : CallSite} {u : Unit} (run : callNamed host calls site m = .ok u m') :
    m'.frame.locals = m.frame.written m.state.store (Instruction.write? m (.call site)) := by
  rw [callNamed_eq] at run
  split at run
  · cases run
  split at run
  · next named =>
    rw [Instruction.write?, if_pos named]
    rcases assignArguments_cases ((m.placed site.place).dropped site.argc) (m.operands site) with
      ⟨_, name, _, v, _, same, assigned⟩ | ⟨_, failed, _⟩
    · rw [assigned, assign_eq] at run
      cases run
      rw [same]
      exact Frame.written_congr (f := m.frame) (g := ((m.placed site.place).dropped site.argc).frame) rfl rfl rfl
        (some (name, v))
    · rw [failed] at run
      cases run
  · next named =>
    obtain ⟨v, m₁, called, pushed⟩ := bind_eq_ok_iff.mp run
    have same := onState_ok called
    rw [Instruction.write?, if_neg named, push_ok pushed]
    change m₁.frame.locals = _
    rw [same]
    rfl

theorem sendNamed_locals {site : CallSite} {u : Unit} (run : sendNamed host calls site m = .ok u m') :
    m'.frame.locals = m.frame.locals := by
  rcases sendNamed_cases m host calls site with ⟨receiver, found, sent⟩ | ⟨_, _, failed⟩
  · rw [sent] at run
    obtain ⟨v, m₁, got, pushed⟩ := bind_eq_ok_iff.mp run
    have same := sendTo_ok got
    rw [push_ok pushed]
    change m₁.frame.locals = _
    rw [same]
    rfl
  · rw [failed] at run
    cases run

theorem branch_locals {kind : BranchKind} {offset : Offset} {flow : Flow}
    (run : branch kind offset m = .ok flow m') : m'.frame.locals = m.frame.locals := by
  have land_ok {m₁ : Machine} (run : m₁.land offset = .ok flow m') : m' = m₁ := by
    unfold land at run
    split at run <;> cases run <;> rfl
  rw [branch_eq] at run
  by_cases always : kind = .always
  · subst always
    rw [decides_always] at run
    rw [land_ok run]
  · rcases decides_cases m always with ⟨b, top, decided⟩ | ⟨_, _, _, _, _, failed⟩ | ⟨_, failed⟩
    · rw [decided] at run
      cases taken : b == (kind == .ifTrue) with
      | true =>
        rw [taken] at run
        rw [land_ok run]
        rfl
      | false =>
        rw [taken] at run
        cases run
        rfl
    · rw [failed] at run
      cases run
    · rw [failed] at run
      cases run

theorem takeMessage_locals {binding : Option String} {u : Unit} (run : takeMessage binding m = .ok u m') :
    m'.frame.locals = m.frame.written m.state.store (Instruction.write? m (.caught binding)) := by
  rcases m.takeMessage_cases binding with ⟨message, top, took⟩ | ⟨_, failed⟩
  · rw [took] at run
    cases binding with
    | none =>
      cases run
      rfl
    | some name =>
      cases run
      have write : Instruction.write? m (.caught (some name)) = some (name, message) := by
        simp [Instruction.write?, top]
      rw [write]
      exact Frame.written_congr (f := m.frame) (g := (m.dropped 1).frame) rfl rfl rfl (some (name, message))
  · rw [failed] at run
    cases run

/-- An instruction changes the variables of its frame only if it writes one. -/
theorem step_locals {flow : Flow} (run : step host calls i m = .ok flow m') :
    m'.frame.locals = m.frame.written m.state.store (i.write? m) := by
  cases i with
  | branch kind offset => exact branch_locals run
  | value v =>
    obtain ⟨u, m₁, done, last⟩ := bind_eq_ok_iff.mp run
    cases last
    rw [push_ok done]
    rfl
  | load name place =>
    rw [step_load_eq] at run
    obtain ⟨v, m₁, loaded, rest⟩ := bind_eq_ok_iff.mp run
    obtain ⟨u, m₂, done, last⟩ := bind_eq_ok_iff.mp rest
    cases last
    have same := onState_ok loaded
    rw [push_ok done]
    change m₁.frame.locals = _
    rw [same]
    rfl
  | call site =>
    obtain ⟨u, m₁, done, last⟩ := bind_eq_ok_iff.mp run
    cases last
    exact callNamed_locals done
  | send site =>
    obtain ⟨u, m₁, done, last⟩ := bind_eq_ok_iff.mp run
    cases last
    exact sendNamed_locals done
  | stop index lines =>
    obtain ⟨u, m₁, done, last⟩ := bind_eq_ok_iff.mp run
    cases last
    obtain ⟨place, state, _, passed | failed⟩ := m.passMarker_cases index lines
    · rw [passed] at done
      cases done
      rfl
    · rw [failed] at done
      cases done
  | discard =>
    obtain ⟨u, m₁, done, last⟩ := bind_eq_ok_iff.mp run
    cases last
    rcases m.pop_cases with ⟨v, top, took⟩ | ⟨_, failed⟩
    · rw [took] at done
      cases done
      rfl
    · rw [failed] at done
      cases done
  | enterTry offset =>
    obtain ⟨u, m₁, done, last⟩ := bind_eq_ok_iff.mp run
    cases last
    rcases m.enterTry_cases offset with ⟨target, lands, opened⟩ | ⟨_, failed⟩
    · rw [opened] at done
      cases done
      rfl
    · rw [failed] at done
      cases done
  | leaveTry =>
    obtain ⟨u, m₁, done, last⟩ := bind_eq_ok_iff.mp run
    cases last
    rw [leaveTry_eq] at done
    split at done
    · cases done
    · cases done
      rfl
  | caught binding =>
    obtain ⟨u, m₁, done, last⟩ := bind_eq_ok_iff.mp run
    cases last
    exact takeMessage_locals done

/-- An instruction that writes a variable raises no run-time error. -/
theorem write?_raised {e : LocatedError} (run : step host calls i m = .error (.failed (.runtime e)) m') :
    i.write? m = none := by
  cases i with
  | call site =>
    rw [Instruction.write?]
    split
    · next named =>
      exfalso
      rcases bind_eq_error_iff.mp run with failed | ⟨_, _, _, last⟩
      · rw [callNamed_eq, if_pos named] at failed
        split at failed
        · cases failed
        · rcases assignArguments_cases ((m.placed site.place).dropped site.argc) (m.operands site) with
            ⟨_, _, _, _, _, _, assigned⟩ | ⟨_, broken, _⟩
          · rw [assigned, assign_eq] at failed
            cases failed
          · rw [broken] at failed
            cases failed
      · cases last
    · rfl
  | caught binding =>
    exfalso
    rcases bind_eq_error_iff.mp run with failed | ⟨_, _, _, last⟩
    · rcases m.takeMessage_cases binding with ⟨message, top, took⟩ | ⟨_, broken⟩
      · rw [took] at failed
        cases binding <;> cases failed
      · rw [broken] at failed
        cases failed
    · cases last
  | _ => rfl

/-- A turn changes the variables of its frame only by the write that the machine was about to do. -/
theorem Turned.locals (turned : Turned host calls m m') :
    m'.frame.locals = m.frame.written m.state.store m.write? := by
  cases turned with
  | onward found run | jumped found run =>
    have kept := step_locals run
    rw [write?, found]
    exact kept
  | caught found run regions =>
    rw [write?, found, Option.bind_some, write?_raised run]
    exact (step_failed run).locals

/-- On the way from one machine to another the frame wrote a variable, and after that it did not write it again. The
index is that of the instruction which wrote it last, and the value is what it wrote. -/
inductive LastWrote (host : Host) (calls : Calls) (name : String) (start : Machine) : Machine → Nat → Value → Prop
  | wrote {m m' : Machine} {v : Value} : Reaches host calls start m → m.write? = some (name, v) →
    turn host calls m = .inl m' → LastWrote host calls name start m' m.frame.pc v
  | kept {m m' : Machine} {pc : Nat} {v : Value} : LastWrote host calls name start m pc v →
    (∀ w, m.write? ≠ some (name, w)) → turn host calls m = .inl m' → LastWrote host calls name start m' pc v

variable {start : Machine} {name : String} {v : Value} {pc : Nat}

/-- What was written once was last written by some instruction, however the frame goes on. -/
theorem LastWrote.onward (last : LastWrote host calls name start m pc v) (reached : Reaches host calls start m)
    (here : turn host calls m = .inl m') : ∃ pc v, LastWrote host calls name start m' pc v := by
  by_cases again : ∃ w, m.write? = some (name, w)
  · obtain ⟨w, again⟩ := again
    exact ⟨_, w, .wrote reached again here⟩
  · exact ⟨pc, v, last.kept (fun w same => again ⟨w, same⟩) here⟩

/-- A frame has the hidden variables that it keeps as it wrote them last. -/
theorem LastWrote.holds (last : LastWrote host calls name start m pc v) (hidden : isHidden name = true)
    (keeps : ∀ m w, Reaches host calls start m → m.write? = some (name, w) → m.frame.Keeps m.state.store name) :
    m.frame.locals.get? name = some v := by
  induction last with
  | @wrote m m' v reached write here =>
    rw [(turn_inl here).locals, write]
    exact Frame.get?_assign_self hidden (keeps m v reached write)
  | @kept m m' pc v _ other here ih =>
    rw [(turn_inl here).locals]
    cases write : m.write? with
    | none => exact ih
    | some entry =>
      refine (Frame.get?_assign_other fun same => other entry.2 ?_).trans ih
      rw [write, ← same]

end Machine

/-- What is known of a value on the stack: that it is a certain string, or nothing. -/
def Named (k : Option String) (v : Value) : Prop := ∀ name ∈ k, v = .string name

theorem named_none (v : Value) : Named none v := nofun

theorem named_some {name : String} : Named (some name) (.string name) := by
  rintro _ ⟨⟩
  rfl

theorem named_replicate {values : List Value} {count : Nat} (same : values.length = count) :
    List.Forall₂ Named (List.replicate count none) values := by
  induction values generalizing count with
  | nil =>
    subst same
    exact .nil
  | cons v rest ih =>
    subst same
    exact .cons (named_none v) (ih rfl)

namespace Draws

variable {size pc : Nat} {i : Instruction} {σ : Sketch} {next : List (Nat × Sketch)} {f f' : Frame}

/-- What an instruction puts on the stack can be anything; below it is what it left there. -/
theorem stacked (stack : Stacked i f f') {names : List (Option String)}
    (fit : List.Forall₂ Named names f.stack.items) :
    List.Forall₂ Named (List.replicate i.pushes none ++ names.drop i.pops) f'.stack.items := by
  obtain ⟨out, count, items, _⟩ := stack
  rw [items]
  exact List.rel_append (named_replicate count) (List.forall₂_drop i.pops fit)

/-- An instruction that goes on to the next one comes to the sketch there. -/
theorem next_named (draws : Draws size i pc σ next) (onward : ∀ offset, i ≠ .branch .always offset)
    (fit : List.Forall₂ Named σ.names f.stack.items) (regions : f.handlers = opened σ.handlers) (here : f.pc = pc)
    (long : f.procedure.code.size = size) (stack : Stacked i f f') (guarded : Guarded i f f') :
    ∃ τ, (pc + 1, τ) ∈ next ∧ List.Forall₂ Named τ.names f'.stack.items ∧ f'.handlers = opened τ.handlers := by
  have left := stacked stack fit
  cases draws with
  | name s =>
    obtain ⟨out, _, items, constant⟩ := stack
    obtain rfl := constant _ rfl
    refine ⟨_, List.mem_singleton_self _, ?_, guarded.trans regions⟩
    rw [items]
    exact .cons named_some fit
  | next plain =>
    have kept : f'.handlers = f.handlers := by
      cases i with
      | enterTry | leaveTry => cases plain
      | _ => exact guarded
    exact ⟨_, List.mem_singleton_self _, left, kept.trans regions⟩
  | assign named two =>
    refine ⟨_, List.mem_singleton_self _, ?_, guarded.trans regions⟩
    simpa [Instruction.pops, Instruction.pushes, named, two] using left
  | jump => exact absurd rfl (onward _)
  | test conditional =>
    rw [Instruction.pops_test conditional] at left
    exact ⟨_, List.mem_cons_self, left, guarded.trans regions⟩
  | ret => exact absurd rfl (onward _)
  | @enterTry _ _ target lands =>
    obtain ⟨target', lands', same⟩ := guarded
    rw [here, long, lands] at lands'
    cases lands'
    have empty : f.stack.height = 0 := f.stack.height_eq.trans fit.length_eq.symm
    refine ⟨_, List.mem_singleton_self _, left, ?_⟩
    rw [same, regions, empty]
    rfl
  | leaveTry pc t =>
    obtain ⟨h, same⟩ := guarded
    rw [regions] at same
    exact ⟨_, List.mem_singleton_self _, left, (List.cons.inj same).2.symm⟩

/-- So does one that branches. -/
theorem jump_named {kind : BranchKind} {offset : Offset} {target : Nat}
    (draws : Draws size (.branch kind offset) pc σ next) (lands : landing? pc offset size = some (.index target))
    (fit : List.Forall₂ Named σ.names f.stack.items) (stack : Stacked (.branch kind offset) f f') :
    ∃ τ, (target, τ) ∈ next ∧ List.Forall₂ Named τ.names f'.stack.items ∧ τ.handlers = σ.handlers := by
  have left := stacked stack fit
  obtain ⟨⟨n, rfl⟩, _⟩ := landing?_index lands
  cases draws with
  | next plain => cases plain
  | jump lands' =>
    rw [lands] at lands'
    cases lands'
    exact ⟨_, List.mem_singleton_self _, left, rfl⟩
  | test conditional lands' =>
    rw [lands] at lands'
    cases lands'
    rw [Instruction.pops_test conditional] at left
    exact ⟨_, List.mem_cons_of_mem _ (List.mem_singleton_self _), left, rfl⟩

end Draws

/-- Where a sketch has the name that an assignment is for, that is what the machine writes. -/
theorem Instruction.Assigns.write? {i : Instruction} {σ : Sketch} {m : Machine} {name : String}
    (assigns : i.Assigns σ name) (fit : List.Forall₂ Named σ.names m.frame.stack.items) :
    ∃ v, i.write? m = some (name, v) := by
  obtain ⟨site, k, names, rfl, named, two, same⟩ := assigns
  rw [same] at fit
  generalize items : m.frame.stack.items = values at fit
  rcases fit with _ | @⟨_, above, _, _, _, _ | ⟨below, _⟩⟩
  obtain rfl := below name rfl
  obtain ⟨k, k', keywords⟩ := List.length_eq_two.mp two
  refine ⟨above, ?_⟩
  rw [Instruction.write?, if_pos named, Machine.operands, Stack.latest, two, items, keywords]
  rfl

/-- What an instruction writes has the name that the sketch has for it. -/
theorem Draws.uses_written {size pc : Nat} {i : Instruction} {m : Machine} {σ : Sketch} {next : List (Nat × Sketch)}
    {name : String} {v : Value} (draws : Draws size i pc σ next) (fit : List.Forall₂ Named σ.names m.frame.stack.items)
    (write : i.write? m = some (name, v)) : i.Uses σ name := by
  cases i with
  | call site =>
    rw [Instruction.write?] at write
    split at write
    · next named =>
      cases draws with
      | next plain => exact absurd named (by simpa [Instruction.goesOn] using plain)
      | assign _ two k other _ σ η =>
        have assigns : (Instruction.call site).Assigns ⟨k :: some other :: σ, η⟩ other :=
          ⟨site, k, σ, rfl, named, two, rfl⟩
        obtain ⟨w, same⟩ := assigns.write? fit
        rw [Instruction.write?, if_pos named] at same
        cases write.symm.trans same
        exact .assigns assigns
    · cases write
  | caught binding =>
    obtain ⟨other, rfl, bound⟩ := Option.bind_eq_some_iff.mp write
    obtain ⟨_, _, same⟩ := Option.map_eq_some_iff.mp bound
    cases same
    exact .catches rfl
  | _ => cases write

/-- A machine is where a chart of its code says: its stack has the names of the sketch there, its open regions have the
handlers, and what is bound there was written; or it is at the end. -/
structure Chart.Places (c : Chart) (host : Host) (calls : Calls) (start m : Machine) : Prop where
  names : List.Forall₂ Named (c.sketch m.frame.pc).names m.frame.stack.items
  handlers : m.frame.handlers = opened (c.sketch m.frame.pc).handlers
  bound : ∀ name ∈ c.bound m.frame.pc, ∃ pc v, Machine.LastWrote host calls name start m pc v

/-- A chart of a whole code. -/
abbrev Chart.Maps (c : Chart) (own : String → Nat → Prop) (code : Array Instruction) : Prop :=
  ∀ pc < code.size, ∃ i next, c.Marks own code 0 code.size [(code.size, ⟨[], []⟩)] pc i next

namespace Machine

variable {host : Host} {calls : Calls} {start m m' : Machine} {c : Chart} {own : String → Nat → Prop}
  {code : Array Instruction}

/-- A machine is in a chart of its code, or at the end of the code. -/
def InChart (c : Chart) (code : Array Instruction) (host : Host) (calls : Calls) (start m : Machine) : Prop :=
  m.frame.procedure.code = code ∧ (m.frame.pc < code.size ∧ c.Places host calls start m ∨ m.frame.pc = code.size)

/-- A machine that comes to where a chart leads is in the chart. -/
theorem InChart.of_leads {pc : Nat} {more : String → Prop} {x : Nat × Sketch}
    (leads : c.Leads 0 code.size [(code.size, ⟨[], []⟩)] pc more x) (same : m.frame.procedure.code = code)
    (here : m.frame.pc = x.1) (names : List.Forall₂ Named x.2.names m.frame.stack.items)
    (handlers : m.frame.handlers = ScriptEngine.opened x.2.handlers)
    (bound : ∀ name, name ∈ c.bound pc ∨ more name → ∃ pc v, LastWrote host calls name start m pc v) :
    InChart c code host calls start m := by
  refine ⟨same, ?_⟩
  rcases leads with ⟨_, below, there, known⟩ | ended
  · rw [← here] at below there known
    refine .inl ⟨below, there ▸ names, there ▸ handlers, fun name member => bound name (known name member)⟩
  · rw [List.mem_singleton.mp ended] at here
    exact .inr here

/-- Every turn leads from one machine in a chart to another. -/
theorem InChart.turn (inside : InChart c code host calls start m) (maps : c.Maps own code)
    (reached : Reaches host calls start m) (here : Machine.turn host calls m = .inl m') :
    InChart c code host calls start m' := by
  obtain ⟨rfl, place⟩ := inside
  -- At the end of the code there is no instruction.
  have placed (i : Instruction) (found : m.frame.procedure.code[m.frame.pc]? = some i) :
      c.Places host calls start m := by
    have := (Array.getElem?_eq_some_iff.mp found).1
    exact (place.resolve_right (by omega)).2
  have known (i : Instruction) (found : m.frame.procedure.code[m.frame.pc]? = some i) :
      ∃ next, c.Marks own m.frame.procedure.code 0 m.frame.procedure.code.size
        [(m.frame.procedure.code.size, ⟨[], []⟩)] m.frame.pc i next := by
    obtain ⟨j, next, marks⟩ := maps m.frame.pc (Array.getElem?_eq_some_iff.mp found).1
    obtain rfl : i = j := Option.some.inj (found.symm.trans marks.found)
    exact ⟨next, marks⟩
  have written (i : Instruction) (found : m.frame.procedure.code[m.frame.pc]? = some i) (name : String)
      (known : name ∈ c.bound m.frame.pc ∨ i.Assigns (c.sketch m.frame.pc) name) :
      ∃ pc v, LastWrote host calls name start m' pc v := by
    rcases known with member | assigns
    · obtain ⟨pc, v, last⟩ := (placed i found).bound name member
      exact last.onward reached here
    · obtain ⟨v, write⟩ := assigns.write? (placed i found).names
      exact ⟨m.frame.pc, v, .wrote reached (by rw [write?, found]; exact write) here⟩
  cases turn_inl here with
  | @onward i m₁ found run =>
    obtain ⟨next, marks⟩ := known i found
    cases step_effect run with
    | next onward same _ stacked guarded =>
      obtain ⟨τ, among, names, handlers⟩ := marks.draws.next_named onward (placed i found).names
        (placed i found).handlers rfl rfl stacked guarded
      exact .of_leads (marks.onward _ among) (congrArg _ same.procedure) (congrArg (· + 1) same.pc) names handlers
        (written i found)
  | @jumped i m₁ target found run =>
    obtain ⟨next, marks⟩ := known i found
    cases step_effect run with
    | jump branch lands same _ stacked kept =>
      subst branch
      obtain ⟨τ, among, names, outer⟩ := marks.draws.jump_named lands (placed _ found).names stacked
      refine .of_leads (marks.onward _ among) (congrArg _ same.procedure) rfl names ?_ (written _ found)
      rw [outer]
      exact kept.trans (placed _ found).handlers
  | @caught i m₁ e h outer found run regions =>
    obtain ⟨next, marks⟩ := known i found
    have failed := step_failed run
    have places := placed i found
    rw [failed.regions, places.handlers] at regions
    cases open_ : (c.sketch m.frame.pc).handlers with
    | nil =>
      rw [open_] at regions
      cases regions
    | cons target rest =>
      rw [open_] at regions
      cases regions
      refine .of_leads (marks.raised (target, ⟨[none], rest⟩) (by simp [open_, Sketch.unwound]))
        (congrArg _ failed.same.procedure) rfl ?_ rfl fun name known => ?_
      · change List.Forall₂ Named [none] (.string e.message :: (m₁.frame.stack.truncate 0).items)
        rw [Stack.items_truncate_zero]
        exact .cons (named_none _) .nil
      · exact written i found name (known.imp_right False.elim)

theorem InChart.reached (inside : InChart c code host calls start start) (maps : c.Maps own code)
    (reached : Reaches host calls start m) : InChart c code host calls start m := by
  have both : Reaches host calls start m ∧ InChart c code host calls start m :=
    reached.invariant (I := fun m => Reaches host calls start m ∧ InChart c code host calls start m)
      ⟨.refl start, inside⟩ fun _ _ known here => ⟨known.1.snoc here, known.2.turn maps known.1 here⟩
  exact both.2

/-- A frame that has just been entered is in every chart of its code in which nothing is bound at the start. -/
theorem InChart.entered {f : Frame} {p : Procedure} (fresh : f.IsFresh p) (s : State)
    (entry : 0 < p.code.size ∧ c.sketch 0 = ⟨[], []⟩ ∧ (∀ name ∈ c.bound 0, name ∈ ([] : List String)) ∨
      0 = p.code.size) : InChart c p.code host calls ⟨f, s⟩ ⟨f, s⟩ := by
  refine ⟨congrArg _ fresh.procedure, ?_⟩
  rw [show (⟨f, s⟩ : Machine).frame.pc = 0 from fresh.pc]
  rcases entry with ⟨solid, here, none⟩ | empty
  · refine .inl ⟨solid, ?_, ?_, fun name member => ?_⟩
    · rw [show (⟨f, s⟩ : Machine).frame.pc = 0 from fresh.pc, here,
        show (⟨f, s⟩ : Machine).frame.stack = .empty from fresh.stack]
      exact .nil
    · rw [show (⟨f, s⟩ : Machine).frame.pc = 0 from fresh.pc, here]
      exact fresh.handlers
    · rw [show (⟨f, s⟩ : Machine).frame.pc = 0 from fresh.pc] at member
      exact absurd (none name member) List.not_mem_nil
  · exact .inr empty

/-- What was written last was written by an instruction on the way. -/
theorem LastWrote.origin {name : String} {pc : Nat} {v : Value} (last : LastWrote host calls name start m pc v) :
    ∃ m₀, Reaches host calls start m₀ ∧ m₀.write? = some (name, v) ∧ m₀.frame.pc = pc := by
  induction last with
  | wrote reached write _ => exact ⟨_, reached, write, rfl⟩
  | kept _ _ _ ih => exact ih

/-- In a chart, the instruction that a machine is at has to do with what the machine writes. -/
theorem InChart.uses {name : String} {v : Value} (inside : InChart c code host calls start m) (maps : c.Maps own code)
    (write : m.write? = some (name, v)) :
    ∃ i next, c.Marks own code 0 code.size [(code.size, ⟨[], []⟩)] m.frame.pc i next ∧
      i.Uses (c.sketch m.frame.pc) name := by
  obtain ⟨rfl, place⟩ := inside
  obtain ⟨i, found, write⟩ := Option.bind_eq_some_iff.mp write
  have below := (Array.getElem?_eq_some_iff.mp found).1
  obtain ⟨j, next, marks⟩ := maps m.frame.pc below
  obtain rfl : i = j := Option.some.inj (found.symm.trans marks.found)
  exact ⟨i, next, marks, marks.draws.uses_written (place.resolve_right (by omega)).2.names write⟩

/-- In a chart, a machine writes only hidden variables that it owns. -/
theorem InChart.writes {name : String} {v : Value} (inside : InChart c code host calls start m) (maps : c.Maps own code)
    (write : m.write? = some (name, v)) (hidden : isHidden name = true) : own name m.frame.pc := by
  obtain ⟨i, next, marks, uses⟩ := inside.uses maps write
  exact marks.uses name hidden uses

/-- In a chart, a machine reads only hidden variables that it owns and that were written. -/
theorem InChart.reads {name : String} {place : Position} (inside : InChart c code host calls start m)
    (maps : c.Maps own code) (found : code[m.frame.pc]? = some (.load name place)) (hidden : isHidden name = true) :
    own name m.frame.pc ∧ ∃ pc v, LastWrote host calls name start m pc v := by
  obtain ⟨rfl, here⟩ := inside
  have below := (Array.getElem?_eq_some_iff.mp found).1
  obtain ⟨j, next, marks⟩ := maps m.frame.pc below
  obtain rfl : Instruction.load name place = j := Option.some.inj (found.symm.trans marks.found)
  exact ⟨marks.uses name hidden (.reads rfl),
    (here.resolve_right (by omega)).2.bound name (marks.reads name place hidden rfl)⟩

end Machine

/-- The variables of the loops of a procedure are private to each frame of it. Each loop has one place in the code, and
only the instructions of a loop write or read its variables. Where one of them reads a variable, one of them has written
it before in the same frame; and as long as the frame keeps what is assigned to that name, the variable has the value
that was written last. -/
theorem Program.ofSource_private {source file : String} {o : LoweringOptions} {t : ModuleTree}
    (parsed : ModuleTree.ofSource source = .ok t) (none : ∀ c ∈ t.calls, ¬ c.Assigns) {p : Procedure}
    (member : p ∈ (Program.ofSource source file o).procedures) :
    ∃ home : Nat → Nat, ∀ (host : Host) (calls : Calls) (f : Frame) (s : State) (m : Machine), f.IsFresh p →
      Machine.Reaches host calls ⟨f, s⟩ m →
        (∀ name v, m.write? = some (name, v) → isHidden name = true →
          ∃ role n, name = hiddenName role n ∧ OwnAt p.code n (home n) m.frame.pc) ∧
        ∀ name place, p.code[m.frame.pc]? = some (.load name place) → isHidden name = true →
          ∃ role n pc v, name = hiddenName role n ∧ OwnAt p.code n (home n) m.frame.pc ∧ OwnAt p.code n (home n) pc ∧
            Machine.LastWrote host calls name ⟨f, s⟩ m pc v ∧
            ((∀ m₁ w, Machine.Reaches host calls ⟨f, s⟩ m₁ → m₁.write? = some (name, w) →
              m₁.frame.Keeps m₁.state.store name) → m.frame.lookup m.state.store name = some v) := by
  obtain ⟨home, a, b, c, entry, marks⟩ := Program.ofSource_charted parsed none member
  have maps : c.Maps (Own p.code home a b) p.code := fun pc below => (marks pc (Nat.zero_le pc) below).2
  refine ⟨home, fun host calls f s m fresh reached => ?_⟩
  have inside (m : Machine) (reached : Machine.Reaches host calls ⟨f, s⟩ m) :
      Machine.InChart c p.code host calls ⟨f, s⟩ m :=
    (Machine.InChart.entered fresh s (entry.imp_right And.left)).reached maps reached
  constructor
  · intro name v write hidden
    obtain ⟨role, n, named, _, _, own⟩ := (inside m reached).writes maps write hidden
    exact ⟨role, n, named, own⟩
  · intro name place found hidden
    obtain ⟨⟨role, n, rfl, _, _, own⟩, pc, v, last⟩ := (inside m reached).reads maps found hidden
    obtain ⟨m₀, before, write, rfl⟩ := last.origin
    obtain ⟨role', n', same, _, _, wrote⟩ := (inside m₀ before).writes maps write hidden
    obtain ⟨rfl, rfl⟩ := hiddenName_inj same
    refine ⟨role, n, m₀.frame.pc, v, rfl, own, wrote, last, fun keeps => ?_⟩
    rw [Frame.lookup, last.holds hidden keeps]
    rfl

end ScriptEngine
