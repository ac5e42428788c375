import ScriptEngine.Proofs.Pieces

/-! # The interpreter as a composition

The pieces of the interpreter leave the books alone. So calls, sends and operations of the host delegate to
nested runs, if the functions of the host leave the books alone as well.
-/

namespace ScriptEngine

variable {re inv : Prop} {α : Type} {host : Host}

/-- What a piece does to the state is none of the bookkeeping. -/
theorem Mild.still {s s' : State} (mild : Mild s s') : Still s s' := by
  obtain ⟨output, same⟩ := mild.control
  refine ⟨⟨?_, ?_, ?_⟩, ?_, ?_, fun laid id => mild.onward.procedure id ▸ laid id⟩
  all_goals
    try unfold Control.reports
    rw [same]

namespace Consults

theorem pure (a : α) : Consults re fun _ => Pure.pure a := .plain fun s => .refl s

theorem fail (e : RuntimeError) : Consults re fun _ => (Exec.fail e : Exec RuntimeError α) :=
  .plain fun s => .refl s

theorem ofExcept (c : Except RuntimeError α) : Consults re fun _ => Exec.ofExcept c := by
  cases c with
  | ok a => exact pure a
  | error e => exact fail e

/-- Calls a value and hands on its error as another one. -/
theorem handOn (allowed : re) (callee : Value) (args : Arguments) (g : ScriptError → RuntimeError) :
    Consults re fun calls => (calls.invoke callee args).mapError g := by
  have same (calls : Calls) : (calls.invoke callee args).mapError g =
      (calls.invoke callee args).attempt >>= fun r => Exec.ofExcept (r.mapError g) := by
    funext s
    unfold Exec.mapError Exec.attempt
    change _ = EStateM.bind _ _ _
    unfold EStateM.bind
    dsimp only
    rcases calls.invoke callee args s with ⟨v, s'⟩ | ⟨halt, s'⟩
    · rfl
    · cases halt <;> rfl
  simp only [same]
  exact .bind (.invoke callee args allowed) fun r => .ofExcept _

end Consults

/-- What is composed of pieces and of functions that leave the books alone leaves them alone. -/
theorem Composed.consults {x : Calls → Exec RuntimeError α}
    (composed : Composed Mild (fun _ => Consults re) x) : Consults re x := by
  induction composed with
  | plain mild => exact .plain fun s => (mild s).still
  | host consults => exact consults
  | native r args => exact .native r args
  | attempt _ ih => exact ih.attempt
  | holding h _ ih => exact ih.holding h
  | bind _ _ first rest => exact first.bind rest

theorem Host.IsPolite.within (polite : host.IsPolite re) : host.Within fun _ => Consults re :=
  ⟨polite.getMember, polite.setMember, polite.callMethod, polite.call, polite.native⟩

theorem Relays.delegates {x : Calls → Exec ScriptError α} (relays : Relays Mild (fun _ => Consults re) inv x) :
    Delegates re inv x := by
  induction relays with
  | plain mild unreported => exact .plain (fun s => (mild s).still) unreported
  | located site composed => exact .located site composed.consults
  | enter find unreported => exact .enter find unreported
  | invoke callee args may => exact .invoke callee args may
  | holding h _ ih => exact .holding h ih
  | bind _ _ first rest => exact .bind first rest

theorem Invoke.native_consults (polite : host.IsPolite re) (f : Ref .native) (args : Arguments) :
    Consults re fun calls => native host calls f args := (native_composed polite.within f args).consults

theorem Invoke.value_delegates (polite : host.IsPolite re) (site : Site) (callee : Value) (receiver : Option Value)
    (args : Arguments) : Delegates re False fun calls => value host calls site callee receiver args :=
  (value_relays polite.within site callee receiver args).delegates

/-- What a host asks of a program is composed of runs of its top-level code and the call of a value. -/
theorem Operation.perform_delegates (re : Prop) (id : ProgramId) (op : Operation) :
    Delegates re True fun calls => op.perform calls id := (op.perform_relays (fun _ => Consults re) id).delegates

end ScriptEngine
