import ScriptEngine.Run.Exec

/-! # Computations that keep an invariant

A computation keeps an invariant of the state if it leaves it true however it ends. What is said about its
value and its error goes with that, so that one statement about a computation is enough to go on with. A
computation that runs out of its bound has to keep the invariant as well, since the state survives it.

The statement is about two computations at once, which also come to the same as long as the invariant holds.
For a computation that starts nested runs these are two versions of it, with nested runs that agree where the
invariant holds: that they come to the same says that it starts nested runs only there. Any other computation
is compared with itself.
-/

namespace ScriptEngine

variable {σ ε δ α β : Type} {I : σ → Prop} {E : ε → Prop} {Q : α → Prop} {R : β → Prop}

/-- A computation has ended in a state with `I`, with a value with `Q` or an error with `E`. -/
def Remains (I : σ → Prop) (E : ε → Prop) (Q : α → Prop) : EStateM.Result (Halt ε) σ α → Prop
  | .ok a s => I s ∧ Q a
  | .error (.failed e) s => I s ∧ E e
  | .error .exhausted s => I s

/-- The state in which a computation has ended. -/
def finalState : EStateM.Result ε σ α → σ
  | .ok _ s => s
  | .error _ s => s

theorem Remains.finalState {r : EStateM.Result (Halt ε) σ α} (remains : Remains I E Q r) :
    I (finalState r) := by
  rcases r with ⟨a, s⟩ | ⟨halt, s⟩
  · exact remains.1
  · cases halt with
    | failed e => exact remains.1
    | exhausted => exact remains

/-- From a state with `I` two computations come to the same, in a state with `I`, and then `Q` holds of the
value or `E` of the error. -/
def Keeps (I : σ → Prop) (E : ε → Prop) (x y : EStateM (Halt ε) σ α) (Q : α → Prop) : Prop :=
  ∀ s, I s → x s = y s ∧ Remains I E Q (x s)

namespace Keeps

variable {x y : EStateM (Halt ε) σ α} {f g : α → EStateM (Halt ε) σ β}

/-- A computation that is compared with itself. -/
theorem alone (kept : ∀ s, I s → Remains I E Q (x s)) : Keeps I E x x Q := fun s here => ⟨rfl, kept s here⟩

theorem pure {a : α} (here : Q a) : Keeps I E (Pure.pure a) (Pure.pure a) Q := alone fun _ kept => ⟨kept, here⟩

theorem bind (first : Keeps I E x y Q) (rest : ∀ a, Q a → Keeps I E (f a) (g a) R) :
    Keeps I E (x >>= f) (y >>= g) R := by
  intro s kept
  obtain ⟨same, here⟩ := first s kept
  simp only [Bind.bind, EStateM.bind]
  rw [← same]
  cases run : x s with
  | ok a s' =>
    rw [run] at here
    exact rest a here.2 s' here.1
  | error halt s' =>
    rw [run] at here
    cases halt <;> exact ⟨rfl, here⟩

theorem fail {e : ε} (here : E e) :
    Keeps I E (throw (.failed e) : EStateM (Halt ε) σ α) (throw (.failed e)) Q :=
  alone fun _ kept => ⟨kept, here⟩

theorem exhausted : Keeps I E (throw .exhausted : EStateM (Halt ε) σ α) (throw .exhausted) Q :=
  alone fun _ kept => kept

theorem get : Keeps I E (MonadState.get : EStateM (Halt ε) σ σ) MonadState.get I :=
  alone fun _ kept => ⟨kept, kept⟩

theorem changed {h : σ → σ} (kept : ∀ s, I s → I (h s)) :
    Keeps I E (modify h : EStateM (Halt ε) σ Unit) (modify h) fun _ => True :=
  alone fun s here => ⟨kept s here, trivial⟩

/-- A list of computations keeps what each of them keeps. -/
theorem forM {as : List α} {f g : α → EStateM (Halt ε) σ PUnit}
    (each : ∀ a ∈ as, Keeps I E (f a) (g a) fun _ => True) :
    Keeps I E (as.forM f) (as.forM g) fun _ => True := by
  induction as with
  | nil => exact .pure trivial
  | cons a rest ih =>
    refine (each a List.mem_cons_self).bind fun _ _ => ?_
    exact ih fun b member => each b (List.mem_cons_of_mem _ member)

/-- So does going through a list for values, of which nothing is said. -/
theorem mapM {as : List α} (each : ∀ a, Keeps I E (f a) (g a) fun _ => True) :
    Keeps I E (as.mapM f) (as.mapM g) fun _ => True := by
  induction as with
  | nil => exact .pure trivial
  | cons a rest ih =>
    rw [List.mapM_cons, List.mapM_cons]
    exact (each a).bind fun _ _ => ih.bind fun _ _ => .pure trivial

end Keeps

/-- Whatever a check lets through has a property. -/
def Grants (x : Except ε α) (Q : α → Prop) : Prop := ∀ a, x = .ok a → Q a

namespace Grants

variable {x : Except ε α} {f : α → Except ε β}

theorem pure {a : α} (here : Q a) : Grants (Pure.pure a : Except ε α) Q := by
  rintro _ ⟨⟩
  exact here

theorem ok {a : α} (here : Q a) : Grants (.ok a : Except ε α) Q := .pure here

theorem error {e : ε} : Grants (.error e : Except ε α) Q := by rintro _ ⟨⟩

theorem bind (first : Grants x Q) (rest : ∀ a, Q a → Grants (f a) R) : Grants (x >>= f) R := by
  cases same : x with
  | error e => exact .error
  | ok a => exact rest a (first a same)

theorem anything : Grants x fun _ => True := fun _ _ => trivial

end Grants

section

variable {I : Store → Prop} {x : StoreM α}

theorem StoreM.ofExcept_keeps {c : Except RuntimeError α} (grants : Grants c Q) :
    Keeps I (fun _ => True) (StoreM.ofExcept c) (StoreM.ofExcept c) Q := by
  cases same : c with
  | ok a => exact .pure (grants a same)
  | error e => exact .fail trivial

theorem StoreM.ofOption_keeps {o : Option α} {E : RuntimeError → Prop} (here : ∀ a, o = some a → Q a) :
    Keeps I E (StoreM.ofOption o) (StoreM.ofOption o) Q := by
  cases o with
  | none => exact .exhausted
  | some a => exact .pure (here a rfl)

theorem StoreM.read_keeps {h : Store → α} {E : RuntimeError → Prop} (here : ∀ s, I s → Q (h s)) :
    Keeps I E (StoreM.read h) (StoreM.read h) Q := Keeps.get.bind fun s kept => .pure (here s kept)

theorem StoreM.allocate_keeps {h : Store → α × Store} {E : RuntimeError → Prop}
    (kept : ∀ s, I s → I (h s).2 ∧ Q (h s).1) :
    Keeps I E (StoreM.allocate h) (StoreM.allocate h) Q := .alone fun s here => kept s here

end

/-- A state with an invariant of its store. -/
def State.With (I : Store → Prop) (s : State) : Prop := I s.store

section

variable {I : Store → Prop} {x y : Exec ε α}

theorem Exec.ofExcept_keeps {c : Except ε α} (grants : Grants c Q) (fails : ∀ e, c = .error e → E e) :
    Keeps (State.With I) E (Exec.ofExcept c) (Exec.ofExcept c) Q := by
  cases same : c with
  | ok a => exact .pure (grants a same)
  | error e => exact .fail (fails e same)

theorem Exec.ofStore_keeps {x : StoreM α} {E : RuntimeError → Prop} (kept : Keeps I E x x Q) :
    Keeps (State.With I) E (Exec.ofStore x) (Exec.ofStore x) Q := by
  refine .alone fun ⟨store, control⟩ here => ?_
  have after := (kept store here).2
  unfold Exec.ofStore
  dsimp only
  cases run : x store with
  | ok a s' =>
    rw [run] at after
    exact after
  | error halt s' =>
    rw [run] at after
    cases halt <;> exact after

theorem Exec.mapError_keeps {h : ε → δ} {E' : δ → Prop} (kept : Keeps (State.With I) E x y Q)
    (named : ∀ e, E e → E' (h e)) : Keeps (State.With I) E' (x.mapError h) (y.mapError h) Q := by
  intro s here
  obtain ⟨same, after⟩ := kept s here
  unfold Exec.mapError
  rw [← same]
  refine ⟨rfl, ?_⟩
  cases run : x s with
  | ok a s' =>
    rw [run] at after
    exact after
  | error halt s' =>
    rw [run] at after
    cases halt with
    | failed e => exact ⟨after.1, named e after.2⟩
    | exhausted => exact after

theorem Exec.allocate_keeps {h : Store → α × Store} (kept : ∀ s, I s → I (h s).2 ∧ Q (h s).1) :
    Keeps (State.With I) E (Exec.allocate h : Exec ε α) (Exec.allocate h) Q :=
  .alone fun s here => kept s.store here

theorem Exec.readStore_keeps {h : Store → α} (here : ∀ s, I s → Q (h s)) :
    Keeps (State.With I) E (Exec.readStore h : Exec ε α) (Exec.readStore h) Q :=
  Keeps.get.bind fun s kept => .pure (here s.store kept)

theorem Exec.modifyStore_keeps {h : Store → Store} (kept : ∀ s, I s → I (h s)) :
    Keeps (State.With I) E (Exec.modifyStore h : Exec ε Unit) (Exec.modifyStore h) fun _ => True :=
  .changed fun s here => kept s.store here

theorem Exec.holding_keeps {h : Hold} (kept : Keeps (State.With I) E x y Q) :
    Keeps (State.With I) E (x.holding h) (y.holding h) Q := by
  rintro ⟨store, control⟩ here
  obtain ⟨same, after⟩ := kept ⟨store, control.hold h⟩ here
  unfold Exec.holding
  dsimp only
  rw [← same]
  refine ⟨rfl, ?_⟩
  cases run : x ⟨store, control.hold h⟩ with
  | ok a s' =>
    rw [run] at after
    exact after
  | error halt s' =>
    rw [run] at after
    cases halt <;> exact after

theorem Exec.tryControl_keeps {h : Control → Except ε Control} (fails : ∀ c e, h c = .error e → E e) :
    Keeps (State.With I) E (Exec.tryControl h) (Exec.tryControl h) fun _ => True := by
  refine Keeps.get.bind fun s here => ?_
  cases same : h s.control with
  | ok control => exact .alone fun _ _ => ⟨here, trivial⟩
  | error e => exact .fail (fails _ _ same)

end

end ScriptEngine
