import LayeredViews.Proofs.Wp

/-!
# The worlds that a run comes to

The code of an application looks at the world between any two things that it does, so these are
the worlds to make statements about.

* `Application.execUntil p`: runs a program of an application up to the first world with `p` that
  code comes to, be it the program or code that an operation calls.
* `Application.Reaches prog w v`: a run of the program from `w` comes to `v`, at whatever depth of
  calls.
* `Contract`: an invariant of the world, and a relation between the worlds before and after code
  runs. Where the operations keep a contract if the code that they call does, the invariant holds
  of every world that a run reaches (`Contract.inv_of_reaches`). `Contract.leaving` is that of code
  that leaves something as it is.
* `Contract.Kept`: an action keeps a contract; `Contract.KeptFrom`: it does where it is started in a
  given world.
-/

namespace LayeredViews

variable {κ : Client} {α β : Type}

/-! ## Watched runs -/

open Classical in
/-- Stops the run, for no reason of its own, in a world with `p`. -/
noncomputable def Act.watch (p : World κ → Prop) : Act κ Unit := do
  if p (← get) then throw none

/-- Runs a program up to the first world with `p` that it comes to. -/
noncomputable def Program.runUntil (p : World κ → Prop) (perform : (op : Op) → Act κ op.Reply) :
    Program κ α → Act κ α
  | .done a => do
    Act.watch p
    return a
  | .look k => do
    Act.watch p
    runUntil p perform (k (← get))
  | .store m next => do
    Act.watch p
    modify fun w => { w with memory := m }
    runUntil p perform next
  | .note n next => do
    Act.watch p
    Act.record (.noted n)
    runUntil p perform next
  | .call op k => do
    Act.watch p
    runUntil p perform (k (← perform op))

/-- Runs a program of an application up to the first world with `p` that code comes to. -/
noncomputable def Application.execUntil (app : Application κ) (p : World κ → Prop) :
    Nat → {α : Type} → Program κ α → Act κ α
  | 0, _, prog => prog.runUntil p fun _ => throw (some .exhausted)
  | depth + 1, _, prog =>
    prog.runUntil p (Setting.perform ⟨app.host, app.code.under (app.execUntil p depth)⟩)

/-- A run of a program from `w` comes to the world `v`. -/
def Application.Reaches (app : Application κ) (prog : Program κ α) (w v : World κ) : Prop :=
  ∃ depth, (app.execUntil (· = v) depth prog).run w = .error none

/-- The world that an application starts in, with given event targets and memory. -/
def World.start (targets : Dict TargetId EventTarget) (memory : κ.Memory) : World κ :=
  { targets, memory }

theorem Act.wp_watch {E : Option Halt → Prop} {Q : Unit → World κ → Prop} {w : World κ}
    (p : World κ → Prop) :
    Act.Wp E (Act.watch p) Q w ↔ (p w → E none) ∧ (¬p w → Q () w) := by
  unfold Act.watch
  rw [Act.wp_bind, Act.wp_get]
  by_cases hp : p w
  · simp [hp]
  · simp [hp]

/-! ## Programs that call some operations only -/

/-- The program calls only operations with `P`. -/
def Program.Uses (P : Op → Prop) : Program κ α → Prop
  | .done _ => True
  | .look k => ∀ w, (k w).Uses P
  | .store _ next => next.Uses P
  | .note _ next => next.Uses P
  | .call op k => P op ∧ ∀ r, (k r).Uses P

/-- The code calls only operations with `P`. -/
structure Callbacks.Uses (P : Op → Prop) (code : Callbacks (Program κ)) : Prop where
  load : ∀ key path, (code.load key path).Uses P
  make : ∀ inst, (code.make inst).Uses P
  render : ∀ inst frame, (code.render inst frame).Uses P
  handle : ∀ method c event, (code.handle method c event).Uses P
  listen : ∀ key event, (code.listen key event).Uses P

theorem Program.uses_of_forall {P : Op → Prop} (h : ∀ op, P op) (prog : Program κ α) :
    prog.Uses P := by
  induction prog with
  | done a => trivial
  | look k ih => exact ih
  | store m next ih => exact ih
  | note n next ih => exact ih
  | call op k ih => exact ⟨h op, ih⟩

theorem Callbacks.uses_of_forall {P : Op → Prop} (h : ∀ op, P op)
    (code : Callbacks (Program κ)) : code.Uses P :=
  ⟨fun _ _ => Program.uses_of_forall h _, fun _ => Program.uses_of_forall h _,
    fun _ _ => Program.uses_of_forall h _, fun _ _ _ => Program.uses_of_forall h _,
    fun _ _ => Program.uses_of_forall h _⟩

/-! ## Contracts -/

/-- What holds whenever code runs, what code may do to the world, and why it may stop. -/
structure Contract (κ : Client) where
  inv : World κ → Prop
  step : World κ → World κ → Prop
  /-- Why code may stop: for any reason of its own, unless another set is given. -/
  stops : Option Halt → Prop := (· ≠ none)
  refl : ∀ w, step w w
  trans : ∀ {w₁ w₂ w₃}, step w₁ w₂ → step w₂ w₃ → step w₁ w₃

namespace Contract

/-- The contract of code that leaves something about the world as it is. -/
def leaving (inv : World κ → Prop) (f : World κ → β) (stops : Option Halt → Prop := (· ≠ none)) :
    Contract κ where
  inv := inv
  step w w' := f w' = f w
  stops := stops
  refl _ := rfl
  trans h h' := h'.trans h

variable (C : Contract κ)

/-- The contract leaves the application its memory and its notes, and its calls any depth. -/
structure Open : Prop where
  exhausted : C.stops (some .exhausted)
  memory : ∀ {w}, C.inv w → ∀ m, C.inv { w with memory := m } ∧ C.step w { w with memory := m }
  note : ∀ {w}, C.inv w → ∀ n, C.inv { w with record := .noted n :: w.record } ∧
    C.step w { w with record := .noted n :: w.record }

/-- The action keeps the contract. -/
def Kept (a : Act κ α) : Prop :=
  ∀ w, C.inv w → a.Wp C.stops (fun _ w' => C.inv w' ∧ C.step w w') w

/-- The action keeps the contract where it is started in `w`. -/
def KeptFrom (w : World κ) (a : Act κ α) : Prop :=
  a.Wp C.stops (fun _ w' => C.inv w' ∧ C.step w w') w

/-- The code of an application keeps the contract. -/
structure KeptBy (user : Callbacks (Act κ)) : Prop where
  load : ∀ key path, C.Kept (user.load key path)
  make : ∀ inst, C.Kept (user.make inst)
  render : ∀ inst frame, C.Kept (user.render inst frame)
  handle : ∀ method c event, C.Kept (user.handle method c event)
  listen : ∀ key event, C.Kept (user.listen key event)

variable {C}

theorem Kept.pure (a : α) : C.Kept (Pure.pure a : Act κ α) := fun w hw => ⟨hw, C.refl w⟩

theorem Kept.throw {e : Option Halt} (he : C.stops e) : C.Kept (MonadExcept.throw e : Act κ α) :=
  fun _ _ => he

theorem Kept.bind {a : Act κ β} {f : β → Act κ α} (ha : C.Kept a) (hf : ∀ x, C.Kept (f x)) :
    C.Kept (a >>= f) := fun w hw =>
  (ha w hw).bind fun x w' ⟨hw', hstep⟩ =>
    (hf x w' hw').mono fun _ _ ⟨hw'', hstep'⟩ => ⟨hw'', C.trans hstep hstep'⟩

/-- An action that keeps the contract, after a step that does. -/
theorem Kept.after {a : Act κ α} (ha : C.Kept a) {w w' : World κ} (h : C.inv w' ∧ C.step w w') :
    a.Wp C.stops (fun _ w'' => C.inv w'' ∧ C.step w w'') w' :=
  (ha w' h.1).mono fun _ _ ⟨hinv, hstep⟩ => ⟨hinv, C.trans h.2 hstep⟩

theorem Kept.get_bind {f : World κ → Act κ α} (hf : ∀ w, C.Kept (f w)) :
    C.Kept (get >>= f) := fun w hw => hf w w hw

theorem Kept.map {f : β → α} {a : Act κ β} (ha : C.Kept a) : C.Kept (f <$> a) := fun w hw =>
  (Act.wp_map f a).2 (ha w hw)

theorem Kept.forM {γ : Type} {l : List γ} {f : γ → Act κ PUnit} (hf : ∀ x, C.Kept (f x)) :
    C.Kept (l.forM f) := by
  induction l with
  | nil => exact Kept.pure _
  | cons x rest ih => exact Kept.bind (hf x) fun _ => ih

theorem Kept.watch {p : World κ → Prop} (hp : ∀ w, C.inv w → ¬p w) : C.Kept (Act.watch p) :=
  fun w hw => (Act.wp_watch p).2 ⟨fun h => absurd h (hp w hw), fun _ => ⟨hw, C.refl w⟩⟩

/-- A program keeps the contract if the operations that it uses do. -/
theorem Kept.runUntil (hC : C.Open) {P : Op → Prop} {p : World κ → Prop}
    {perform : (op : Op) → Act κ op.Reply}
    (hp : ∀ w, C.inv w → ¬p w) (hperform : ∀ op, P op → C.Kept (perform op))
    {prog : Program κ α} (hprog : prog.Uses P) : C.Kept (prog.runUntil p perform) := by
  induction prog with
  | done a => exact (Kept.watch hp).bind fun _ => Kept.pure a
  | look k ih => exact (Kept.watch hp).bind fun _ => Kept.get_bind fun w => ih w (hprog w)
  | store m next ih =>
    refine (Kept.watch hp).bind fun _ => Kept.bind (fun w hw => ?_) fun _ => ih hprog
    exact hC.memory hw m
  | note n next ih =>
    refine (Kept.watch hp).bind fun _ => Kept.bind (fun w hw => ?_) fun _ => ih hprog
    exact hC.note hw n
  | call op k ih =>
    exact (Kept.watch hp).bind fun _ => (hperform op hprog.1).bind fun r => ih r (hprog.2 r)

variable (C) in
/-- Operations with `P` keep the contract where the code that they call does. -/
structure Sound (host : HostId → Host) (P : Op → Prop) : Prop extends C.Open where
  perform : ∀ user : Callbacks (Act κ), C.KeptBy user → ∀ op, P op →
    C.Kept (Setting.perform ⟨host, user⟩ op)

variable {app : Application κ} {P : Op → Prop} {prog : Program κ α} {p : World κ → Prop}

/-- Code is run by what keeps the contract where its programs call operations with `P` only. -/
theorem KeptBy.under {code : Callbacks (Program κ)} {run : {α : Type} → Program κ α → Act κ α}
    (hcode : code.Uses P)
    (h : ∀ {α : Type} {prog : Program κ α}, prog.Uses P → C.Kept (run prog)) :
    C.KeptBy (code.under run) :=
  ⟨fun key path => h (hcode.load key path), fun inst => h (hcode.make inst),
    fun inst frame => h (hcode.render inst frame),
    fun method c event => h (hcode.handle method c event),
    fun key event => h (hcode.listen key event)⟩

/-- Calls may be nested at any depth: the code called by operations keeps the contract too. -/
theorem Sound.execUntil (hC : C.Sound app.host P) (hcode : app.code.Uses P)
    (hp : ∀ w, C.inv w → ¬p w) (depth : Nat) {α : Type} {prog : Program κ α}
    (hprog : prog.Uses P) : C.Kept (app.execUntil p depth prog) := by
  induction depth generalizing α with
  | zero => exact Kept.runUntil hC.toOpen hp (fun op _ => Kept.throw hC.exhausted) hprog
  | succ depth ih =>
    exact Kept.runUntil hC.toOpen hp (hC.perform _ (.under hcode ih)) hprog

/-- **Invariants of runs.** Where the operations that an application uses are sound for a contract
that lets no onlooker stop them, every world that a run comes to satisfies its invariant. -/
theorem inv_of_reaches (hC : C.Sound app.host P) (hs : ¬C.stops none) (hcode : app.code.Uses P)
    (hprog : prog.Uses P) {w v : World κ} (hw : C.inv w) (h : app.Reaches prog w v) :
    C.inv v := by
  obtain ⟨depth, hrun⟩ := h
  refine Classical.byContradiction fun hv => ?_
  have hp : ∀ u, C.inv u → ¬u = v := fun u hu he => hv (he ▸ hu)
  have kept := hC.execUntil hcode hp depth hprog w hw
  rw [Act.Wp, hrun] at kept
  exact hs kept

end Contract

end LayeredViews
