import LayeredViews.Proofs.Follow

/-!
# The operations that a run calls

Some things are true of a run only as long as its code does not call certain operations at certain
moments.

* `Application.Calls prog w p`: a run of the program from `w` comes to the call of an operation, in
  a world, that are such as `p` says; it may be code that an operation runs that calls it.
* `Program.avoids`: checks that a program run by itself calls no such operation
  (`Application.not_calls_of_avoids`).
* `Contract.Sound.exec`: where all operations keep a contract, runs do.
* `Contract.Sparing`: the operations keep a contract where they are not such as `p` says. Then a
  run that does not call one that is keeps it (`Contract.Sparing.exec`).
-/

namespace LayeredViews

variable {κ : Client} {α β : Type}

/-- Stops the run, for no reason of its own, before an operation with `p`. -/
noncomputable def Act.before (p : World κ → Op → Prop) (perform : (op : Op) → Act κ op.Reply)
    (op : Op) : Act κ op.Reply := do
  Act.watch (p · op)
  perform op

/-- Runs a program of an application up to the first call of an operation with `p`. -/
noncomputable def Application.execBefore [Ownership κ] (app : Application κ)
    (p : World κ → Op → Prop) : Nat → {α : Type} → Program κ α → Act κ α
  | 0, _, prog => prog.run (Act.before p fun _ => throw (some .exhausted))
  | depth + 1, _, prog =>
    prog.run (Act.before p (Setting.perform ⟨app.host, app.code.under (app.execBefore p depth)⟩))

/-- A run of a program from `w` comes to a call of an operation with `p`. -/
def Application.Calls [Ownership κ] (app : Application κ) (prog : Program κ α) (w : World κ)
    (p : World κ → Op → Prop) : Prop :=
  ∃ depth, (app.execBefore p depth prog).run w = .error none

/-! ## Up to the call -/

theorem Program.run_follows {perform perform' : (op : Op) → Act κ op.Reply}
    (h : ∀ op, (perform op).Follows (perform' op)) (prog : Program κ α) :
    (prog.run perform).Follows (prog.run perform') := by
  induction prog with
  | done a => exact .refl _
  | look k ih => exact (Act.Follows.refl _).bind ih
  | store m next ih => exact (Act.Follows.refl _).bind fun _ => ih
  | note n next ih => exact (Act.Follows.refl _).bind fun _ => ih
  | call op k ih => exact (h op).bind ih

/-- Up to the first call of an operation with `p`, a run is as it is. -/
theorem Application.execBefore_follows (app : Application κ) (p : World κ → Op → Prop)
    (depth : Nat) (prog : Program κ α) :
    (app.execBefore p depth prog).Follows (app.exec depth prog) := by
  induction depth generalizing α with
  | zero => exact Program.run_follows (fun op => Act.Follows.watch_bind (.refl _)) prog
  | succ depth ih =>
    have user : (app.code.under (app.execBefore p depth)).Follows
        (app.code.under (app.exec depth)) := .under ih app.code
    exact Program.run_follows
      (fun op => Act.Follows.watch_bind (Setting.perform_follows user op)) prog

/-- A run that calls no operation with `p` is a run up to the first such call. -/
theorem Application.execBefore_run {app : Application κ} {p : World κ → Op → Prop}
    {prog : Program κ α} {w : World κ} (h : ¬app.Calls prog w p) (depth : Nat) :
    (app.execBefore p depth prog).run w = (app.exec depth prog).run w := by
  rcases app.execBefore_follows p depth prog w with hstop | hrun
  · exact absurd ⟨depth, hstop⟩ h
  · exact hrun

/-! ## Programs run by themselves -/

/-- Whether a program, run step by step with `perform`, calls no operation with `q` and comes to its
end. -/
def Program.avoids (perform : (op : Op) → Act κ op.Reply) (q : World κ → Op → Bool) :
    Program κ α → World κ → Bool
  | .done _, _ => true
  | .look k, w => (k w).avoids perform q w
  | .store m next, w => next.avoids perform q { w with memory := m }
  | .note n next, w => next.avoids perform q { w with record := .noted n :: w.record }
  | .call op k, w =>
    !q w op &&
      match (perform op).run w with
      | .ok (r, w') => (k r).avoids perform q w'
      | .error _ => false

/-- No onlooker stops a program that avoids an operation, with calls nested to any depth. -/
theorem Program.avoids_before {p : World κ → Op → Prop} {q : World κ → Op → Bool}
    (hpq : ∀ w op, p w op → q w op = true) {perform perform' : (op : Op) → Act κ op.Reply}
    (h : ∀ op w, (perform' op).run w = .error (some .exhausted) ∨
      (perform' op).run w = (perform op).run w)
    (prog : Program κ α) (w : World κ) (hq : prog.avoids perform q w = true) :
    (prog.run (Act.before p perform')).Wp (· ≠ none) (fun _ _ => True) w := by
  induction prog generalizing w with
  | done a => trivial
  | look k ih => exact ih w w hq
  | store m next ih => exact ih _ hq
  | note n next ih => exact ih _ hq
  | call op k ih =>
    rw [avoids, Bool.and_eq_true, Bool.not_eq_true'] at hq
    obtain ⟨hnot, hrest⟩ := hq
    unfold run Act.before
    rw [Act.wp_bind, Act.wp_bind, Act.wp_watch]
    refine ⟨fun hp => absurd (hpq w op hp) (by rw [hnot]; exact Bool.false_ne_true), fun _ => ?_⟩
    unfold Act.Wp
    rcases h op w with hspent | hsame
    · rw [hspent]
      exact Option.some_ne_none _
    · rw [hsame]
      cases hrun : (perform op).run w with
      | ok r => exact ih r.1 r.2 (by rw [hrun] at hrest; exact hrest)
      | error e =>
        rw [hrun] at hrest
        cases hrest

/-- Code that does nothing. -/
def Callbacks.idle {m : Type → Type} [Monad m] : Callbacks m where
  load _ path := return .error (.notFound path)
  make _ := return ()
  render _ frame := return (none, frame.pipe)
  handle _ _ _ := return ()
  listen _ _ := return ()

theorem Callbacks.under_idle (app : Application κ) (p : World κ → Op → Prop) (depth : Nat) :
    (Callbacks.idle : Callbacks (Program κ)).under (app.execBefore p depth) = .idle := by
  cases depth with
  | zero => rfl
  | succ depth => rfl

section

variable {app : Application κ} {p : World κ → Op → Prop} {q : World κ → Op → Bool}
  (hpq : ∀ w op, p w op → q w op = true) {prog : Program κ α} {w : World κ}
include hpq

/-- Where the code of an application calls nothing, its programs run by themselves. -/
theorem Application.not_calls_of_avoids_under {user : Callbacks (Act κ)}
    (huser : ∀ depth, app.code.under (app.execBefore p depth) = user)
    (hq : prog.avoids (Setting.perform ⟨app.host, user⟩) q w = true) : ¬app.Calls prog w p := by
  rintro ⟨depth, hstop⟩
  have hwp : (app.execBefore p depth prog).Wp (· ≠ none) (fun _ _ => True) w := by
    cases depth with
    | zero => exact prog.avoids_before hpq (fun _ _ => .inl rfl) w hq
    | succ depth =>
      have hsame : ∀ op w, (Setting.perform ⟨app.host, app.code.under (app.execBefore p depth)⟩
          op).run w = (Setting.perform ⟨app.host, user⟩ op).run w := by
        intro op w
        rw [huser]
      exact prog.avoids_before hpq (fun op w => .inr (hsame op w)) w hq
  exact hwp.of_stop hstop rfl

theorem Application.not_calls_of_avoids (hcode : app.code = .idle)
    (hq : prog.avoids (Setting.perform ⟨app.host, .idle⟩) q w = true) : ¬app.Calls prog w p :=
  not_calls_of_avoids_under hpq (fun depth => by rw [hcode, Callbacks.under_idle]) hq

end

/-- The world in which a run ends that starts in `w`; `w` if it stops. -/
def Application.worldAfter (app : Application κ) (depth : Nat) (prog : Program κ Unit)
    (w : World κ) : World κ :=
  match (app.exec depth prog).run w with
  | .ok (_, v) => v
  | .error _ => w

theorem Application.run_eq_worldAfter {app : Application κ} {depth : Nat} {prog : Program κ Unit}
    {w : World κ} (h : ((app.exec depth prog).run w).isOk = true) :
    (app.exec depth prog).run w = .ok ((), app.worldAfter depth prog w) := by
  unfold worldAfter
  cases hrun : (app.exec depth prog).run w with
  | ok r => rfl
  | error e =>
    rw [hrun] at h
    cases h

/-! ## Contracts -/

namespace Contract

variable {C : Contract κ} {app : Application κ} {P : Op → Prop} {p : World κ → Op → Prop}

/-- A program keeps the contract if the operations that it uses do. -/
theorem Kept.run (hC : C.Open) {perform : (op : Op) → Act κ op.Reply}
    (hperform : ∀ op, P op → C.Kept (perform op)) {prog : Program κ α} (hprog : prog.Uses P) :
    C.Kept (prog.run perform) := by
  induction prog with
  | done a => exact Kept.pure a
  | look k ih => exact Kept.get_bind fun w => ih w (hprog w)
  | store m next ih =>
    refine Kept.bind (fun w hw => ?_) fun _ => ih hprog
    exact hC.memory hw m
  | note n next ih =>
    refine Kept.bind (fun w hw => ?_) fun _ => ih hprog
    exact hC.note hw n
  | call op k ih => exact (hperform op hprog.1).bind fun r => ih r (hprog.2 r)

/-- Runs keep a contract that the operations keep. -/
theorem Sound.exec (hC : C.Sound app.host P) (hcode : app.code.Uses P) (depth : Nat)
    {prog : Program κ α} (hprog : prog.Uses P) : C.Kept (app.exec depth prog) := by
  induction depth generalizing α with
  | zero => exact Kept.run hC.toOpen (fun op _ => Kept.throw hC.exhausted) hprog
  | succ depth ih =>
    exact Kept.run hC.toOpen (hC.perform _ (.under hcode ih)) hprog

variable (C) in
/-- The operations keep the contract where they do not have `p`. -/
structure Sparing (host : HostId → Host) (p : World κ → Op → Prop) : Prop extends C.Open where
  /-- An onlooker may stop the run. -/
  stopped : C.stops none
  perform : ∀ user : Callbacks (Act κ), C.KeptBy user → ∀ op w, C.inv w → ¬p w op →
    C.KeptFrom w (Setting.perform ⟨host, user⟩ op)

theorem Sparing.before (hC : C.Sparing app.host p) {perform : (op : Op) → Act κ op.Reply}
    (h : ∀ op w, C.inv w → ¬p w op → C.KeptFrom w (perform op)) (op : Op) :
    C.Kept (Act.before p perform op) := by
  intro w hw
  unfold Act.before
  rw [Act.wp_bind, Act.wp_watch]
  exact ⟨fun _ => hC.stopped, fun hp => h op w hw hp⟩

/-- A run keeps the contract up to the first operation with `p`. -/
theorem Sparing.execBefore (hC : C.Sparing app.host p) (depth : Nat) (prog : Program κ α) :
    C.Kept (app.execBefore p depth prog) := by
  have any : ∀ {α : Type} (prog : Program κ α), prog.Uses fun _ => True :=
    fun prog => Program.uses_of_forall (fun _ => trivial) prog
  induction depth generalizing α with
  | zero =>
    have spent : ∀ op, C.Kept (throw (some .exhausted) : Act κ (Op.Reply op)) :=
      fun op => Kept.throw hC.exhausted
    exact Kept.run hC.toOpen (fun op _ => hC.before (fun op w hw _ => spent op w hw) op) (any prog)
  | succ depth ih =>
    have user : C.KeptBy (app.code.under (app.execBefore p depth)) :=
      .under (Callbacks.uses_of_forall (fun _ => trivial) app.code) fun _ => ih _
    exact Kept.run hC.toOpen (fun op _ => hC.before (hC.perform _ user) op) (any prog)

/-- **Runs without certain calls.** A run that calls no operation with `p` keeps a contract that
all other operations keep. -/
theorem Sparing.exec (hC : C.Sparing app.host p) {prog : Program κ α} {w : World κ}
    (hw : C.inv w) (h : ¬app.Calls prog w p) (depth : Nat) :
    C.KeptFrom w (app.exec depth prog) := by
  have hkept := hC.execBefore depth prog w hw
  rw [Act.Wp, Application.execBefore_run h] at hkept
  exact hkept

end Contract

end LayeredViews
