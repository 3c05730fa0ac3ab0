import LayeredViews.Proofs.Calls

/-!
# Runs without certain calls

Some things are true of a world that a run comes to only if certain code has not called certain
operations before.

* `Caller`: the kinds of code that call operations.
* `Application.ReachesWithout q prog w v`: a run of the program from `w` comes to `v`, and no code
  has called an operation with `q` before.
* `Contract.Guarded`: there is a contract for each kind of code, and the operations keep it where
  they do not have `q`. Then it holds in every world that is reached without them
  (`Contract.Guarded.inv_of_reaches`).
* `Application.views_run_without`: views are the same whether or not code that never comes to such
  a call would give up before it.
* `Application.ReachesWithout.of_uses`: where the code of an application has no such calls in it,
  every world that a run comes to is reached without them.
-/

namespace LayeredViews

variable {κ : Client} {α : Type}

/-- The kinds of code that call operations. -/
inductive Caller where
  | program
  | loader
  | factory
  | view
  | method
  | listener
  deriving DecidableEq

/-- The code of an application, run by `run`, which is told what kind of code it runs. -/
def Callbacks.underEach (code : Callbacks (Program κ))
    (run : Caller → {α : Type} → Program κ α → Act κ α) : Callbacks (Act κ) where
  load key path := run .loader (code.load key path)
  make inst := run .factory (code.make inst)
  render inst frame := run .view (code.render inst frame)
  handle method c event := run .method (code.handle method c event)
  listen key event := run .listener (code.listen key event)

open Classical in
/-- Gives up before an operation with `q`, as if it were nested too deep. -/
noncomputable def Act.without (q : World κ → Op → Prop) (perform : (op : Op) → Act κ op.Reply)
    (op : Op) : Act κ op.Reply := do
  if q (← get) op then throw (some .exhausted) else perform op

/-- Runs a program of an application up to the first world with `p` that code comes to, and gives up
before an operation with `q`. -/
noncomputable def Application.execWithout [Ownership κ] (app : Application κ)
    (q : Caller → World κ → Op → Prop) (p : World κ → Prop) :
    Nat → Caller → {α : Type} → Program κ α → Act κ α
  | 0, _, _, prog => prog.runUntil p fun _ => throw (some .exhausted)
  | depth + 1, who, _, prog =>
    prog.runUntil p (Act.without (q who)
      (Setting.perform ⟨app.host, app.code.underEach (app.execWithout q p depth)⟩))

/-- A run of a program from `w` comes to the world `v`, and has called no operation with `q`
before. -/
def Application.ReachesWithout [Ownership κ] (app : Application κ)
    (q : Caller → World κ → Op → Prop) (prog : Program κ α) (w v : World κ) : Prop :=
  ∃ depth, (app.execWithout q (· = v) depth .program prog).run w = .error none

/-! ## Contracts -/

namespace Contract

variable {app : Application κ} {q : Caller → World κ → Op → Prop}

/-- Each kind of code keeps a contract of its own. -/
structure KeptByEach (C : Caller → Contract κ) (user : Callbacks (Act κ)) : Prop where
  load : ∀ key path, (C .loader).Kept (user.load key path)
  make : ∀ inst, (C .factory).Kept (user.make inst)
  render : ∀ inst frame, (C .view).Kept (user.render inst frame)
  handle : ∀ method c event, (C .method).Kept (user.handle method c event)
  listen : ∀ key event, (C .listener).Kept (user.listen key event)

theorem KeptByEach.keptBy {C : Contract κ} {user : Callbacks (Act κ)}
    (hu : KeptByEach (fun _ => C) user) : C.KeptBy user :=
  ⟨hu.load, hu.make, hu.render, hu.handle, hu.listen⟩

theorem KeptByEach.underEach {C : Caller → Contract κ}
    {run : Caller → {α : Type} → Program κ α → Act κ α}
    (h : ∀ who {α : Type} (prog : Program κ α), (C who).Kept (run who prog))
    (code : Callbacks (Program κ)) : KeptByEach C (code.underEach run) :=
  ⟨fun _ _ => h _ _, fun _ => h _ _, fun _ _ => h _ _, fun _ _ _ => h _ _, fun _ _ => h _ _⟩

/-- Operations without `q` keep the contract of the code that calls them. -/
structure Guarded (C : Caller → Contract κ) (host : HostId → Host)
    (q : Caller → World κ → Op → Prop) : Prop where
  opened : ∀ who, (C who).Open
  perform : ∀ user : Callbacks (Act κ), KeptByEach C user → ∀ who op w, (C who).inv w →
    ¬q who w op → (C who).KeptFrom w (Setting.perform ⟨host, user⟩ op)

theorem Sound.guarded {C : Contract κ} {host : HostId → Host} {P : Op → Prop}
    (hC : C.Sound host P) (hP : ∀ who w op, ¬q who w op → P op) :
    Guarded (fun _ => C) host q where
  opened _ := hC.toOpen
  perform user hu who op w hw hop := hC.perform user hu.keptBy op (hP who w op hop) w hw

theorem Kept.without {C : Contract κ} (hC : C.Open) {q : World κ → Op → Prop}
    {perform : (op : Op) → Act κ op.Reply}
    (h : ∀ op w, C.inv w → ¬q w op → C.KeptFrom w (perform op)) (op : Op) :
    C.Kept (Act.without q perform op) := by
  intro w hw
  unfold Act.without
  rw [Act.wp_bind, Act.wp_get]
  by_cases hq : q w op
  · simp only [hq, if_true]
    exact hC.exhausted
  · simp only [hq, if_false]
    exact h op w hw hq

variable {C : Caller → Contract κ}

theorem Guarded.execWithout (hC : Guarded C app.host q) {p : World κ → Prop}
    (hp : ∀ who w, (C who).inv w → ¬p w) (depth : Nat) (who : Caller) (prog : Program κ α) :
    (C who).Kept (app.execWithout q p depth who prog) := by
  have any : ∀ {α : Type} (prog : Program κ α), prog.Uses fun _ => True :=
    fun prog => Program.uses_of_forall (fun _ => trivial) prog
  induction depth generalizing α who with
  | zero =>
    exact Kept.runUntil (hC.opened who) (hp who)
      (fun op _ => Kept.throw (hC.opened who).exhausted) (any prog)
  | succ depth ih =>
    have user : KeptByEach C (app.code.underEach (app.execWithout q p depth)) :=
      .underEach (fun who => ih who) app.code
    exact Kept.runUntil (hC.opened who) (hp who)
      (fun op _ => Kept.without (hC.opened who) (hC.perform _ user who) op) (any prog)

/-- **Invariants of runs without certain calls.** Where the operations without `q` keep contracts
that let no onlooker stop them, every world that a run comes to without calling another one
satisfies the invariant of the code that comes to it. -/
theorem Guarded.inv_of_reaches (hC : Guarded C app.host q) (hs : ∀ who, ¬(C who).stops none)
    {prog : Program κ α} {w v : World κ} (hw : (C .program).inv w)
    (h : app.ReachesWithout q prog w v) : ∃ who, (C who).inv v := by
  obtain ⟨depth, hrun⟩ := h
  refine Classical.byContradiction fun hv => ?_
  have hp : ∀ who u, (C who).inv u → ¬u = v := fun who u hu he => hv ⟨who, he ▸ hu⟩
  have kept := hC.execWithout hp depth .program prog w hw
  rw [Act.Wp, hrun] at kept
  exact hs .program kept

/-- Where all code keeps one contract, the world satisfies its invariant. -/
theorem Guarded.inv_of_reaches_one {C : Contract κ} (hC : Guarded (fun _ => C) app.host q)
    (hs : ¬C.stops none) {prog : Program κ α} {w v : World κ} (hw : C.inv w)
    (h : app.ReachesWithout q prog w v) : C.inv v :=
  (hC.inv_of_reaches (fun _ => hs) hw h).elim fun _ hv => hv

end Contract

/-! ## Runs that make no such calls -/

theorem Act.before_follows_without {q : World κ → Op → Prop}
    {perform perform' : (op : Op) → Act κ op.Reply} {op : Op}
    (h : (perform op).Follows (perform' op)) :
    (Act.before q perform op).Follows (Act.without q perform' op) := by
  intro w
  by_cases hq : q w op
  · exact .inl (by simp [Act.before, Act.watch, hq]; rfl)
  · have hrun : (Act.without q perform' op).run w = (perform' op).run w :=
      congrFun (if_neg hq) w
    rw [hrun]
    exact Act.Follows.watch_bind h w

theorem Program.run_follows_until {perform perform' : (op : Op) → Act κ op.Reply}
    (h : ∀ op, (perform op).Follows (perform' op)) (prog : Program κ α) :
    (prog.run perform).Follows (prog.runUntil (fun _ => False) perform') := by
  have unseen : ∀ {α : Type} {a b : Act κ α}, a.Follows b →
      a.Follows (Act.watch (fun _ => False) >>= fun _ => b) := by
    intro α a b hab w
    have hrun : (Act.watch (fun _ => False) >>= fun _ => b).run w = b.run w := by
      simp [Act.watch]
    rw [hrun]
    exact hab w
  induction prog with
  | done a => exact unseen (.refl _)
  | look k ih => exact unseen ((Act.Follows.refl _).bind ih)
  | store m next ih => exact unseen ((Act.Follows.refl _).bind fun _ => ih)
  | note n next ih => exact unseen ((Act.Follows.refl _).bind fun _ => ih)
  | call op k ih => exact unseen ((h op).bind ih)

namespace Application

variable {app : Application κ} {q : World κ → Op → Prop}

/-- Up to the first operation with `q`, a run is that of code which gives up there. -/
theorem execBefore_follows_without (app : Application κ) (q : World κ → Op → Prop) (depth : Nat)
    (who : Caller) (prog : Program κ α) :
    (app.execBefore q depth prog).Follows
      (app.execWithout (fun _ => q) (fun _ => False) depth who prog) := by
  induction depth generalizing α who with
  | zero => exact Program.run_follows_until (fun op => Act.Follows.watch_bind (.refl _)) prog
  | succ depth ih =>
    have user : (app.code.under (app.execBefore q depth)).Follows
        (app.code.underEach (app.execWithout (fun _ => q) (fun _ => False) depth)) :=
      ⟨fun _ _ => ih _ _, fun _ => ih _ _, fun _ _ => ih _ _, fun _ _ _ => ih _ _,
        fun _ _ => ih _ _⟩
    exact Program.run_follows_until
      (fun op => Act.before_follows_without (Setting.perform_follows user op)) prog

/-- An operation during which a call of one with `q` is come to. -/
theorem calls_of_stop {op : Op} {depth : Nat} {w : World κ}
    (h : (Setting.perform ⟨app.host, app.code.under (app.execBefore q depth)⟩ op).run w =
      .error none) : app.Calls (.perform op) w q := by
  refine ⟨depth + 1, ?_⟩
  by_cases hq : q w op
  · simp [execBefore, Program.perform, Program.run, Act.before, Act.watch, hq]
    rfl
  · simp [execBefore, Program.perform, Program.run, Act.before, Act.watch, hq, h]

/-- Where no call of an operation with `q` is come to while views are asked for, they are the same
as where code gives up before such an operation. -/
theorem views_run_without {i : ComponentId} {c : Component} {v : World κ}
    (hcalls : ¬app.Calls (.perform (.views i)) v q) (hc : v.components.get? i = some c)
    (depth : Nat) :
    (Setting.views ⟨app.host, app.code.underEach
        (app.execWithout (fun _ => q) (fun _ => False) depth)⟩ i c).run (v.pin i) =
      (Setting.views ⟨app.host, app.code.under (app.exec depth)⟩ i c).run (v.pin i) := by
  have runs : (app.code.under (app.execBefore q depth)).Follows
      (app.code.under (app.exec depth)) :=
    have follows := fun {α : Type} (prog : Program κ α) => app.execBefore_follows q depth prog
    ⟨fun _ _ => follows _, fun _ => follows _, fun _ _ => follows _, fun _ _ _ => follows _,
      fun _ _ => follows _⟩
  have gives : (app.code.under (app.execBefore q depth)).Follows
      (app.code.underEach (app.execWithout (fun _ => q) (fun _ => False) depth)) :=
    have follows := fun {α : Type} who (prog : Program κ α) =>
      app.execBefore_follows_without q depth who prog
    ⟨fun _ _ => follows _ _, fun _ => follows _ _, fun _ _ => follows _ _, fun _ _ _ => follows _ _,
      fun _ _ => follows _ _⟩
  have goes : ∀ {a : Act κ (Except Error ViewList)},
      (Setting.views ⟨app.host, app.code.under (app.execBefore q depth)⟩ i c).Follows a →
      (Setting.views ⟨app.host, app.code.under (app.execBefore q depth)⟩ i c).run (v.pin i) =
        a.run (v.pin i) := fun ha =>
    (ha (v.pin i)).resolve_left fun hstop =>
      hcalls (calls_of_stop (Act.withComponent_stop hc hstop))
  exact (goes (Setting.views_follows gives i c)).symm.trans (goes (Setting.views_follows runs i c))

end Application

/-! ## Code that has no such calls in it -/

theorem Act.without_of_not {q : World κ → Op → Prop} {perform : (op : Op) → Act κ op.Reply}
    {op : Op} (h : ∀ w, ¬q w op) : Act.without q perform op = perform op := by
  funext w
  exact congrFun (if_neg (h w)) w

theorem Program.runUntil_congr {P : Op → Prop} {p : World κ → Prop}
    {perform perform' : (op : Op) → Act κ op.Reply} (h : ∀ op, P op → perform op = perform' op)
    {prog : Program κ α} (hprog : prog.Uses P) :
    prog.runUntil p perform = prog.runUntil p perform' := by
  induction prog with
  | done a => rfl
  | look k ih =>
    simp only [runUntil]
    congr
    funext _
    congr
    funext w
    exact ih w (hprog w)
  | store m next ih => simp only [runUntil, ih hprog]
  | note n next ih => simp only [runUntil, ih hprog]
  | call op k ih =>
    simp only [runUntil, h op hprog.1]
    congr
    funext _
    congr
    funext r
    exact ih r (hprog.2 r)

/-- Each kind of code calls only operations with its own `P`. -/
structure Callbacks.UsesEach (P : Caller → Op → Prop) (code : Callbacks (Program κ)) : Prop where
  load : ∀ key path, (code.load key path).Uses (P .loader)
  make : ∀ inst, (code.make inst).Uses (P .factory)
  render : ∀ inst frame, (code.render inst frame).Uses (P .view)
  handle : ∀ method c event, (code.handle method c event).Uses (P .method)
  listen : ∀ key event, (code.listen key event).Uses (P .listener)

namespace Application

variable {app : Application κ} {q : Caller → World κ → Op → Prop} {P : Caller → Op → Prop}
  (hP : ∀ who w op, P who op → ¬q who w op) (hcode : app.code.UsesEach P)
include hP hcode

theorem execWithout_of_uses (p : World κ → Prop) (depth : Nat) {who : Caller}
    {prog : Program κ α} (hprog : prog.Uses (P who)) :
    app.execWithout q p depth who prog = app.execUntil p depth prog := by
  induction depth generalizing α who with
  | zero => rfl
  | succ depth ih =>
    have user : app.code.underEach (app.execWithout q p depth) =
        app.code.under (app.execUntil p depth) := by
      unfold Callbacks.underEach Callbacks.under
      congr
      · exact funext fun key => funext fun path => ih (hcode.load key path)
      · exact funext fun inst => ih (hcode.make inst)
      · exact funext fun inst => funext fun frame => ih (hcode.render inst frame)
      · exact funext fun method => funext fun c => funext fun event =>
          ih (hcode.handle method c event)
      · exact funext fun key => funext fun event => ih (hcode.listen key event)
    refine Program.runUntil_congr (fun op hop => ?_) hprog
    rw [Act.without_of_not fun w => hP who w op hop, user]

theorem ReachesWithout.of_uses {prog : Program κ α} (hprog : prog.Uses (P .program))
    {w v : World κ} (h : app.Reaches prog w v) : app.ReachesWithout q prog w v := by
  obtain ⟨depth, hrun⟩ := h
  exact ⟨depth, by rw [execWithout_of_uses hP hcode _ depth hprog, hrun]⟩

end Application

end LayeredViews
