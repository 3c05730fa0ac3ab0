import LayeredViews.Proofs.Reach

/-!
# Watched runs and runs

An onlooker only stops a run: up to where it does, a watched run does what the run does
(`Act.Follows`, `Application.execUntil_follows`). So a run that ends has come to its last world
(`Application.reaches_of_exec`), and one that calls an operation comes to the worlds that the
operation comes to (`Application.reaches_of_call`).
-/

namespace LayeredViews

variable {κ : Client} {α β : Type}

/-- `a` does what `b` does, unless an onlooker stops it. -/
def Act.Follows (a b : Act κ α) : Prop := ∀ w, a.run w = .error none ∨ a.run w = b.run w

namespace Act.Follows

theorem refl (a : Act κ α) : Follows a a := fun _ => .inr rfl

theorem bind {a b : Act κ β} {f g : β → Act κ α} (h : Follows a b)
    (hf : ∀ x, Follows (f x) (g x)) : Follows (a >>= f) (b >>= g) := by
  intro w
  rw [StateT.run_bind, StateT.run_bind]
  rcases h w with hw | hw
  · exact .inl (by rw [hw]; rfl)
  · rw [hw]
    cases b.run w with
    | ok p => exact hf p.1 p.2
    | error e => exact .inr rfl

theorem map {f : β → α} {a b : Act κ β} (h : Follows a b) : Follows (f <$> a) (f <$> b) := by
  rw [← bind_pure_comp, ← bind_pure_comp]
  exact h.bind fun _ => refl _

theorem forM {γ : Type} {f g : γ → Act κ PUnit} (h : ∀ x, Follows (f x) (g x)) (l : List γ) :
    Follows (l.forM f) (l.forM g) := by
  induction l with
  | nil => exact refl _
  | cons x rest ih => exact (h x).bind fun _ => ih

theorem watch_bind {p : World κ → Prop} {a b : Act κ α} (h : Follows a b) :
    Follows (watch p >>= fun _ => a) b := by
  intro w
  by_cases hp : p w
  · exact .inl (by simp [watch, hp]; rfl)
  · have hw : (watch p >>= fun _ => a).run w = a.run w := by
      simp [watch, hp]
    rw [hw]
    exact h w

theorem lend {a b : Act κ α} (cell : Cell) (access : Access) (h : Follows a b) :
    Follows (lend cell access a) (lend cell access b) := by
  refine (refl get).bind fun w => ?_
  by_cases hc : w.conflicts cell access = true
  · simp only [hc, if_true]
    exact refl _
  · simp only [hc]
    exact (refl _).bind fun _ => h.bind fun _ => refl _

theorem pinned {a b : Act κ α} (c : ComponentId) (h : Follows a b) :
    Follows (pinned c a) (pinned c b) :=
  (refl _).bind fun _ => h.bind fun _ => refl _

theorem withComponent {f g : Component → Act κ α} (c : ComponentId)
    (h : ∀ comp, Follows (f comp) (g comp)) : Follows (withComponent c f) (withComponent c g) := by
  refine (refl get).bind fun w => ?_
  cases w.components.get? c with
  | none => exact refl _
  | some comp => exact pinned c (h comp).map

end Act.Follows

/-- Code that does what other code does, unless an onlooker stops it. -/
structure Callbacks.Follows (user user' : Callbacks (Act κ)) : Prop where
  load : ∀ key path, (user.load key path).Follows (user'.load key path)
  make : ∀ inst, (user.make inst).Follows (user'.make inst)
  render : ∀ inst frame, (user.render inst frame).Follows (user'.render inst frame)
  handle : ∀ method c event, (user.handle method c event).Follows (user'.handle method c event)
  listen : ∀ key event, (user.listen key event).Follows (user'.listen key event)

theorem Callbacks.Follows.under {run run' : {α : Type} → Program κ α → Act κ α}
    (h : ∀ {α : Type} (prog : Program κ α), (run prog).Follows (run' prog))
    (code : Callbacks (Program κ)) : (code.under run).Follows (code.under run') :=
  ⟨fun _ _ => h _, fun _ => h _, fun _ _ => h _, fun _ _ _ => h _, fun _ _ => h _⟩

namespace Setting

open Act.Follows

variable {host : HostId → Host} {user user' : Callbacks (Act κ)} (hu : user.Follows user')
include hu

theorem load_follows (h : HostId) (path : String) :
    (load ⟨host, user⟩ h path).Follows (load ⟨host, user'⟩ h path) := by
  refine (refl _).bind fun _ => Act.Follows.bind ?_ fun _ => refl _
  cases (host h).loader with
  | registry classes => exact refl _
  | code key => exact hu.load key path

theorem make_follows (capability : Capability) (factory : Factory) :
    (make ⟨host, user⟩ capability factory).Follows (make ⟨host, user'⟩ capability factory) :=
  (refl _).bind fun inst => (refl _).bind fun _ => (hu.make inst).bind fun _ => refl _

theorem instantiate_follows (cls : Class) (capability : Capability) :
    (instantiate ⟨host, user⟩ cls capability).Follows
      (instantiate ⟨host, user'⟩ cls capability) := by
  unfold instantiate
  cases cls.factory capability with
  | ok factory => exact (make_follows hu capability factory).map
  | error e => exact refl _

theorem classOf_follows (h : HostId) (path : String → String) (d : Declaration) :
    (classOf ⟨host, user⟩ h path d).Follows (classOf ⟨host, user'⟩ h path d) := by
  cases d with
  | ident ident => exact (load_follows hu h (path ident)).bind fun r => refl _
  | ofClass cls => exact refl _

theorem makeModel_follows (cls : Class) :
    (makeModel ⟨host, user⟩ cls).Follows (makeModel ⟨host, user'⟩ cls) := by
  unfold makeModel
  cases cls.ensure .viewModel with
  | error e => exact refl _
  | ok _ =>
    refine (refl _).bind fun _ => ?_
    cases cls.buildModel.result with
    | error e => exact refl _
    | ok name => exact (instantiate_follows hu cls .viewModel).bind fun _ => refl _

theorem resolveModel_follows (c : Component) :
    (resolveModel ⟨host, user⟩ c).Follows (resolveModel ⟨host, user'⟩ c) := by
  refine (classOf_follows hu c.host _ _).bind fun ⟨found, paths⟩ => ?_
  cases found with
  | error e => exact refl _
  | ok cls => exact (makeModel_follows hu cls).bind fun _ => refl _

theorem resolveViews_follows (h : HostId) (model : Option Model) (ds : List Declaration) :
    (resolveViews ⟨host, user⟩ h model ds).Follows (resolveViews ⟨host, user'⟩ h model ds) := by
  induction ds with
  | nil => exact refl _
  | cons d rest ih =>
    rw [resolveViews_cons, resolveViews_cons]
    refine (classOf_follows hu h _ d).bind fun ⟨found, paths⟩ => ?_
    cases found with
    | error e => exact refl _
    | ok cls =>
      refine (instantiate_follows hu cls .view).bind fun made => ?_
      cases made with
      | error e => exact refl _
      | ok inst => exact ih.bind fun _ => refl _

theorem modelWithSources_follows (id : ComponentId) (c : Component) :
    (modelWithSources ⟨host, user⟩ id c).Follows (modelWithSources ⟨host, user'⟩ id c) := by
  refine (refl _).bind fun node => (refl _).bind fun e => ?_
  cases e.model with
  | some m => exact refl _
  | none => exact (refl _).bind fun _ => (resolveModel_follows hu c).bind fun _ => refl _

theorem views_follows (id : ComponentId) (c : Component) :
    (views ⟨host, user⟩ id c).Follows (views ⟨host, user'⟩ id c) := by
  have resolve : ∀ node model paths, (views.resolve ⟨host, user⟩ c node model paths).Follows
      (views.resolve ⟨host, user'⟩ c node model paths) := fun node model paths =>
    (resolveViews_follows hu c.host model _).bind fun _ => refl _
  rw [views_eq, views_eq]
  refine (refl _).bind fun node => (refl _).bind fun e => ?_
  cases e.views with
  | some l => exact refl _
  | none =>
    refine (refl _).bind fun _ => (modelWithSources_follows hu id c).bind fun ⟨model, paths⟩ => ?_
    cases model with
    | ok m => exact resolve node.id (some m) paths
    | error e =>
      by_cases he : e.isResolution = true
      · simp only [he, if_true]
        exact resolve node.id none paths
      · simp only [he]
        exact refl _

theorem compose_follows (component : String) (attrs : Attrs) (pipe : Pipe)
    (vs : List ResolvedView) :
    (compose ⟨host, user⟩ component attrs pipe vs).Follows
      (compose ⟨host, user'⟩ component attrs pipe vs) := by
  induction vs with
  | nil => exact refl _
  | cons v rest ih =>
    exact ih.bind fun ⟨yielded, pipe⟩ => (refl _).bind fun _ => hu.render v.inst _

theorem render_follows (id : ComponentId) (c : Component) (pipe : Pipe) :
    (render ⟨host, user⟩ id c pipe).Follows (render ⟨host, user'⟩ id c pipe) := by
  rw [render_eq, render_eq]
  refine (views_follows hu id c).bind fun found => ?_
  cases found with
  | error e => exact refl _
  | ok list =>
    unfold render.composeAll
    by_cases hl : list.views.isEmpty = true
    · simp only [hl, if_true]
      exact refl _
    · simp only [hl]
      exact lend _ _ ((refl _).bind fun w => (compose_follows hu _ _ _ _).bind fun _ => refl _)

theorem invoke_follows (listener : Listener) (event : GlobalEvent) :
    (invoke ⟨host, user⟩ listener event).Follows (invoke ⟨host, user'⟩ listener event) := by
  unfold invoke
  cases listener.callback with
  | code key => exact hu.listen key event
  | method id method =>
    exact (withComponent id fun c => (refl _).bind fun _ => hu.handle method id event).bind
      fun _ => refl _

theorem dispatch_follows (t : TargetId) (event : GlobalEvent) :
    (dispatch ⟨host, user⟩ t event).Follows (dispatch ⟨host, user'⟩ t event) :=
  (refl _).bind fun listeners =>
    (forM (fun listener => invoke_follows hu listener event) listeners).bind fun _ => refl _

theorem perform_follows (op : Op) :
    (perform ⟨host, user⟩ op).Follows (perform ⟨host, user'⟩ op) := by
  cases op with
  | views id => exact withComponent id fun c => views_follows hu id c
  | model id =>
    exact withComponent id fun c => (modelWithSources_follows hu id c).bind fun _ => refl _
  | render id pipe => exact withComponent id fun c => render_follows hu id c pipe
  | compose vs component attrs pipe => exact compose_follows hu component attrs pipe vs
  | instantiate cls capability => exact instantiate_follows hu cls capability
  | load h path => exact load_follows hu h path
  | dispatch t event => exact dispatch_follows hu t event
  | invoke listener event => exact invoke_follows hu listener event
  | _ => exact refl _

end Setting

theorem Program.runUntil_follows {p : World κ → Prop}
    {perform perform' : (op : Op) → Act κ op.Reply}
    (h : ∀ op, (perform op).Follows (perform' op)) (prog : Program κ α) :
    (prog.runUntil p perform).Follows (prog.run perform') := by
  induction prog with
  | done a => exact Act.Follows.watch_bind (.refl _)
  | look k ih => exact Act.Follows.watch_bind ((Act.Follows.refl _).bind ih)
  | store m next ih => exact Act.Follows.watch_bind ((Act.Follows.refl _).bind fun _ => ih)
  | note n next ih => exact Act.Follows.watch_bind ((Act.Follows.refl _).bind fun _ => ih)
  | call op k ih => exact Act.Follows.watch_bind ((h op).bind ih)

theorem Application.execUntil_follows (app : Application κ) (p : World κ → Prop) (depth : Nat)
    (prog : Program κ α) : (app.execUntil p depth prog).Follows (app.exec depth prog) := by
  induction depth generalizing α with
  | zero => exact Program.runUntil_follows (fun op => .refl _) prog
  | succ depth ih =>
    exact Program.runUntil_follows (fun op => Setting.perform_follows (.under ih app.code) op) prog

/-- Where a watched run ends, the onlooker has not seen the last world. -/
theorem Program.runUntil_end (p : World κ → Prop) {perform : (op : Op) → Act κ op.Reply}
    {prog : Program κ α} {w v : World κ} {a : α}
    (h : (prog.runUntil p perform).run w = .ok (a, v)) : ¬p v := by
  have ends : (prog.runUntil p perform).Wp (fun _ => True) (fun _ v => ¬p v) w := by
    clear h
    induction prog generalizing w with
    | done a =>
      rw [runUntil, Act.wp_bind, Act.wp_watch]
      exact ⟨fun _ => trivial, fun h => h⟩
    | look k ih =>
      rw [runUntil, Act.wp_bind, Act.wp_watch]
      exact ⟨fun _ => trivial, fun _ => ih w⟩
    | store m next ih =>
      rw [runUntil, Act.wp_bind, Act.wp_watch]
      exact ⟨fun _ => trivial, fun _ => ih⟩
    | note n next ih =>
      rw [runUntil, Act.wp_bind, Act.wp_watch]
      exact ⟨fun _ => trivial, fun _ => ih⟩
    | call op k ih =>
      rw [runUntil, Act.wp_bind, Act.wp_watch]
      refine ⟨fun _ => trivial, fun _ => (Act.wp_bind _ _).2 ?_⟩
      unfold Act.Wp
      cases (perform op).run w with
      | ok q => exact ih q.1
      | error e => trivial
  rw [Act.Wp, h] at ends
  exact ends

/-- A run that ends has come to its last world. -/
theorem Application.reaches_of_exec {app : Application κ} {depth : Nat} {prog : Program κ α}
    {w v : World κ} {a : α} (h : (app.exec depth prog).run w = .ok (a, v)) :
    app.Reaches prog w v := by
  rcases app.execUntil_follows (· = v) depth prog w with hs | hs
  · exact ⟨depth, hs⟩
  · rw [h] at hs
    cases depth with
    | zero => exact absurd rfl (Program.runUntil_end (· = v) hs)
    | succ depth => exact absurd rfl (Program.runUntil_end (· = v) hs)

/-- A watched run goes on as the run does, or it has stopped before. -/
theorem Program.runUntil_bind_stop {p : World κ → Prop}
    {perform perform' : (op : Op) → Act κ op.Reply} (h : ∀ op, (perform op).Follows (perform' op))
    {pre : Program κ β} {f : β → Program κ α} {b : β} {w w₁ : World κ}
    (hpre : (pre.run perform').run w = .ok (b, w₁))
    (hrest : ((f b).runUntil p perform).run w₁ = .error none) :
    ((pre.bind f).runUntil p perform).run w = .error none := by
  rw [← Act.wp_stop_iff] at hrest ⊢
  induction pre generalizing w with
  | done a =>
    cases hpre
    exact hrest
  | look k ih =>
    unfold bind runUntil
    rw [Act.wp_bind, Act.wp_watch]
    exact ⟨fun _ => rfl, fun _ => ih w hpre⟩
  | store m next ih =>
    unfold bind runUntil
    rw [Act.wp_bind, Act.wp_watch]
    exact ⟨fun _ => rfl, fun _ => ih hpre⟩
  | note n next ih =>
    unfold bind runUntil
    rw [Act.wp_bind, Act.wp_watch]
    exact ⟨fun _ => rfl, fun _ => ih hpre⟩
  | call op k ih =>
    unfold bind runUntil
    rw [Act.wp_bind, Act.wp_watch]
    refine ⟨fun _ => rfl, fun _ => (Act.wp_bind _ _).2 ?_⟩
    rw [run, StateT.run_bind] at hpre
    unfold Act.Wp
    rcases h op w with hstop | hsame
    · rw [hstop]
    · rw [hsame]
      cases hop : (perform' op).run w with
      | error e =>
        rw [hop] at hpre
        cases hpre
      | ok q =>
        rw [hop] at hpre
        exact ih q.1 hpre

/-- A run comes to the worlds that an operation comes to which it calls. -/
theorem Application.reaches_of_call {app : Application κ} {depth : Nat} {pre : Program κ β}
    {op : Op} {k : op.Reply → Program κ α} {b : β} {w w₁ v : World κ}
    (hpre : (app.exec (depth + 1) pre).run w = .ok (b, w₁))
    (hop : (Setting.perform ⟨app.host, app.code.under (app.execUntil (· = v) depth)⟩ op).run w₁ =
      .error none) :
    app.Reaches (pre.bind fun _ => .call op k) w v := by
  refine ⟨depth + 1, Program.runUntil_bind_stop (fun op => Setting.perform_follows
    (.under (fun prog => app.execUntil_follows _ depth prog) app.code) op) hpre ?_⟩
  rw [← Act.wp_stop_iff] at hop ⊢
  rw [Program.runUntil, Act.wp_bind, Act.wp_watch]
  exact ⟨fun _ => rfl, fun _ => (Act.wp_bind _ _).2 (hop.mono fun _ _ hfalse => hfalse.elim)⟩

/-- Code comes to the world that it begins in. -/
theorem Application.execUntil_start (app : Application κ) (depth : Nat) (prog : Program κ α)
    (v : World κ) :
    (app.execUntil (· = v) depth prog).run v = .error none := by
  have stops : ∀ perform : (op : Op) → Act κ op.Reply,
      (prog.runUntil (· = v) perform).run v = .error none := by
    intro perform
    rw [← Act.wp_stop_iff]
    cases prog with
    | _ =>
      rw [Program.runUntil, Act.wp_bind, Act.wp_watch]
      exact ⟨fun _ => rfl, fun hv => absurd rfl hv⟩
  cases depth with
  | zero => exact stops _
  | succ depth => exact stops _

end LayeredViews
