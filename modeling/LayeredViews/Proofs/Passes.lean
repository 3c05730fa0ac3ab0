import LayeredViews.Proofs.Abreast
import LayeredViews.Proofs.Silence
import LayeredViews.Proofs.Sources

/-!
# Render passes

A pass renders a list of views that was resolved before it began. The bodies of the views may do
anything meanwhile, with the component itself and what is stored for it too: the pass goes on with
its own list.

* `Setting.Passes`: the bodies of views run one after the other, from the last view to the first.
* `Setting.compose_run_iff`, `Setting.compose_stop_iff`: that is what composing does, and it stops
  where a body does.
* `stop_of_body`: why a body stops.
* `Application.Renders`: the ways in which rendering a component ends; it ends in one of them in
  every world that a run comes to (`pass_over_fixed_list`).
* `Application.reaches_body`: a run comes to the worlds in which the bodies of views begin.
* `Matryoshka.application`: a component is rendered in the body of another one and moves it. The
  pass is stopped from within, though nobody moves its own component (`pass_stopped_from_within`).
-/

namespace LayeredViews

variable {κ : Client} {α : Type}

/-- What a view is given in a pass, where `r` is what the view after it has left. -/
def ResolvedView.frame (x : ResolvedView) (component : String) (attrs : Attrs)
    (r : Option Markup × Pipe) : Frame := ⟨component, attrs, x.model, r.2, r.1⟩

namespace World

/-- The world in which the body of a view is run. -/
def rendering (w : World κ) (inst : Instance) (frame : Frame) : World κ :=
  { w with record := .rendered inst frame :: w.record }

/-- The world in which the views of a component were given. -/
def given (w : World κ) (c : Component) (list : ViewList) : World κ :=
  { w with record := .gave c.host c.node.id (.views list) :: w.record }

/-- The world in which the node of a component is read. -/
def lent (w : World κ) (i : ComponentId) : World κ :=
  { w with loans := (.node i, .read) :: w.loans }

/-- The world in which what was last taken is given back. -/
def returned (w : World κ) : World κ := { w with loans := w.loans.tail }

@[simp] theorem components_rendering (w : World κ) (inst : Instance) (frame : Frame) :
    (w.rendering inst frame).components = w.components := rfl

@[simp] theorem components_given (w : World κ) (c : Component) (list : ViewList) :
    (w.given c list).components = w.components := rfl

@[simp] theorem components_lent (w : World κ) (i : ComponentId) :
    (w.lent i).components = w.components := rfl

@[simp] theorem components_pin (w : World κ) (i : ComponentId) :
    (w.pin i).components = w.components := rfl

end World

/-- A use stops where what it is for does. -/
theorem Act.lend_stop {cell : Cell} {access : Access} {body : Act κ α} {w : World κ}
    (hfree : w.conflicts cell access = false) {e : Option Halt}
    (hbody : body.run { w with loans := (cell, access) :: w.loans } = .error e) :
    (lend cell access body).run w = .error e := by
  refine wp_stop_iff.1 ?_
  rw [wp_lend, hfree, if_neg Bool.false_ne_true]
  exact (wp_stop_iff.2 hbody).mono fun _ _ hfalse => hfalse

namespace Setting

variable (env : Setting κ) (component : String) (attrs : Attrs) (pipe : Pipe)

/-- Runs the body of a view, and notes it. -/
def body (x : ResolvedView) (r : Option Markup × Pipe) (w : World κ) :
    Except (Option Halt) ((Option Markup × Pipe) × World κ) :=
  (env.user.render x.inst (x.frame component attrs r)).run
    (w.rendering x.inst (x.frame component attrs r))

/-- The bodies of views are run once each, from the last view to the first. Each is given what the
one before it has left; the first one nothing, and the pipe. -/
inductive Passes : List ResolvedView → World κ → Option Markup × Pipe → World κ → Prop
  | nothing {w : World κ} : Passes [] w (none, pipe) w
  | view {x : ResolvedView} {inner : List ResolvedView} {w w₁ w₂ : World κ}
      {r r' : Option Markup × Pipe} (before : Passes inner w r w₁)
      (ran : env.body component attrs x r w₁ = .ok (r', w₂)) : Passes (x :: inner) w r' w₂

variable {env component attrs pipe}

theorem compose_cons_run {x : ResolvedView} {inner : List ResolvedView} {w : World κ} :
    (env.compose component attrs pipe (x :: inner)).run w =
      match (env.compose component attrs pipe inner).run w with
      | .ok (r, w₁) => env.body component attrs x r w₁
      | .error e => .error e := by
  rw [compose, StateT.run_bind]
  cases (env.compose component attrs pipe inner).run w with
  | ok p => rfl
  | error e => rfl

/-- Composing views is a pass over them. -/
theorem compose_run_iff {views : List ResolvedView} {w w' : World κ} {r : Option Markup × Pipe} :
    (env.compose component attrs pipe views).run w = .ok (r, w') ↔
      env.Passes component attrs pipe views w r w' := by
  constructor
  · intro hrun
    induction views generalizing r w' with
    | nil =>
      cases hrun
      exact .nothing
    | cons x inner ih =>
      rw [compose_cons_run] at hrun
      cases hinner : (env.compose component attrs pipe inner).run w with
      | error e =>
        rw [hinner] at hrun
        cases hrun
      | ok p =>
        rw [hinner] at hrun
        exact .view (ih hinner) hrun
  · intro hpass
    induction hpass with
    | nothing => rfl
    | view before ran ih =>
      rw [compose_cons_run, ih]
      exact ran

/-- Composing views stops where the body of one of them does. -/
theorem compose_stop_iff {views : List ResolvedView} {w : World κ} {e : Option Halt} :
    (env.compose component attrs pipe views).run w = .error e ↔
      ∃ outer x inner r w', views = outer ++ x :: inner ∧
        env.Passes component attrs pipe inner w r w' ∧
        env.body component attrs x r w' = .error e := by
  constructor
  · intro hrun
    induction views with
    | nil => cases hrun
    | cons x inner ih =>
      rw [compose_cons_run] at hrun
      cases hinner : (env.compose component attrs pipe inner).run w with
      | error e' =>
        rw [hinner] at hrun
        cases hrun
        obtain ⟨outer, y, rest, r, w', hsplit, hpass, hbody⟩ := ih hinner
        exact ⟨x :: outer, y, rest, r, w', congrArg (x :: ·) hsplit, hpass, hbody⟩
      | ok p =>
        rw [hinner] at hrun
        exact ⟨[], x, inner, p.1, p.2, rfl, compose_run_iff.1 hinner, hrun⟩
  · rintro ⟨outer, x, inner, r, w', rfl, hpass, hbody⟩
    induction outer with
    | nil =>
      rw [List.nil_append, compose_cons_run, compose_run_iff.2 hpass]
      exact hbody
    | cons y rest ih => rw [List.cons_append, compose_cons_run, ih]

/-- A pass leaves in use what was in use. -/
theorem Passes.ofNode {stops : Option Halt → Prop}
    (hu : (lending OfNode stops).KeptBy env.user) {views : List ResolvedView} {w w' : World κ}
    {r : Option Markup × Pipe} (hpass : env.Passes component attrs pipe views w r w')
    (hl : ∀ l ∈ w.loans, OfNode l) : ∀ l ∈ w'.loans, OfNode l := by
  induction hpass with
  | nothing => exact hl
  | @view x inner w w₁ w₂ r r' before ran ih =>
    have hkept := hu.render x.inst (x.frame component attrs r)
      (w₁.rendering x.inst (x.frame component attrs r)) (ih hl)
    exact (hkept.of_run ran).1

/-- Rendering begins with the views of the component. -/
theorem render_run_of_error {id : ComponentId} {c : Component} {w w₁ : World κ} {e : Error}
    (hviews : (env.views id c).run w = .ok (.error e, w₁)) :
    (env.render id c pipe).run w = .ok ((.error e, pipe), w₁) := by
  rw [render_eq, StateT.run_bind, hviews]
  rfl

theorem render_run_of_stop {id : ComponentId} {c : Component} {w : World κ} {e : Option Halt}
    (hviews : (env.views id c).run w = .error e) : (env.render id c pipe).run w = .error e := by
  rw [render_eq, StateT.run_bind, hviews]
  rfl

theorem render_run_of_nil {id : ComponentId} {c : Component} {w w₁ : World κ} {list : ViewList}
    (hviews : (env.views id c).run w = .ok (.ok list, w₁)) (hnil : list.views = []) :
    (env.render id c pipe).run w =
      .ok ((if (env.host c.host).config.requireViews then
        .error (.renderPrecondition c.metadata.name) else .ok none, pipe), w₁) := by
  rw [render_eq, StateT.run_bind, hviews]
  change (if list.views.isEmpty = true then _ else _ : Act κ _).run w₁ = _
  rw [if_pos (by rw [hnil]; rfl)]
  split
  · rfl
  · rfl

/-- If there are views, they are composed while the node of the component is read. -/
theorem render_run_of_views {id : ComponentId} {c : Component} {w w₁ : World κ} {list : ViewList}
    (hviews : (env.views id c).run w = .ok (.ok list, w₁)) (hne : list.views ≠ [])
    (hl : ∀ l ∈ w₁.loans, OfNode l) :
    (env.render id c pipe).run w =
      match (env.compose c.metadata.name (w₁.current id c).node.attrs pipe list.views).run
          (w₁.lent id) with
      | .ok (r, w₂) => .ok ((.ok r.1, r.2), w₂.returned)
      | .error e => .error e := by
  have hempty : list.views.isEmpty = false := List.isEmpty_eq_false_iff.2 hne
  rw [render_eq, StateT.run_bind, hviews]
  change (if list.views.isEmpty = true then _ else _ : Act κ _).run w₁ = _
  rw [if_neg (by simp [hempty])]
  have hfree := World.free_of_read hl (.node id)
  have hget : (get : Act κ (World κ)).run (w₁.lent id) = .ok (w₁.lent id, w₁.lent id) := rfl
  cases hcompose : (env.compose c.metadata.name (w₁.current id c).node.attrs pipe list.views).run
      (w₁.lent id) with
  | ok p => exact Act.run_lend hfree ((Act.run_bind_of hget).trans (Act.run_bind_of hcompose))
  | error e =>
    refine Act.lend_stop hfree ((Act.run_bind_of hget).trans ?_)
    refine (StateT.run_bind _ _ _).trans ?_
    exact congrArg (fun o => o >>= _) hcompose

end Setting

/-! ## Passes of a run -/

section

variable {app : Application κ} {depth : Nat} {component : String} {attrs : Attrs} {pipe : Pipe}

/-- Code of the application leaves the nodes in use that are read. -/
theorem Application.lending_keptBy (app : Application κ) (depth : Nat) :
    (lending OfNode (· ≠ none)).KeptBy (app.setting depth).user :=
  .under (Callbacks.uses_of_forall (fun _ => trivial) app.code) fun hprog =>
    (lending_sound app.host).exec (Callbacks.uses_of_forall (fun _ => trivial) app.code) depth hprog

theorem Application.lending_views (app : Application κ) (depth : Nat) (i : ComponentId)
    (c : Component) : (lending OfNode (· ≠ none)).Kept ((app.setting depth).views i c) :=
  lending_storing.resolving.views (app.lending_keptBy depth) i c

theorem Application.lending_render (app : Application κ) (depth : Nat) (i : ComponentId)
    (c : Component) (pipe : Pipe) :
    (lending OfNode (· ≠ none)).Kept ((app.setting depth).render i c pipe) :=
  lending_tended.render (app.lending_keptBy depth) i c pipe (app.lending_views depth i c)

/-- The body of a view stops where its calls are nested too deep, and where code that it runs moves
a component that is being rendered. -/
theorem stop_of_body {x : ResolvedView} {r : Option Markup × Pipe} {w : World κ} {e : Option Halt}
    (hl : ∀ l ∈ w.loans, OfNode l)
    (hbody : (app.setting depth).body component attrs x r w = .error e) :
    e = some .exhausted ∨ ∃ cell, e = some (.conflict cell) ∧
      app.Calls (app.code.render x.inst (x.frame component attrs r))
        (w.rendering x.inst (x.frame component attrs r)) (World.Interrupts cell) := by
  have hlent : ∀ l ∈ (w.rendering x.inst (x.frame component attrs r)).loans, OfNode l := hl
  have hkept := (app.lending_keptBy depth).render x.inst (x.frame component attrs r) _ hlent
  have hsome : e ≠ none := hkept.of_stop hbody
  match e, hsome with
  | some .exhausted, _ => exact .inl rfl
  | some (.conflict cell), _ =>
    refine .inr ⟨cell, rfl, Classical.byContradiction fun hcalls => ?_⟩
    exact ((lending_sparing app.host cell).exec hlent hcalls depth).of_stop hbody rfl

end

/-- How the rendering of a component ends that begins in `w`. -/
inductive Application.Renders (app : Application κ) (depth : Nat) (i : ComponentId) (c : Component)
    (pipe : Pipe) (w : World κ) :
    Except (Option Halt) ((Except Error (Option Markup) × Pipe) × World κ) → Prop
  /-- It has no views that can be resolved. -/
  | unresolved {e : Error} {w₁ : World κ}
      (views : ((app.setting depth).views i c).run w = .ok (.error e, w₁)) :
      Renders app depth i c pipe w (.ok ((.error e, pipe), w₁))
  /-- It has no views. -/
  | empty {list : ViewList} {w₁ : World κ}
      (views : ((app.setting depth).views i c).run w = .ok (.ok list, w₁))
      (nil : list.views = []) :
      Renders app depth i c pipe w (.ok ((if (app.host c.host).config.requireViews then
        .error (.renderPrecondition c.metadata.name) else .ok none, pipe), w₁))
  /-- Its views are passed through, with the attributes that its node has once they are resolved.
  What the first view leaves is the output. -/
  | passed {list : ViewList} {w₁ w₂ : World κ} {r : Option Markup × Pipe}
      (views : ((app.setting depth).views i c).run w = .ok (.ok list, w₁))
      (some : list.views ≠ [])
      (pass : (app.setting depth).Passes c.metadata.name (w₁.current i c).node.attrs pipe
        list.views (w₁.lent i) r w₂) :
      Renders app depth i c pipe w (.ok ((.ok r.1, r.2), w₂.returned))
  /-- The run stops while the views are resolved. -/
  | stoppedBefore {e : Option Halt}
      (views : ((app.setting depth).views i c).run w = .error e) :
      Renders app depth i c pipe w (.error e)
  /-- The run stops in the body of a view: calls are nested too deep, or code that is run meanwhile
  moves a component that is being rendered. -/
  | stoppedWithin {list : ViewList} {w₁ w₂ : World κ} {outer inner : List ResolvedView}
      {x : ResolvedView} {r : Option Markup × Pipe} {e : Option Halt}
      (views : ((app.setting depth).views i c).run w = .ok (.ok list, w₁))
      (split : list.views = outer ++ x :: inner)
      (pass : (app.setting depth).Passes c.metadata.name (w₁.current i c).node.attrs pipe
        inner (w₁.lent i) r w₂)
      (body : (app.setting depth).body c.metadata.name (w₁.current i c).node.attrs x r w₂ =
        .error e)
      (why : e = some .exhausted ∨ ∃ cell, e = some (.conflict cell) ∧
        app.Calls
          (app.code.render x.inst (x.frame c.metadata.name (w₁.current i c).node.attrs r))
          (w₂.rendering x.inst (x.frame c.metadata.name (w₁.current i c).node.attrs r))
          (World.Interrupts cell)) :
      Renders app depth i c pipe w (.error e)

section

variable {app : Application κ} {prog : Program κ α} {targets : Dict TargetId EventTarget}
  {memory : κ.Memory} {v : World κ}

/-- What rendering a component does where nothing but nodes is in use. -/
theorem Application.renders_run {w : World κ} (hl : ∀ l ∈ w.loans, OfNode l) (depth : Nat)
    (i : ComponentId) (c : Component) (pipe : Pipe) :
    app.Renders depth i c pipe w (((app.setting depth).render i c pipe).run w) := by
  have hkept := app.lending_views depth i c w hl
  cases hviews : ((app.setting depth).views i c).run w with
  | error e =>
    rw [Setting.render_run_of_stop hviews]
    exact .stoppedBefore hviews
  | ok p =>
    obtain ⟨answer, w₁⟩ := p
    have hl₁ : ∀ l ∈ w₁.loans, OfNode l := (hkept.of_run hviews).1
    cases answer with
    | error e =>
      rw [Setting.render_run_of_error hviews]
      exact .unresolved hviews
    | ok list =>
      by_cases hnil : list.views = []
      · rw [Setting.render_run_of_nil hviews hnil]
        exact .empty hviews hnil
      · rw [Setting.render_run_of_views hviews hnil hl₁]
        cases hcompose : ((app.setting depth).compose c.metadata.name
            (w₁.current i c).node.attrs pipe list.views).run (w₁.lent i) with
        | ok q => exact .passed hviews hnil (Setting.compose_run_iff.1 hcompose)
        | error e =>
          obtain ⟨outer, x, inner, r, w₂, hsplit, hpass, hbody⟩ :=
            Setting.compose_stop_iff.1 hcompose
          have hlent : ∀ l ∈ (w₁.lent i).loans, OfNode l :=
            List.forall_mem_cons.2 ⟨⟨i, rfl⟩, hl₁⟩
          exact .stoppedWithin hviews hsplit hpass hbody (stop_of_body
            (hpass.ofNode (app.lending_keptBy depth) hlent) hbody)

/-- The operation answers what the rendering of the component does. -/
theorem Application.perform_render {i : ComponentId} {c : Component} {w : World κ}
    (hl : ∀ l ∈ w.loans, OfNode l) (hc : w.components.get? i = some c) (depth : Nat)
    (pipe : Pipe) :
    (((app.setting depth).perform (.render i pipe)).run w).map Prod.fst =
      (((app.setting depth).render i c pipe).run (w.pin i)).map fun a => some a.1 := by
  have hkept := app.lending_render depth i c pipe (w.pin i) hl
  cases hrun : ((app.setting depth).render i c pipe).run (w.pin i) with
  | error e =>
    have hstop : ((app.setting depth).perform (.render i pipe)).run w = .error e :=
      Act.withComponent_stop hc hrun
    rw [hstop]
    rfl
  | ok p =>
    have hl' : ∀ l ∈ p.2.unpin.loans, OfNode l := (hkept.of_run hrun).1
    have hends : (Act.withComponent i fun c => (app.setting depth).render i c pipe).Wp
        (fun _ => False) (fun r _ => r = some p.1) w := by
      rw [Act.wp_withComponent, hc]
      dsimp only
      rw [Act.wp_pinned, Act.wp_map, Act.Wp, hrun]
      have hsettles : (lending OfNode fun _ => False).Kept (κ := κ) (Act.settle i) :=
        lending_settle i
      exact (hsettles _ hl').mono fun _ _ _ => rfl
    obtain ⟨_, w', hrun', rfl⟩ := hends.run_eq
    have hperform : ((app.setting depth).perform (.render i pipe)).run w = .ok (some p.1, w') :=
      hrun'
    rw [hperform]
    rfl

/-- **A pass renders a list that does not change.** In every world that a run comes to, rendering a
component resolves its views and renders those, each once, from the last to the first, whatever
their bodies do meanwhile. If the views can not be resolved or there are none, no body is run and
the pipe is what it was. The rendering stops only where the resolution or a body does, and a body
stops only where its calls are nested too deep or code that it runs moves a component that is being
rendered. -/
theorem pass_over_fixed_list (hv : app.Reaches prog (World.start targets memory) v)
    {i : ComponentId} {c : Component} (hc : v.components.get? i = some c) (pipe : Pipe)
    (depth : Nat) :
    ∃ answer, ((app.setting depth).render i c pipe).run (v.pin i) = answer ∧
      app.Renders depth i c pipe (v.pin i) answer ∧
      (((app.setting depth).perform (.render i pipe)).run v).map Prod.fst =
        answer.map fun a => some a.1 := by
  have hl := ofNode_of_reaches hv
  have hpinned : ∀ l ∈ (v.pin i).loans, OfNode l := hl
  exact ⟨_, rfl, Application.renders_run hpinned depth i c pipe,
    Application.perform_render hl hc depth pipe⟩

end

/-! ## Worlds that bodies begin in -/

section

variable {β : Type} {w w₁ v : World κ}

/-- A pass over stored views stops where its first body does. -/
theorem Setting.render_run_of_stored {env : Setting κ} {i : ComponentId} {c : Component}
    {pipe : Pipe} {list : ViewList} {outer : List ResolvedView} {x : ResolvedView}
    {e : Option Halt} (hl : ∀ l ∈ w.loans, OfNode l) (hc : w.components.get? i = some c)
    (hstored : (w.entry c.host c.node.id).views = some list) (hlist : list.views = outer ++ [x])
    (hbody : env.body c.metadata.name c.node.attrs x (none, pipe) ((w.given c list).lent i) =
      .error e) :
    (env.render i c pipe).run w = .error e := by
  have hcurrent : ∀ c', w.current i c' = c := World.current_of_get? hc
  have hviews : (env.views i c).run w = .ok (.ok list, w.given c list) := by
    have hstored' : (w.entry c.host (w.current i c).node.id).views = some list := by
      rw [hcurrent]
      exact hstored
    have hgiven := env.views_run hl hstored'
    rwa [hcurrent] at hgiven
  have hsame : (w.given c list).current i c = c := hcurrent c
  have hcompose : (env.compose c.metadata.name c.node.attrs pipe list.views).run
      ((w.given c list).lent i) = .error e :=
    compose_stop_iff.2 ⟨outer, x, [], (none, pipe), _, hlist, .nothing, hbody⟩
  rw [render_run_of_views hviews (by simp [hlist]) hl, hsame, hcompose]

/-- A run that renders a component whose views are stored comes to the world in which the body of
the last of them begins. -/
theorem Application.reaches_body {app : Application κ} {depth : Nat} {pre : Program κ β} {b : β}
    {i : ComponentId} {c : Component} {pipe : Pipe} {list : ViewList}
    {k : (Op.render i pipe).Reply → Program κ α} {outer : List ResolvedView} {x : ResolvedView}
    (hpre : (app.exec (depth + 1) pre).run w = .ok (b, w₁)) (hl : ∀ l ∈ w₁.loans, OfNode l)
    (hc : w₁.components.get? i = some c)
    (hstored : (w₁.entry c.host c.node.id).views = some list)
    (hlist : list.views = outer ++ [x]) :
    app.Reaches (pre.bind fun _ => .call (.render i pipe) k) w
      ((((w₁.pin i).given c list).lent i).rendering x.inst
        (x.frame c.metadata.name c.node.attrs (none, pipe))) := by
  have hpinned : ∀ l ∈ (w₁.pin i).loans, OfNode l := hl
  exact Application.reaches_of_call hpre (Act.withComponent_stop hc
    (Setting.render_run_of_stored hpinned hc hstored hlist (app.execUntil_start depth _ _)))

end

/-! ## A pass that is stopped from within -/

namespace Matryoshka

def shell : Class := .view 0 "Shell" ⟨0, "Shell"⟩

def coat : Class := .view 1 "Coat" ⟨1, "Coat"⟩

def core : Class := .view 2 "Core" ⟨2, "Core"⟩

def outer : ComponentType where
  own :=
    { label := "Outer"
      definer := some ⟨"Outer", [⟨"name", [.text "outer"]⟩, ⟨"views", [.ofClass shell]⟩]⟩ }

def inner : ComponentType where
  own :=
    { label := "Inner"
      definer := some ⟨"Inner",
        [⟨"name", [.text "inner"]⟩, ⟨"views", [.ofClass coat, .ofClass core]⟩]⟩ }

/-- The view of the first component renders the second one. The second one has two views; the
inner one of them moves the first component. -/
def application : Application ⟨Unit, Empty⟩ where
  host _ := {}
  code :=
    { load := fun _ path => .done (.error (.notFound path))
      make := fun _ => .done ()
      render := fun inst frame =>
        match inst.factory.key with
        | 0 => .call (.render 1 frame.pipe) fun _ => .done (none, frame.pipe)
        | 1 => .done (frame.yielded, frame.pipe)
        | _ => .call (.update 0 ⟨3, ∅⟩) fun _ => .done (some (.text "core"), frame.pipe)
      handle := fun _ _ _ => .done ()
      listen := fun _ _ => .done () }

/-- Makes both components and resolves their views. -/
def program : Program ⟨Unit, Empty⟩ Unit :=
  .call (.create 0 outer ⟨1, ∅⟩ ⟨0, "outer"⟩) fun _ =>
  .call (.create 0 inner ⟨2, ∅⟩ ⟨0, "inner"⟩) fun _ =>
  .call (.views 0) fun _ => .call (.views 1) fun _ => .done ()

/-- The world after the program. -/
def packed : World ⟨Unit, Empty⟩ := application.worldAfter 2 program (World.start ∅ ())

theorem run_program : (application.exec 2 program).run (World.start ∅ ()) = .ok ((), packed) :=
  Application.run_eq_worldAfter (by decide +kernel)

theorem exists_first : (packed.components.get? 0).isSome = true := by decide +kernel

theorem exists_second : (packed.components.get? 1).isSome = true := by decide +kernel

def first : Component := (packed.components.get? 0).get exists_first

def second : Component := (packed.components.get? 1).get exists_second

theorem packed_first : packed.components.get? 0 = some first := (Option.some_get exists_first).symm

theorem packed_second : packed.components.get? 1 = some second :=
  (Option.some_get exists_second).symm

/-- The view of the first component. -/
def shelled : ResolvedView := ⟨"Shell", ⟨1, ⟨0, "Shell"⟩⟩, none⟩

def shells : ViewList := ⟨0, [shelled]⟩

/-- The views of the second component. -/
def layers : ViewList :=
  ⟨1, [⟨"Coat", ⟨2, ⟨1, "Coat"⟩⟩, none⟩, ⟨"Core", ⟨3, ⟨2, "Core"⟩⟩, none⟩]⟩

theorem packed_shells : (packed.entry first.host first.node.id).views = some shells := by
  decide +kernel

/-- The views that the second component is given. -/
def viewsOf (w : World ⟨Unit, Empty⟩) : Option ViewList :=
  match ((application.setting 1).views 1 second).run (w.pin 1) with
  | .ok (.ok list, _) => some list
  | _ => none

theorem exists_views {w : World ⟨Unit, Empty⟩} {list : ViewList}
    (hviewsOf : viewsOf w = some list) :
    ∃ w', ((application.setting 1).views 1 second).run (w.pin 1) = .ok (.ok list, w') := by
  unfold viewsOf at hviewsOf
  cases hviews : ((application.setting 1).views 1 second).run (w.pin 1) with
  | error e =>
    rw [hviews] at hviewsOf
    cases hviewsOf
  | ok p =>
    obtain ⟨answer, w'⟩ := p
    rw [hviews] at hviewsOf
    cases answer with
    | error e => cases hviewsOf
    | ok found =>
      obtain rfl : found = list := Option.some.inj hviewsOf
      exact ⟨w', rfl⟩

theorem viewsOf_packed : viewsOf packed = some layers := by decide +kernel

/-- What rendering the second component gives after the program. -/
def printed : Option (Except Error (Option Markup) × Pipe) :=
  match ((application.setting 1).render 1 second ∅).run (packed.pin 1) with
  | .ok (x, _) => some x
  | .error _ => none

theorem printed_eq : printed = some (.ok (some (.text "core")), ∅) := by decide +kernel

/-- The world in which the view of the first component begins to render. -/
def opened : World ⟨Unit, Empty⟩ :=
  (((packed.pin 0).given first shells).lent 0).rendering shelled.inst
    (shelled.frame first.metadata.name first.node.attrs (none, ∅))

theorem viewsOf_opened : viewsOf opened = some layers := by decide +kernel

/-- How rendering the second component ends then. -/
def outcome :
    Except (Option Halt) ((Except Error (Option Markup) × Pipe) × World ⟨Unit, Empty⟩) :=
  ((application.setting 1).render 1 second ∅).run (opened.pin 1)

theorem outcome_stop : outcome = .error (some (.conflict (.node 0))) :=
  eq_error_of_haltOf (by decide +kernel)

/-- The program that renders the first component. -/
def rendering : Program ⟨Unit, Empty⟩ Unit :=
  program.bind fun _ => .call (.render 0 ∅) fun _ => .done ()

theorem reaches_opened : application.Reaches rendering (World.start ∅ ()) opened := by
  have hloans : packed.loans = [] := by decide +kernel
  have hlist : shells.views = [] ++ [shelled] := rfl
  exact Application.reaches_body run_program (by simp [hloans]) packed_first packed_shells hlist

theorem opened_second : opened.components.get? 1 = some second := by
  simp [opened, packed_second]

/-- No code moves the second component. -/
theorem code_uses : application.code.Uses fun op => ∀ node, op ≠ .update 1 node where
  load _ _ := trivial
  make _ := trivial
  render inst frame := by
    show (match inst.factory.key with
      | 0 => _
      | 1 => _
      | _ => _ : Program ⟨Unit, Empty⟩ (Option Markup × Pipe)).Uses _
    split
    · exact ⟨nofun, fun _ => trivial⟩
    · trivial
    · exact ⟨fun node h => (nomatch h), fun _ => trivial⟩
  handle _ _ _ := trivial
  listen _ _ := trivial

end Matryoshka

/-- By itself the second component is rendered: both views are passed through, and the first gives
what the second has left. -/
theorem pass_over_fixed_list_matryoshka :
    Matryoshka.application.Reaches Matryoshka.program (World.start ∅ ()) Matryoshka.packed ∧
      Matryoshka.packed.components.get? 1 = some Matryoshka.second ∧
      ∃ w₁ w₂, (Matryoshka.application.setting 1).Passes Matryoshka.second.metadata.name
          (World.current w₁ 1 Matryoshka.second).node.attrs ∅ Matryoshka.layers.views
          (World.lent w₁ 1) (some (.text "core"), ∅) w₂ ∧
        (((Matryoshka.application.setting 1).perform (.render 1 ∅)).run Matryoshka.packed).map
          Prod.fst = .ok (some (.ok (some (.text "core")), ∅)) := by
  have hv := Application.reaches_of_exec Matryoshka.run_program
  refine ⟨hv, Matryoshka.packed_second, ?_⟩
  obtain ⟨answer, hrun, hrenders, hperform⟩ :=
    pass_over_fixed_list hv Matryoshka.packed_second ∅ 1
  obtain ⟨w, hviews⟩ := Matryoshka.exists_views Matryoshka.viewsOf_packed
  have hprinted := Matryoshka.printed_eq
  unfold Matryoshka.printed at hprinted
  rw [hrun] at hprinted
  cases hrenders with
  | unresolved views =>
    rw [hviews] at views
    cases views
  | empty views nil =>
    rw [hviews] at views
    cases views
    cases nil
  | @passed _ _ w₂ r views some pass =>
    rw [hviews] at views
    cases views
    obtain ⟨hout, hpipe⟩ := Prod.mk.inj (Option.some.inj hprinted)
    obtain ⟨output, left⟩ := r
    cases hout
    cases hpipe
    exact ⟨w, w₂, pass, hperform⟩
  | stoppedBefore views => cases hprinted
  | stoppedWithin views split pass body why => cases hprinted

/-- It is not so that a pass goes through all views as long as no code moves its own component: a
component in whose body it is rendered may be moved. -/
theorem pass_stopped_from_within :
    ¬∀ (κ : Client) (app : Application κ) (prog : Program κ Unit) (memory : κ.Memory)
      (v w : World κ) (i : ComponentId) (c : Component) (pipe : Pipe) (depth : Nat)
      (list : ViewList),
      app.code.Uses (fun op => ∀ node, op ≠ .update i node) →
      app.Reaches prog (World.start ∅ memory) v → v.components.get? i = some c →
      ((app.setting depth).views i c).run (v.pin i) = .ok (.ok list, w) →
      ((app.setting depth).render i c pipe).run (v.pin i) ≠ .error (some .exhausted) →
      ∃ r w', ((app.setting depth).render i c pipe).run (v.pin i) = .ok (r, w') := by
  intro h
  obtain ⟨w, hviews⟩ := Matryoshka.exists_views Matryoshka.viewsOf_opened
  have hstop : ((Matryoshka.application.setting 1).render 1 Matryoshka.second ∅).run
      (Matryoshka.opened.pin 1) = .error (some (.conflict (.node 0))) := Matryoshka.outcome_stop
  obtain ⟨r, w', hrun⟩ := h _ _ _ _ _ _ _ _ ∅ 1 _ Matryoshka.code_uses Matryoshka.reaches_opened
    Matryoshka.opened_second hviews (by rw [hstop]; nofun)
  rw [hstop] at hrun
  cases hrun

end LayeredViews
