import Mathlib.Data.List.Forall2
import LayeredViews.Proofs.Building
import LayeredViews.Proofs.Numbering

/-!
# The views of a lineage

A component type declares what the definers of its layers declare, the most basic layer first. The
views resolved for the declarations of some layers and those of the layers above them are rendered
one list around the other.

* `TypeLayer.declared`: the views that some layers declare; `ComponentType.views_of_build`: those of
  a type that can be built are the ones of all its layers.
* `ResolvedFor`: a view was resolved for a declaration. `Contract.Crafting.resolveViews_for`: what
  is resolved anew is resolved for the declarations, in order.
* `Setting.wrap`: renders views around what was produced before. Rendering two lists is rendering
  the first around what the second produces (`Setting.wrap_append`, `Setting.render_run`).
-/

namespace LayeredViews

variable {κ : Client}

/-! ## Declarations -/

/-- The views that the definers of some layers declare, in the order of the calls. Layers are given
nearest first, definers run most basic first. -/
def TypeLayer.declared (layers : List TypeLayer) : List Declaration :=
  ((layers.filterMap TypeLayer.definer).reverse.flatMap DefinerOf.calls).flatMap Call.views

theorem TypeLayer.declared_append (derived base : List TypeLayer) :
    declared (derived ++ base) = declared base ++ declared derived := by
  simp [declared]

/-- A type that can be built has the views that its layers declare. -/
theorem ComponentType.views_of_build {t : ComponentType} {m : Metadata}
    (h : t.build.result = .ok m) : m.views = TypeLayer.declared t.layers := by
  cases outcome_iff.2 h with
  | built valid last nonempty handled =>
    exact congrArg (List.flatMap Call.views) t.flatMap_chain.symm

/-! ## Resolved views -/

/-- The class was found for the declaration of a view: it is the declared one, or the loader of the
host has answered with it. -/
def Declaration.Found (host : HostId → Host) (h : HostId) (record : List (Occurrence κ)) :
    Declaration → Class → Prop
  | .ofClass cls', cls => cls = cls'
  | .ident s, cls => .answered h ((host h).config.viewPath s) (.ok cls) ∈ record

/-- The view was resolved for the declaration: it is an instance, made as a view, of a class that
was found for it. -/
structure ResolvedFor (host : HostId → Host) (h : HostId) (record : List (Occurrence κ))
    (d : Declaration) (x : ResolvedView) : Prop where
  label : x.label = d.label
  found : ∃ cls, d.Found host h record cls ∧ cls.factory .view = .ok x.inst.factory
  made : .made .view x.inst ∈ record

section

variable {host : HostId → Host} {h : HostId} {record : List (Occurrence κ)}

theorem Declaration.Found.append {d : Declaration} {cls : Class} (hf : d.Found host h record cls)
    (new : List (Occurrence κ)) : d.Found host h (new ++ record) cls := by
  cases d with
  | ofClass cls' => exact hf
  | ident s => exact List.mem_append_right new hf

theorem ResolvedFor.append {d : Declaration} {x : ResolvedView}
    (hx : ResolvedFor host h record d x) (new : List (Occurrence κ)) :
    ResolvedFor host h (new ++ record) d x where
  label := hx.label
  found := hx.found.imp fun _ hf => ⟨hf.1.append new, hf.2⟩
  made := List.mem_append_right new hx.made

theorem ResolvedFor.labels {ds : List Declaration} {views : List ResolvedView}
    (h : List.Forall₂ (ResolvedFor host h record) ds views) :
    views.map ResolvedView.label = ds.map Declaration.label := by
  induction h with
  | nil => rfl
  | cons hx _ ih => rw [List.map_cons, List.map_cons, hx.label, ih]

variable {user : Callbacks (Act κ)}

theorem Setting.wp_classOf_found (h : HostId) (d : Declaration) (w : World κ) :
    (classOf ⟨host, user⟩ h (host h).config.viewPath d).Wp (fun _ => True)
      (fun r w' => ∀ cls, r.1 = .ok cls → d.Found host h w'.record cls) w := by
  cases d with
  | ofClass cls' =>
    intro cls he
    cases he
    rfl
  | ident s =>
    have hload : (load ⟨host, user⟩ h ((host h).config.viewPath s)).Wp (fun _ => True)
        (fun r w' => .answered h ((host h).config.viewPath s) r ∈ w'.record) w :=
      (Act.Wp.any _ w).bind fun _ w₁ _ => (Act.Wp.any _ w₁).bind fun r w₂ _ => List.mem_cons_self
    refine hload.bind fun r w' hr => ?_
    cases r with
    | error e => exact fun _ he => by cases he
    | ok cls =>
      intro cls' he
      cases he
      exact hr

end

namespace Contract

variable {C : Contract κ} {host : HostId → Host} {user : Callbacks (Act κ)}
  (hM : C.Crafting) (hu : C.KeptBy user)
  (hgrow : ∀ {w w'}, C.step w w' → ∃ new, w'.record = new ++ w.record)
include hM hu hgrow

theorem Crafting.instantiate_made (cls : Class) (capability : Capability) :
    C.Yields (Setting.instantiate ⟨host, user⟩ cls capability) fun _ r w' =>
      ∀ inst, r = .ok inst →
        cls.factory capability = .ok inst.factory ∧ .made capability inst ∈ w'.record := by
  intro w hw
  unfold Setting.instantiate
  cases cls.factory capability with
  | error e => exact ⟨⟨hw, C.refl w⟩, fun _ he => by cases he⟩
  | ok factory =>
    unfold Setting.make
    rw [Act.wp_map]
    have hfresh : (Act.freshInstance factory).Wp (fun _ => True)
        (fun inst _ => inst.factory = factory) w := rfl
    refine ((hM.freshInstance factory w hw).and_any hfresh).bind
      fun inst w₁ ⟨⟨hw₁, hstep₁⟩, hfactory⟩ => ?_
    have hkept : C.Kept (Act.record (.made capability inst)) := hM.routine trivial
    have hmade : (Act.record (.made capability inst)).Wp (fun _ => True)
        (fun _ w₂ => .made capability inst ∈ w₂.record) w₁ := List.mem_cons_self
    refine ((hkept w₁ hw₁).and_any hmade).bind
      fun _ w₂ ⟨⟨hw₂, hstep₂⟩, hmem⟩ => ?_
    refine (hu.make inst w₂ hw₂).bind fun _ w₃ ⟨hw₃, hstep₃⟩ => ?_
    refine ⟨⟨hw₃, C.trans hstep₁ (C.trans hstep₂ hstep₃)⟩, fun inst' he => ?_⟩
    cases he
    obtain ⟨new, hr⟩ := hgrow hstep₃
    exact ⟨by rw [hfactory], hr ▸ List.mem_append_right new hmem⟩

/-- Views that are resolved anew are resolved for the declarations, in order. -/
theorem Crafting.resolveViews_for (h : HostId) (model : Option Model) (ds : List Declaration) :
    C.Yields (Setting.resolveViews ⟨host, user⟩ h model ds) fun _ r w' =>
      ∀ views, r.1 = .ok views → List.Forall₂ (ResolvedFor host h w'.record) ds views := by
  induction ds with
  | nil =>
    intro w hw
    refine ⟨⟨hw, C.refl w⟩, fun views he => ?_⟩
    cases he
    exact .nil
  | cons d rest ih =>
    intro w hw
    rw [Setting.resolveViews_cons]
    refine ((hM.classOf hu h _ d w hw).and_any (Setting.wp_classOf_found h d w)).bind
      fun ⟨found, paths⟩ w₁ ⟨⟨hw₁, hstep₁⟩, hfound⟩ => ?_
    cases found with
    | error e => exact ⟨⟨hw₁, hstep₁⟩, fun _ he => by cases he⟩
    | ok cls =>
      refine (hM.instantiate_made hu hgrow cls .view w₁ hw₁).bind
        fun r w₂ ⟨⟨hw₂, hstep₂⟩, hmade⟩ => ?_
      have hstep := C.trans hstep₁ hstep₂
      cases r with
      | error e => exact ⟨⟨hw₂, hstep⟩, fun _ he => by cases he⟩
      | ok inst =>
        refine (ih w₂ hw₂).bind fun ⟨views, more⟩ w₃ ⟨⟨hw₃, hstep₃⟩, hviews⟩ => ?_
        refine ⟨⟨hw₃, C.trans hstep hstep₃⟩, fun all he => ?_⟩
        cases views with
        | error e => cases he
        | ok views =>
          cases he
          obtain ⟨hfactory, hmem⟩ := hmade inst rfl
          obtain ⟨b, hb⟩ := hgrow hstep₂
          obtain ⟨b', hb'⟩ := hgrow hstep₃
          have hx : ResolvedFor host h w₂.record d ⟨d.label, inst, model⟩ :=
            ⟨rfl, ⟨cls, hb ▸ (hfound cls rfl).append b, hfactory⟩, hmem⟩
          exact .cons (hb' ▸ hx.append b') (hviews views rfl)

end Contract

/-! ## Rendering one list around another -/

namespace Setting

variable (env : Setting κ) (component : String) (attrs : Attrs)

/-- Renders views from the last to the first, around what was produced before and on the pipe that
was left. -/
def wrap (inner : Option Markup × Pipe) (views : List ResolvedView) :
    Act κ (Option Markup × Pipe) :=
  views.foldrM (fun v r => env.renderView v component attrs r.2 r.1) inner

@[simp] theorem wrap_nil (inner : Option Markup × Pipe) :
    env.wrap component attrs inner [] = pure inner := rfl

theorem wrap_append (inner : Option Markup × Pipe) (xs ys : List ResolvedView) :
    env.wrap component attrs inner (xs ++ ys) =
      env.wrap component attrs inner ys >>= fun r => env.wrap component attrs r xs :=
  List.foldrM_append

/-- Composing views is rendering them around nothing. -/
theorem compose_eq_wrap (pipe : Pipe) (views : List ResolvedView) :
    env.compose component attrs pipe views = env.wrap component attrs (none, pipe) views := by
  induction views with
  | nil => rfl
  | cons v rest ih =>
    rw [compose, ih]
    exact List.foldrM_cons.symm

/-- Renders two lists of views on behalf of a component: the inner one around nothing, then the
outer one around what the inner one has produced and on the pipe that it has left. -/
def renderAround (id : ComponentId) (c : Component) (pipe : Pipe)
    (outer inner : List ResolvedView) : Act κ (Except Error (Option Markup) × Pipe) :=
  Act.lend (.node id) .read do
    let attrs := ((← get).current id c).node.attrs
    let produced ← env.wrap c.metadata.name attrs (none, pipe) inner
    let (output, pipe) ← env.wrap c.metadata.name attrs produced outer
    return (.ok output, pipe)

/-- Where the views of a component are two lists, one after the other, rendering it is rendering the
first one around what the second one produces. -/
theorem render_run {id : ComponentId} {c : Component} {w w' : World κ} {l : ViewList}
    (hrun : (env.views id c).run w = .ok (.ok l, w')) (hne : l.views ≠ [])
    {outer inner : List ResolvedView} (hl : l.views = outer ++ inner) (pipe : Pipe) :
    (env.render id c pipe).run w = (env.renderAround id c pipe outer inner).run w' := by
  have hempty : l.views.isEmpty = false := List.isEmpty_eq_false_iff.2 hne
  rw [render_eq, StateT.run_bind, hrun]
  change (if l.views.isEmpty = true then _ else _ : Act κ _).run w' = _
  rw [if_neg (by simp [hempty]), hl]
  simp only [renderAround, compose_eq_wrap, wrap_append, bind_assoc]

end Setting

end LayeredViews
