import LayeredViews.Proofs.Anew
import LayeredViews.Proofs.Entries

/-!
# Operations that resolve

In a passive application, the operations that resolve a component give what resolving anew gives, as
long as what is stored for its node is up to date. What they store is up to date as well.

* `World.Clear`: nothing that a resolution needs is in use.
* `Library.Resolving lib h n w w'`: what a resolution for node `n` of host `h` leaves alone.
* `Setting.wp_modelWithSources`, `Setting.wp_views`, `Setting.wp_render`: the operations.
-/

namespace LayeredViews

variable {κ : Client} {α : Type}

/-! ## What resolutions leave alone -/

/-- The use of a part of the world that does not keep components from being resolved. -/
def Aside : Cell × Access → Prop
  | (.entries _, _) => False
  | (.node _, .write) => False
  | _ => True

/-- Neither entries nor, but for reading, nodes are in use. -/
def World.Clear (w : World κ) : Prop := ∀ l ∈ w.loans, Aside l

namespace World

variable {w : World κ}

theorem Clear.node (hw : w.Clear) (c : ComponentId) : w.conflicts (.node c) .read = false := by
  rw [conflicts, List.any_eq_false]
  rintro ⟨cell, access⟩ hl hc
  have ha := hw _ hl
  cases access with
  | read => simp at hc
  | write =>
    have he : cell = .node c := by simpa using hc
    exact (he ▸ ha :)

theorem Clear.entries (hw : w.Clear) (h : HostId) (access : Access) :
    w.conflicts (.entries h) access = false := by
  rw [conflicts, List.any_eq_false]
  rintro ⟨cell, access'⟩ hl hc
  have ha := hw _ hl
  have he : cell = .entries h := by
    simp only [Bool.and_eq_true, beq_iff_eq] at hc
    exact hc.1
  exact (he ▸ ha :)

theorem Clear.lend (hw : w.Clear) {l : Cell × Access} (hl : Aside l) :
    World.Clear { w with loans := l :: w.loans } := fun l' hl' => by
  rcases List.mem_cons.1 hl' with rfl | hl'
  · exact hl
  · exact hw l' hl'

theorem Clear.back (hw : w.Clear) : World.Clear { w with loans := w.loans.tail } :=
  fun l hl => hw l (List.mem_of_mem_tail hl)

theorem Clear.of_loans (hw : w.Clear) {w' : World κ} (h : w'.loans = w.loans) : w'.Clear := by
  rw [Clear, h]
  exact hw

end World

namespace Library

theorem Unmoved.entry {lib : Library κ} {w w' : World κ} (hw : lib.Unmoved w w') (h : HostId)
    (n : NodeId) : w'.entry h n = w.entry h n := by
  unfold World.entry World.cache
  rw [hw.caches]

theorem Unmoved.current {lib : Library κ} {w w' : World κ} (hw : lib.Unmoved w w')
    (id : ComponentId) (c : Component) : w'.current id c = w.current id c := by
  unfold World.current
  rw [hw.components]

/-- Nothing that the invariants of components are about has changed, but for what is stored for one
node. -/
structure Resolving (lib : Library κ) (h : HostId) (n : NodeId) (w w' : World κ) : Prop where
  components : w'.components = w.components
  loans : w'.loans = w.loans
  nextComponent : w'.nextComponent = w.nextComponent
  registry : lib.registry w'.memory = lib.registry w.memory
  tidy : w.Tidy → w'.Tidy
  elsewhere : ∀ h' n', ¬(h' = h ∧ n' = n) → w'.entry h' n' = w.entry h' n'

variable {lib : Library κ} {h : HostId} {n : NodeId} {w w₁ w₂ w₃ : World κ}

theorem Unmoved.resolving (hw : lib.Unmoved w₁ w₂) (h : HostId) (n : NodeId) :
    lib.Resolving h n w₁ w₂ where
  components := hw.components
  loans := hw.loans
  nextComponent := hw.nextComponent
  registry := hw.registry
  tidy ht h' := by
    unfold World.cache
    rw [hw.caches]
    exact ht h'
  elsewhere h' n' _ := hw.entry h' n'

theorem Resolving.trans (hw : lib.Resolving h n w₁ w₂) (hw' : lib.Resolving h n w₂ w₃) :
    lib.Resolving h n w₁ w₃ where
  components := hw'.components.trans hw.components
  loans := hw'.loans.trans hw.loans
  nextComponent := hw'.nextComponent.trans hw.nextComponent
  registry := hw'.registry.trans hw.registry
  tidy ht := hw'.tidy (hw.tidy ht)
  elsewhere h' n' hn := (hw'.elsewhere h' n' hn).trans (hw.elsewhere h' n' hn)

theorem Resolving.answers (hw : lib.Resolving h n w₁ w₂) (host : HostId → Host) :
    lib.answers host w₂.memory = lib.answers host w₁.memory := lib.answers_congr hw.registry host

theorem Resolving.current (hw : lib.Resolving h n w₁ w₂) (id : ComponentId) (c : Component) :
    w₂.current id c = w₁.current id c := by
  unfold World.current
  rw [hw.components]

theorem Resolving.store (e : Entry) :
    lib.Resolving h n w (w.setCache h ((w.cache h).insert n e)) where
  components := rfl
  loans := rfl
  nextComponent := rfl
  registry := rfl
  tidy ht := ht.setCache ((ht h).insert n e)
  elsewhere h' n' hn := by rw [World.entry_setCache_insert, if_neg hn]

end Library

/-- What is stored for the node of a component is up to date. -/
def Library.Fresh (lib : Library κ) (host : HostId → Host) (id : ComponentId) (c : Component)
    (w : World κ) : Prop :=
  (w.entry c.host (w.current id c).node.id).UpToDate c (host c.host).config
    (lib.answers host w.memory c.host)

section

variable {lib : Library κ} {host : HostId → Host} {id : ComponentId} {c : Component}
  {w w' : World κ}

/-- Passive code leaves the entry up to date. -/
theorem Library.Fresh.upToDate (hf : lib.Fresh host id c w) (hw : lib.Unmoved w w') :
    (w'.entry c.host (w.current id c).node.id).UpToDate c (host c.host).config
      (lib.answers host w'.memory c.host) := by
  rw [hw.entry, hw.answers]
  exact hf

theorem Library.Fresh.unmoved (hf : lib.Fresh host id c w) (hw : lib.Unmoved w w') :
    lib.Fresh host id c w' := by
  unfold Fresh
  rw [hw.current]
  exact hf.upToDate hw

/-- After an entry that is up to date has been stored. -/
theorem Library.Fresh.store {e : Entry} {n : NodeId} (hn : (w.current id c).node.id = n)
    (he : e.UpToDate c (host c.host).config (lib.answers host w.memory c.host))
    (record : List (Occurrence κ)) :
    lib.Fresh host id c
        { w.setCache c.host ((w.cache c.host).insert n e) with record } ∧
      lib.Resolving c.host n w { w.setCache c.host ((w.cache c.host).insert n e) with record } := by
  have stored : lib.Resolving c.host n w _ := Resolving.store e
  refine ⟨?_, stored.trans ((Unmoved.recorded lib _ record).resolving _ _)⟩
  have hentry : (w.setCache c.host ((w.cache c.host).insert n e)).entry c.host
      (w.current id c).node.id = e := by
    rw [World.entry_setCache_insert, if_pos ⟨rfl, hn⟩]
  exact (hentry.symm ▸ he :)

end

/-! ## The steps of a resolution -/

namespace Setting

variable {lib : Library κ} {draw : Factory → Frame → Option Markup × Pipe}
  {host : HostId → Host} {user : Callbacks (Act κ)} (hu : lib.Serves draw user)
  (E : Option Halt → Prop)
include hu

theorem wp_load (h : HostId) (path : String) (w : World κ) :
    (load ⟨host, user⟩ h path).Wp E (fun r w' =>
      r = lib.answers host w.memory h path ∧ lib.Unmoved w w') w := by
  unfold load ask
  rw [Act.wp_bind, Act.wp_record]
  have asked := Library.Unmoved.recorded lib w (.loaded h path :: w.record)
  cases hl : (host h).loader with
  | registry classes =>
    refine ⟨?_, ⟨rfl, rfl, rfl, rfl, rfl⟩⟩
    rw [Library.answers, hl]
    rfl
  | code key =>
    refine (hu.load E key path _).bind fun r w' ⟨hr, hw'⟩ => ?_
    refine ⟨?_, asked.trans (hw'.trans (.recorded lib w' _))⟩
    rw [Library.answers, hl]
    exact hr

theorem wp_instantiate (cls : Class) (capability : Capability) (w : World κ) :
    (instantiate ⟨host, user⟩ cls capability).Wp E (fun r w' =>
      r.map Instance.anonymous = cls.instanceAnew capability ∧ lib.Unmoved w w') w := by
  unfold instantiate Class.instanceAnew
  cases cls.factory capability with
  | error e => exact ⟨rfl, .refl lib w⟩
  | ok factory =>
    unfold make
    simp only [Act.wp_map, Act.wp_bind, Act.wp_freshInstance, Act.wp_record, Act.wp_pure]
    have made : lib.Unmoved w { w with
        nextInstance := w.nextInstance + 1
        record := .made capability ⟨w.nextInstance, factory⟩ :: w.record } :=
      ⟨rfl, rfl, rfl, rfl, rfl⟩
    exact (hu.make E _ _).mono fun _ w' hw' => ⟨rfl, made.trans hw'⟩

theorem wp_classOf (h : HostId) (path : String → String) (d : Declaration) (w : World κ) :
    (classOf ⟨host, user⟩ h path d).Wp E (fun r w' =>
      r = (d.classAnew (lib.answers host w.memory h) path, d.paths path) ∧
        lib.Unmoved w w') w := by
  cases d with
  | ofClass cls => exact ⟨rfl, .refl lib w⟩
  | ident s =>
    refine (wp_load hu E h (path s) w).bind fun r w' ⟨hr, hw'⟩ => ?_
    rw [Declaration.classAnew, ← hr]
    cases r with
    | ok cls => exact ⟨rfl, hw'⟩
    | error e => exact ⟨rfl, hw'⟩

theorem wp_makeModel (cls : Class) (w : World κ) :
    (makeModel ⟨host, user⟩ cls).Wp E (fun r w' =>
      r.map Model.anonymous = cls.modelAnew ∧ lib.Unmoved w w') w := by
  unfold makeModel Class.modelAnew
  cases cls.ensure .viewModel with
  | error e => exact ⟨rfl, .refl lib w⟩
  | ok _ =>
    dsimp only
    rw [Act.wp_bind, Act.wp_forM_record]
    have ran := Library.Unmoved.recorded lib w
      ((cls.buildModel.ran.map .defined).reverse ++ w.record)
    cases cls.buildModel.result with
    | error e => exact ⟨rfl, ran⟩
    | ok name =>
      refine (wp_instantiate hu E cls .viewModel _).bind fun made w' ⟨hmade, hw'⟩ => ?_
      rw [← hmade]
      cases made with
      | error e => exact ⟨rfl, ran.trans hw'⟩
      | ok inst => exact ⟨rfl, ran.trans hw'⟩

theorem wp_resolveModel (c : Component) (w : World κ) :
    (resolveModel ⟨host, user⟩ c).Wp E (fun r w' =>
      r.1.map Model.anonymous =
        c.modelAnew (host c.host).config (lib.answers host w.memory c.host) ∧
      r.2 = c.modelPaths (host c.host).config ∧ lib.Unmoved w w') w := by
  refine (wp_classOf hu E c.host (host c.host).config.viewModelPath _ w).bind
    fun ⟨found, paths⟩ w' ⟨hr, hw'⟩ => ?_
  obtain ⟨rfl, rfl⟩ := Prod.mk.inj hr
  unfold Component.modelAnew Component.modelPaths Component.modelDeclaration
  cases (c.metadata.viewModel.getD (.ident c.metadata.name)).classAnew
      (lib.answers host w.memory c.host) (host c.host).config.viewModelPath with
  | error e => exact ⟨rfl, rfl, hw'⟩
  | ok cls =>
    exact (wp_makeModel hu E cls w').bind fun model w'' ⟨hm, hw''⟩ => ⟨hm, rfl, hw'.trans hw''⟩

/-- The paths consulted are those of all declarations unless one of them fails. -/
theorem wp_resolveViews (h : HostId) (model : Option Model) (ds : List Declaration) (w : World κ) :
    (resolveViews ⟨host, user⟩ h model ds).Wp E (fun r w' =>
      r.1.map (List.map ResolvedView.anonymous) =
        viewsAnew (lib.answers host w.memory h) (host h).config.viewPath
          (model.map Model.anonymous) ds ∧
      (∀ views, r.1 = .ok views → r.2 = ds.flatMap (Declaration.paths (host h).config.viewPath)) ∧
      lib.Unmoved w w') w := by
  induction ds generalizing w with
  | nil => exact ⟨rfl, fun _ _ => rfl, .refl lib w⟩
  | cons d rest ih =>
    rw [resolveViews_cons]
    refine (wp_classOf hu E h (host h).config.viewPath d w).bind
      fun ⟨found, paths⟩ w₁ ⟨hr, hw₁⟩ => ?_
    obtain ⟨rfl, rfl⟩ := Prod.mk.inj hr
    cases hclass : d.classAnew (lib.answers host w.memory h) (host h).config.viewPath with
    | error e =>
      refine ⟨?_, (fun _ he => nomatch he), hw₁⟩
      rw [viewsAnew_cons, hclass]
      rfl
    | ok cls =>
      refine (wp_instantiate hu E cls .view w₁).bind fun made w₂ ⟨hmade, hw₂⟩ => ?_
      have hstep := hw₁.trans hw₂
      have hrest := ih w₂
      rw [hstep.answers] at hrest
      cases made with
      | error e =>
        refine ⟨?_, (fun _ he => nomatch he), hstep⟩
        simp only [viewsAnew_cons, hclass, bind, Except.bind, ← hmade, Except.map]
      | ok inst =>
        refine hrest.bind fun ⟨views, more⟩ w₃ ⟨hviews, hpaths, hw₃⟩ => ?_
        dsimp only at hviews hpaths
        cases views with
        | error e =>
          refine ⟨?_, (fun _ he => nomatch he), hstep.trans hw₃⟩
          simp only [viewsAnew_cons, hclass, bind, Except.bind, ← hmade, ← hviews, Except.map]
        | ok l =>
          refine ⟨?_, fun _ _ => ?_, hstep.trans hw₃⟩
          · simp only [viewsAnew_cons, hclass, bind, Except.bind, ← hmade, ← hviews, Except.map]
            rfl
          · rw [hpaths l rfl, List.flatMap_cons]

theorem wp_compose (component : String) (attrs : Attrs) (pipe : Pipe) (views : List ResolvedView)
    (w : World κ) :
    (compose ⟨host, user⟩ component attrs pipe views).Wp E (fun r w' =>
      r = composeAnew draw component attrs pipe (views.map ResolvedView.anonymous) ∧
        lib.Unmoved w w') w := by
  induction views generalizing w with
  | nil => exact ⟨rfl, .refl lib w⟩
  | cons v rest ih =>
    refine (ih w).bind fun ⟨yielded, pipe'⟩ w₁ ⟨hr, hw₁⟩ => ?_
    unfold renderView
    rw [Act.wp_bind, Act.wp_record]
    refine (hu.render E v.inst _ _).mono fun r w₂ ⟨hr', hw₂⟩ => ?_
    have told := Library.Unmoved.recorded lib w₁
      (.rendered v.inst ⟨component, attrs, v.model, pipe', yielded⟩ :: w₁.record)
    refine ⟨?_, hw₁.trans (told.trans hw₂)⟩
    rw [hr', List.map_cons, composeAnew, ← hr]
    rfl

/-! ## The operations -/

variable {id : ComponentId} {c : Component} {w : World κ} (hclear : w.Clear)
  (hfresh : lib.Fresh host id c w)
include hclear hfresh

theorem wp_modelWithSources :
    (modelWithSources ⟨host, user⟩ id c).Wp E (fun r w' =>
      r.1.map Model.anonymous =
        c.modelAnew (host c.host).config (lib.answers host w.memory c.host) ∧
      (∀ p ∈ c.modelPaths (host c.host).config,
        p ∈ r.2 ∨ p ∈ (w'.entry c.host (w.current id c).node.id).sources) ∧
      lib.Fresh host id c w' ∧ lib.Resolving c.host (w.current id c).node.id w w') w := by
  unfold modelWithSources
  rw [Act.wp_bind, Act.wp_nodeOf, if_neg (by simp [hclear.node]), Act.wp_bind, Act.wp_entryOf,
    if_neg (by simp [hclear.entries])]
  cases hm : (w.entry c.host (w.current id c).node.id).model with
  | some m =>
    obtain ⟨hr, hp⟩ := hfresh.model m hm
    have given := Library.Unmoved.recorded lib w
      (.gave c.host (w.current id c).node.id (.model m) :: w.record)
    exact ⟨hr.symm, fun p hp' => .inr (hp p hp'), hfresh.unmoved given, given.resolving _ _⟩
  | none =>
    dsimp only
    rw [Act.wp_bind, Act.wp_record]
    have begun := Library.Unmoved.recorded lib w
      (.resolving c.host (w.current id c).node.id .model :: w.record)
    refine (wp_resolveModel hu E c _).bind fun ⟨model, paths⟩ w₁ ⟨hmodel, hpaths, hw₁⟩ => ?_
    dsimp only at hmodel hpaths
    have hstep := begun.trans hw₁
    cases model with
    | error e =>
      have failed := hstep.trans (.recorded lib w₁
        (.failed c.host (w.current id c).node.id .model :: w₁.record))
      exact ⟨hmodel, fun p hp => .inl (hpaths ▸ hp), hfresh.unmoved failed, failed.resolving _ _⟩
    | ok m =>
      have hfresh₁ := hfresh.upToDate hstep
      have hnode : (w₁.current id c).node.id = (w.current id c).node.id := by rw [hstep.current]
      obtain ⟨hfresh', hstored⟩ := Library.Fresh.store hnode
        (hfresh₁.withModel (by rw [hstep.answers]; exact hmodel.symm) fun p hp => hpaths ▸ hp)
        (.gave c.host (w.current id c).node.id (.model m) ::
          .stored c.host (w.current id c).node.id (.model m) :: w₁.record)
      rw [Act.wp_bind, Act.wp_updateEntry,
        if_neg (by simp [(hclear.of_loans hstep.loans).entries])]
      exact ⟨hmodel, fun p hp => .inl (hpaths ▸ hp), hfresh', (hstep.resolving _ _).trans hstored⟩

/-- The model that views are bound to once the view model is known, or known to be missing. -/
theorem wp_views_resolve (model : Option Model) (paths : List String)
    (hbound : c.boundAnew (host c.host).config (lib.answers host w.memory c.host) =
      .ok (model.map Model.anonymous))
    (hpaths : ∀ p ∈ c.modelPaths (host c.host).config,
      p ∈ paths ∨ p ∈ (w.entry c.host (w.current id c).node.id).sources) :
    (views.resolve ⟨host, user⟩ c (w.current id c).node.id model paths).Wp E (fun r w' =>
      (r.map fun l => l.views.map ResolvedView.anonymous) =
        c.viewsAnew (host c.host).config (lib.answers host w.memory c.host) ∧
      lib.Fresh host id c w' ∧ lib.Resolving c.host (w.current id c).node.id w w') w := by
  refine (wp_resolveViews hu E c.host model (c.declarations (host c.host).config) w).bind
    fun ⟨resolved, more⟩ w₁ ⟨hviews, hmore, hw₁⟩ => ?_
  dsimp only at hviews hmore
  have hresult : c.viewsAnew (host c.host).config (lib.answers host w.memory c.host) =
      resolved.map (List.map ResolvedView.anonymous) := by
    rw [hviews, Component.viewsAnew, hbound]
    rfl
  cases resolved with
  | error e =>
    have failed := hw₁.trans (.recorded lib w₁
      (.failed c.host (w.current id c).node.id .views :: w₁.record))
    exact ⟨hresult.symm, hfresh.unmoved failed, failed.resolving _ _⟩
  | ok list =>
    have listed : lib.Unmoved w { w₁ with nextList := w₁.nextList + 1 } :=
      hw₁.trans ⟨rfl, rfl, rfl, rfl, rfl⟩
    dsimp only
    rw [Act.wp_bind, Act.wp_freshList, Act.wp_bind, Act.wp_updateEntry,
      if_neg (by simp [(hclear.of_loans listed.loans).entries])]
    have hfresh₁ := hfresh.upToDate hw₁
    have hnode : (World.current { w₁ with nextList := w₁.nextList + 1 } id c).node.id =
        (w.current id c).node.id := by rw [listed.current]
    have hsources : ∀ p ∈ c.modelPaths (host c.host).config, p ∈ paths ++ more ∨
        p ∈ (w₁.entry c.host (w.current id c).node.id).sources := fun p hp => by
      rw [hw₁.entry]
      exact (hpaths p hp).imp_left (List.mem_append_left _)
    obtain ⟨hfresh', hstored⟩ := Library.Fresh.store hnode
      (hfresh₁.withViews (l := ⟨w₁.nextList, list⟩) (by rw [hw₁.answers]; exact hresult) hsources
        fun p hp => List.mem_append_right _ (hmore list rfl ▸ hp))
      (.gave c.host (w.current id c).node.id (.views ⟨w₁.nextList, list⟩) ::
        .stored c.host (w.current id c).node.id (.views ⟨w₁.nextList, list⟩) :: w₁.record)
    exact ⟨hresult.symm, hfresh', (listed.resolving _ _).trans hstored⟩

theorem wp_views :
    (views ⟨host, user⟩ id c).Wp E (fun r w' =>
      (r.map fun l => l.views.map ResolvedView.anonymous) =
        c.viewsAnew (host c.host).config (lib.answers host w.memory c.host) ∧
      lib.Fresh host id c w' ∧ lib.Resolving c.host (w.current id c).node.id w w') w := by
  rw [views_eq]
  rw [Act.wp_bind, Act.wp_nodeOf, if_neg (by simp [hclear.node]), Act.wp_bind, Act.wp_entryOf,
    if_neg (by simp [hclear.entries])]
  cases hl : (w.entry c.host (w.current id c).node.id).views with
  | some l =>
    have given := Library.Unmoved.recorded lib w
      (.gave c.host (w.current id c).node.id (.views l) :: w.record)
    exact ⟨(hfresh.views l hl).1.symm, hfresh.unmoved given, given.resolving _ _⟩
  | none =>
    dsimp only
    rw [Act.wp_bind, Act.wp_record]
    have begun := Library.Unmoved.recorded lib w
      (.resolving c.host (w.current id c).node.id .views :: w.record)
    refine (wp_modelWithSources hu E (hclear.of_loans begun.loans) (hfresh.unmoved begun)).bind
      fun ⟨model, paths⟩ w₁ ⟨hmodel, hpaths, hfresh₁, hw₁⟩ => ?_
    dsimp only at hmodel hpaths
    have hstep : lib.Resolving c.host (w.current id c).node.id w w₁ :=
      (begun.resolving _ _).trans hw₁
    -- What the views are bound to is settled by the model; the rest starts from `w₁`.
    have hrest : ∀ model', c.boundAnew (host c.host).config (lib.answers host w.memory c.host) =
          .ok (model'.map Model.anonymous) →
        (views.resolve ⟨host, user⟩ c (w.current id c).node.id model' paths).Wp E (fun r w' =>
          (r.map fun l => l.views.map ResolvedView.anonymous) =
            c.viewsAnew (host c.host).config (lib.answers host w.memory c.host) ∧
          lib.Fresh host id c w' ∧ lib.Resolving c.host (w.current id c).node.id w w') w₁ := by
      intro model' hbound
      have hresolve := wp_views_resolve hu E (hclear.of_loans hstep.loans) hfresh₁ model' paths
      rw [hstep.answers, hstep.current] at hresolve
      exact (hresolve hbound hpaths).mono fun r w' ⟨hr, hfresh', hw'⟩ =>
        ⟨hr, hfresh', hstep.trans hw'⟩
    cases model with
    | ok m => exact hrest (some m) (by rw [Component.boundAnew, ← hmodel]; rfl)
    | error e =>
      dsimp only
      rw [Act.wp_ite]
      split
      · next he => exact hrest none (by rw [Component.boundAnew, ← hmodel]; exact if_pos he)
      · next he =>
        have failed := (Library.Unmoved.recorded lib w₁
          (.failed c.host (w.current id c).node.id .views :: w₁.record))
        refine ⟨?_, hfresh₁.unmoved failed, hstep.trans (failed.resolving _ _)⟩
        rw [Component.viewsAnew, Component.boundAnew, ← hmodel]
        simp [Except.map, he, bind, Except.bind]

theorem wp_render (pipe : Pipe) :
    (render ⟨host, user⟩ id c pipe).Wp E (fun r w' =>
      r = c.renderAnew (host c.host).config (lib.answers host w.memory c.host) draw
        (w.current id c).node.attrs pipe ∧
      lib.Fresh host id c w' ∧ lib.Resolving c.host (w.current id c).node.id w w') w := by
  rw [render_eq]
  refine (wp_views hu E hclear hfresh).bind fun found w₁ ⟨hviews, hfresh₁, hw₁⟩ => ?_
  unfold Component.renderAnew
  rw [← hviews]
  cases found with
  | error e => exact ⟨rfl, hfresh₁, hw₁⟩
  | ok list =>
    have hempty : (list.views.map ResolvedView.anonymous).isEmpty = list.views.isEmpty :=
      List.isEmpty_map
    unfold render.composeAll
    simp only [Except.map, hempty]
    cases list.views.isEmpty with
    | true =>
      simp only [if_true]
      split
      · exact ⟨rfl, hfresh₁, hw₁⟩
      · exact ⟨rfl, hfresh₁, hw₁⟩
    | false =>
      have hclear₁ := hclear.of_loans hw₁.loans
      simp only [Bool.false_eq_true, if_false]
      rw [Act.wp_lend, if_neg (by simp [hclear₁.node]), Act.wp_bind, Act.wp_get]
      have hattrs : (w₁.current id c).node.attrs = (w.current id c).node.attrs := by
        rw [hw₁.current]
      refine (wp_compose hu E c.metadata.name (w₁.current id c).node.attrs pipe list.views
        { w₁ with loans := (.node id, .read) :: w₁.loans }).bind
        fun ⟨output, pipe'⟩ w₂ ⟨hr, hw₂⟩ => ?_
      have returned : lib.Unmoved w₁ { w₂ with loans := w₂.loans.tail } :=
        ⟨hw₂.caches, hw₂.components, by rw [hw₂.loans, List.tail_cons], hw₂.nextComponent,
          hw₂.registry⟩
      rw [hattrs] at hr
      refine ⟨?_, hfresh₁.unmoved returned, hw₁.trans (returned.resolving _ _)⟩
      simp only [← hr]

end Setting

end LayeredViews
