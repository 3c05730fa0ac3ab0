import LayeredViews.Proofs.Course
import LayeredViews.Proofs.Silence

/-!
# Undisturbed resolutions

Where loaders and factories call no operations, a resolution takes its course: nothing else happens
than what it does, in its order.

* `World.Wrought trace w w'`: between the two worlds `trace` was done, and nothing else but what the
  cache makes of it; `World.Fetched`: the entries are as before as well.
* `Setting.wp_resolveModel_course`, `Setting.wp_resolveViews_course`: one lemma for each function of
  the resolution, with its course.
* `Setting.wp_model_course`, `Setting.wp_views_course`: the course of an access, and what the node
  has gained where it fails.
* `views_course`: the same for an operation in a world that a run comes to.
-/

namespace LayeredViews

variable {κ : Client} {α : Type}

/-! ## What was done -/

/-- It says what was done; the other occurrences say what the cache makes of it, or are notes. -/
def Occurrence.works : Occurrence κ → Bool
  | .resolving .. | .stored .. | .failed .. | .gave .. | .noted _ => false
  | _ => true

namespace World

/-- From `w` to `w'` the trace was done, first to last, and nothing else: only entries, the memory
of the application, and the numbers of instances and lists are different. -/
structure Wrought (trace : List (Occurrence κ)) (w w' : World κ) : Prop where
  frame : w' = { w with
    caches := w'.caches, nextInstance := w'.nextInstance, nextList := w'.nextList,
    record := w'.record, memory := w'.memory }
  record : ∃ new, w'.record = new ++ w.record ∧ (new.filter Occurrence.works).reverse = trace
  instances : w'.nextInstance = w.nextInstance + (madeIn trace).length

/-- Moreover the entries are as before. -/
structure Fetched (trace : List (Occurrence κ)) (w w' : World κ) : Prop
    extends w.Wrought trace w' where
  caches : w'.caches = w.caches

variable {trace more : List (Occurrence κ)} {w w' w'' : World κ}

theorem cache_congr (h : w'.caches = w.caches) (x : HostId) : w'.cache x = w.cache x := by
  rw [cache, cache, h]

theorem entry_congr (h : w'.caches = w.caches) (x : HostId) (n : NodeId) :
    w'.entry x n = w.entry x n := by
  rw [entry, entry, cache_congr h]

namespace Wrought

theorem components (h : w.Wrought trace w') : w'.components = w.components :=
  (congrArg World.components h.frame).trans rfl

theorem handles (h : w.Wrought trace w') : w'.handles = w.handles :=
  (congrArg World.handles h.frame).trans rfl

theorem pins (h : w.Wrought trace w') : w'.pins = w.pins := (congrArg World.pins h.frame).trans rfl

theorem loans (h : w.Wrought trace w') : w'.loans = w.loans :=
  (congrArg World.loans h.frame).trans rfl

theorem ofNode (h : w.Wrought trace w') (hl : ∀ l ∈ w.loans, OfNode l) :
    ∀ l ∈ w'.loans, OfNode l := h.loans ▸ hl

theorem trans (h : w.Wrought trace w') (h' : w'.Wrought more w'') :
    w.Wrought (trace ++ more) w'' where
  frame := by rw [h'.frame, h.frame]
  record := by
    obtain ⟨new, hr, ht⟩ := h.record
    obtain ⟨new', hr', ht'⟩ := h'.record
    exact ⟨new' ++ new, by rw [hr', hr, List.append_assoc], by simp [← ht, ← ht']⟩
  instances := by rw [h'.instances, h.instances, madeIn_append, List.length_append, Nat.add_assoc]

/-- Something that does nothing in this sense. -/
theorem quiet (new : List (Occurrence κ)) (hn : ∀ o ∈ new, o.works = false)
    (hframe : w' = { w with
      caches := w'.caches, nextList := w'.nextList, record := new ++ w.record,
      memory := w'.memory }) : w.Wrought [] w' where
  frame := by rw [hframe]
  record := by
    refine ⟨new, congrArg World.record hframe, ?_⟩
    rw [List.filter_eq_nil_iff.2 fun o ho => by simp [hn o ho], List.reverse_nil]
  instances := (congrArg World.nextInstance hframe).trans rfl

/-- What is done stays the same if nothing is done after it. -/
theorem andThen (h : w.Wrought trace w') (new : List (Occurrence κ))
    (hn : ∀ o ∈ new, o.works = false) (hframe : w'' = { w' with
      caches := w''.caches, nextList := w''.nextList, record := new ++ w'.record,
      memory := w''.memory }) : w.Wrought trace w'' :=
  List.append_nil trace ▸ h.trans (.quiet new hn hframe)

/-- Pinning a component and letting it go are not seen from outside. -/
theorem unpin {i : ComponentId} (h : (w.pin i).Wrought trace w') :
    w.Wrought trace w'.unpin where
  frame := by
    rw [h.frame]
    rfl
  record := h.record
  instances := h.instances

end Wrought

namespace Fetched

theorem refl (w : World κ) : w.Fetched [] w := ⟨⟨rfl, ⟨[], rfl, rfl⟩, rfl⟩, rfl⟩

theorem trans (h : w.Fetched trace w') (h' : w'.Fetched more w'') :
    w.Fetched (trace ++ more) w'' :=
  ⟨h.toWrought.trans h'.toWrought, h'.caches.trans h.caches⟩

theorem noted (h : w.Noted w') : w.Fetched [] w' := by
  obtain ⟨notes, hv⟩ := h
  refine ⟨.quiet (notes.map .noted) (fun o ho => ?_) (by rw [hv]),
    (congrArg World.caches hv).trans rfl⟩
  obtain ⟨n, -, rfl⟩ := List.mem_map.1 ho
  rfl

/-- Something is done that makes no instance. -/
theorem did (w : World κ) {o : Occurrence κ} (ho : o.works = true) (hm : madeIn [o] = []) :
    w.Fetched [o] { w with record := o :: w.record } :=
  ⟨⟨rfl, ⟨[o], rfl, by simp [ho]⟩, by rw [hm]; rfl⟩, rfl⟩

/-- Definers are run. -/
theorem defined (w : World κ) (ran : List String) :
    w.Fetched (ran.map .defined)
      { w with record := (ran.map .defined).reverse ++ w.record } := by
  refine ⟨⟨rfl, ⟨_, rfl, ?_⟩, by rw [madeIn_defined]; rfl⟩, rfl⟩
  rw [List.filter_eq_self.2, List.reverse_reverse]
  intro o ho
  obtain ⟨owner, -, rfl⟩ := List.mem_map.1 (List.mem_reverse.1 ho)
  rfl

/-- An instance is made. -/
theorem made (w : World κ) (capability : Capability) (factory : Factory) :
    w.Fetched [.made capability ⟨w.nextInstance, factory⟩]
      { w with
        nextInstance := w.nextInstance + 1
        record := .made capability ⟨w.nextInstance, factory⟩ :: w.record } :=
  ⟨⟨rfl, ⟨[_], rfl, rfl⟩, rfl⟩, rfl⟩

end Fetched

/-- The entries after a node has gained a view model by way of `paths`. -/
def gaining (w : World κ) (h : HostId) (n : NodeId) (paths : List String) :
    Option Model → Dict HostId Cache
  | none => w.caches
  | some m => w.caches.insert h ((w.cache h).insert n ((w.entry h n).withModel m paths))

end World

namespace Component

variable (c : Component) (host : Host) (n : NodeId) (w : World κ)

/-- How an access to the view model of a component ends. A failure leaves the entries as they
were. -/
def ModelEnd (r : Except Error Model) (w' : World κ) : Prop :=
  ∃ trace, w.Wrought trace w' ∧ ∀ e, r = .error e →
    c.ModelCourse host w.nextInstance trace (.error e) ∧ w'.caches = w.caches

/-- How an access to its views ends, with node `n`. Views that are stored are given, others are
resolved. Where that fails, the node has gained at most a view model. -/
def ViewsEnd (r : Except Error ViewList) (w' : World κ) : Prop :=
  match (w.entry c.host n).views with
  | some list => r = .ok list ∧ w.Wrought [] w'
  | none => ∃ gained trace,
      c.Course host w.nextInstance (w.entry c.host n).model gained trace
        (r.map ViewList.views) ∧
      w.Wrought trace w' ∧
      ∀ e, r = .error e → w'.caches = w.gaining c.host n (c.modelPaths host.config) gained

variable {c host n w} {i : ComponentId} {w' : World κ}

theorem ModelEnd.unpin {r : Except Error Model} (h : c.ModelEnd host (w.pin i) r w') :
    w'.handles = w.handles ∧ w'.pins = i :: w.pins ∧ c.ModelEnd host w r w'.unpin := by
  obtain ⟨trace, hwrought, hend⟩ := h
  exact ⟨hwrought.handles, hwrought.pins, trace, hwrought.unpin, hend⟩

theorem ViewsEnd.unpin {r : Except Error ViewList} (h : c.ViewsEnd host n (w.pin i) r w') :
    w'.handles = w.handles ∧ w'.pins = i :: w.pins ∧ c.ViewsEnd host n w r w'.unpin := by
  unfold ViewsEnd at h ⊢
  have hentry : (w.pin i).entry c.host n = w.entry c.host n := rfl
  rw [hentry] at h
  cases hv : (w.entry c.host n).views with
  | some list =>
    rw [hv] at h
    exact ⟨h.2.handles, h.2.pins, h.1, h.2.unpin⟩
  | none =>
    rw [hv] at h
    obtain ⟨gained, trace, hcourse, hwrought, hcaches⟩ := h
    exact ⟨hwrought.handles, hwrought.pins, gained, trace, hcourse, hwrought.unpin, hcaches⟩

end Component

/-- Looking for a class makes no instance. -/
theorem Declaration.Looked.nextInstance {h : HostId} {loader : Loader} {path : String → String}
    {d : Declaration} {trace : List (Occurrence κ)} {r : Except LoadError Class} {w w' : World κ}
    (hl : d.Looked h loader path trace r) (hw : w.Fetched trace w') :
    w'.nextInstance = w.nextInstance := by
  rw [hw.instances, hl.makes]
  rfl

/-! ## The functions of a resolution -/

namespace Setting

variable {E : Option Halt → Prop} {env : Setting κ} (hu : env.user.Silent E)
include hu

theorem wp_load_course (h : HostId) (path : String) (w : World κ) :
    (env.load h path).Wp E (fun r w' => (env.host h).loader.MayAnswer path r ∧
      w.Fetched [.loaded h path, .answered h path r] w') w := by
  have hask : ∀ w : World κ, (env.ask (env.host h).loader path).Wp E
      (fun r w' => (env.host h).loader.MayAnswer path r ∧ w.Fetched [] w') w := by
    intro w
    cases (env.host h).loader with
    | registry classes => exact ⟨fun _ he => by cases he; rfl, .refl w⟩
    | code key => exact (hu.load key path w).mono fun _ _ hn => ⟨nofun, .noted hn⟩
  unfold load
  rw [Act.wp_bind, Act.wp_record]
  have hloaded := World.Fetched.did w (o := .loaded h path) rfl rfl
  refine (hask _).bind fun r w₁ ⟨hr, h₁⟩ => ⟨hr, ?_⟩
  exact (hloaded.trans h₁).trans (.did w₁ (o := .answered h path r) rfl rfl)

theorem wp_instantiate_course (cls : Class) (capability : Capability) (w : World κ) :
    (env.instantiate cls capability).Wp E (fun r w' =>
      (∃ factory, cls.factory capability = .ok factory ∧ r = .ok ⟨w.nextInstance, factory⟩ ∧
        w.Fetched [.made capability ⟨w.nextInstance, factory⟩] w') ∨
      cls.satisfies capability = false ∧ r = .error (.typeMismatch cls.name capability) ∧
        w' = w) w := by
  unfold instantiate
  cases hfactory : cls.factory capability with
  | error e =>
    obtain ⟨hlacks, rfl⟩ := Class.factory_eq_error_iff.1 hfactory
    exact .inr ⟨hlacks, rfl, rfl⟩
  | ok factory =>
    rw [Act.wp_map]
    unfold make
    rw [Act.wp_bind, Act.wp_freshInstance, Act.wp_bind, Act.wp_record]
    refine (hu.make _ _).bind fun _ w₁ hn => .inl ⟨factory, rfl, rfl, ?_⟩
    exact (World.Fetched.made w capability factory).trans (.noted hn)

theorem wp_classOf_course (h : HostId) (path : String → String) (d : Declaration) (w : World κ) :
    (env.classOf h path d).Wp E (fun r w' => r.2 = d.paths path ∧ ∃ trace found,
      d.Looked h (env.host h).loader path trace found ∧ r.1 = found.mapError .resolution ∧
        w.Fetched trace w') w := by
  cases d with
  | ofClass cls => exact ⟨rfl, [], .ok cls, .given cls, rfl, .refl w⟩
  | ident s =>
    refine (wp_load_course hu h (path s) w).bind fun found w₁ ⟨hanswer, h₁⟩ => ?_
    cases found with
    | ok cls => exact ⟨rfl, _, _, .answered s hanswer, rfl, h₁⟩
    | error e => exact ⟨rfl, _, _, .answered s hanswer, rfl, h₁⟩

/-- A view model is made of a class that was found. -/
theorem wp_makeModel_course (c : Component) (cls : Class) (w : World κ) :
    (env.makeModel cls).Wp E (fun r w' => ∃ more, w.Fetched more w' ∧ ∀ look,
      c.modelDeclaration.Looked c.host (env.host c.host).loader
        (env.host c.host).config.viewModelPath look (.ok cls) →
      c.ModelCourse (env.host c.host) w.nextInstance (look ++ more) r) w := by
  unfold makeModel
  cases hensure : cls.ensure .viewModel with
  | error e =>
    obtain ⟨hlacks, rfl⟩ := Class.ensure_eq_error_iff.1 hensure
    exact ⟨[], .refl w, fun look hlook => by rw [List.append_nil]; exact .unfit hlook hlacks⟩
  | ok _ =>
    have hfits : cls.satisfies .viewModel = true := by
      cases hs : cls.satisfies .viewModel with
      | true => rfl
      | false => cases hensure.symm.trans (Class.ensure_eq_error_iff.2 ⟨hs, rfl⟩)
    dsimp only
    rw [Act.wp_bind, Act.wp_forM_record]
    have hran := World.Fetched.defined w cls.buildModel.ran
    cases hname : cls.buildModel.result with
    | error e =>
      obtain ⟨-, e', rfl⟩ := Class.buildModel_error hname
      exact ⟨_, hran, fun look hlook => .unnamed hlook hfits hname⟩
    | ok name =>
      refine (wp_instantiate_course hu cls .viewModel _).bind fun made w₁ hmade => ?_
      rcases hmade with ⟨factory, hfactory, rfl, h₁⟩ | ⟨hlacks, -⟩
      · refine ⟨_, hran.trans h₁, fun look hlook => ?_⟩
        rw [← List.append_assoc]
        exact .made hlook hfits hname hfactory
      · cases hfits.symm.trans hlacks

theorem wp_resolveModel_course (c : Component) (w : World κ) :
    (env.resolveModel c).Wp E (fun r w' => r.2 = c.modelPaths (env.host c.host).config ∧
      ∃ trace, c.ModelCourse (env.host c.host) w.nextInstance trace r.1 ∧
        w.Fetched trace w') w := by
  refine (wp_classOf_course hu c.host _ c.modelDeclaration w).bind
    fun ⟨found, paths⟩ w₁ ⟨hpaths, look, r, hlook, hfound, h₁⟩ => ?_
  dsimp only at hpaths hfound
  subst hpaths hfound
  cases r with
  | error e => exact ⟨rfl, look, .unloaded hlook, h₁⟩
  | ok cls =>
    have hnext : w₁.nextInstance = w.nextInstance := hlook.nextInstance h₁
    refine (wp_makeModel_course hu c cls w₁).bind fun model w₂ ⟨more, h₂, hcourse⟩ => ?_
    exact ⟨rfl, look ++ more, hnext ▸ hcourse look hlook, h₁.trans h₂⟩

theorem wp_resolveViews_course (h : HostId) (model : Option Model) (ds : List Declaration)
    (w : World κ) :
    (env.resolveViews h model ds).Wp E (fun r w' =>
      ∃ trace, ViewCourse h (env.host h) model w.nextInstance ds trace r.1 ∧
        w.Fetched trace w') w := by
  induction ds generalizing w with
  | nil => exact ⟨[], .done, .refl w⟩
  | cons d rest ih =>
    rw [resolveViews_cons]
    refine (wp_classOf_course hu h _ d w).bind
      fun ⟨found, paths⟩ w₁ ⟨_, look, r, hlook, hfound, h₁⟩ => ?_
    dsimp only at hfound
    subst hfound
    cases r with
    | error e => exact ⟨look, .unloaded hlook, h₁⟩
    | ok cls =>
      have hnext : w₁.nextInstance = w.nextInstance := hlook.nextInstance h₁
      refine (wp_instantiate_course hu cls .view w₁).bind fun made w₂ hmade => ?_
      rcases hmade with ⟨factory, hfactory, rfl, h₂⟩ | ⟨hlacks, rfl, rfl⟩
      · refine (ih w₂).bind fun ⟨views, more⟩ w₃ ⟨trace, hviews, h₃⟩ => ?_
        rw [hnext] at h₂ ⊢
        have hnext₂ : w₂.nextInstance = w.nextInstance + 1 := by
          rw [h₂.instances, hnext]
          rfl
        rw [hnext₂] at hviews
        exact ⟨_, .made hlook hfactory hviews, h₁.trans (h₂.trans h₃)⟩
      · exact ⟨look, .unfit hlook hlacks, h₁⟩

/-- The view model that is stored is given. If none is, one is resolved, and the node gains it. -/
theorem wp_modelWithSources_course (id : ComponentId) (c : Component) {w : World κ}
    (hl : ∀ l ∈ w.loans, OfNode l) {n : NodeId} (hn : (w.current id c).node.id = n) :
    (env.modelWithSources id c).Wp E (fun r w' =>
      match (w.entry c.host n).model with
      | some m => r.1 = .ok m ∧ w.Fetched [] w'
      | none => ∃ trace, c.ModelCourse (env.host c.host) w.nextInstance trace r.1 ∧
          w.Wrought trace w' ∧
          w'.caches = w.gaining c.host n (c.modelPaths (env.host c.host).config)
            r.1.toOption) w := by
  unfold modelWithSources
  rw [Act.wp_bind, Act.wp_nodeOf, World.free_of_read hl, if_neg Bool.false_ne_true, Act.wp_bind,
    Act.wp_entryOf, World.free_of_read hl, if_neg Bool.false_ne_true, hn]
  cases hm : (w.entry c.host n).model with
  | some m =>
    exact ⟨rfl, .quiet [.gave c.host n (.model m)] (by simp [Occurrence.works]) rfl, rfl⟩
  | none =>
    dsimp only
    rw [Act.wp_bind, Act.wp_record]
    have hbegin : w.Wrought [] { w with record := .resolving c.host n .model :: w.record } :=
      .quiet [.resolving c.host n .model] (by simp [Occurrence.works]) rfl
    refine (wp_resolveModel_course hu c _).bind
      fun ⟨model, paths⟩ w₁ ⟨hpaths, trace, hcourse, h₁⟩ => ?_
    dsimp only at hpaths
    subst hpaths
    have hso := hbegin.trans h₁.toWrought
    cases model with
    | error e =>
      exact ⟨trace, hcourse, hso.andThen [_] (by simp [Occurrence.works]) rfl, h₁.caches⟩
    | ok m =>
      dsimp only
      rw [Act.wp_bind, Act.wp_updateEntry, free_entries (hso.ofNode hl),
        if_neg Bool.false_ne_true]
      refine ⟨trace, hcourse, hso.andThen [_, _] (by simp [Occurrence.works]) rfl, ?_⟩
      show w₁.caches.insert c.host ((w₁.cache c.host).insert n
        ((w₁.entry c.host n).withModel m _)) = _
      rw [World.cache_congr h₁.caches, World.entry_congr h₁.caches, h₁.caches]
      rfl

theorem wp_model_course (id : ComponentId) (c : Component) {w : World κ}
    (hl : ∀ l ∈ w.loans, OfNode l) :
    (env.model id c).Wp E (c.ModelEnd (env.host c.host) w) w := by
  refine (wp_modelWithSources_course hu id c hl rfl).bind fun ⟨model, paths⟩ w₁ h₁ => ?_
  cases hm : (w.entry c.host (w.current id c).node.id).model with
  | some m =>
    rw [hm] at h₁
    exact ⟨[], h₁.2.toWrought, fun e he => by cases h₁.1.symm.trans he⟩
  | none =>
    rw [hm] at h₁
    obtain ⟨trace, hcourse, hwrought, hcaches⟩ := h₁
    refine ⟨trace, hwrought, fun e he => ?_⟩
    change model = .error e at he
    subst he
    exact ⟨hcourse, hcaches⟩

/-- The last part of an access to views. -/
theorem wp_views_resolve_course (c : Component) (n : NodeId) (model : Option Model)
    (paths : List String) {w : World κ} (hl : ∀ l ∈ w.loans, OfNode l) :
    (views.resolve env c n model paths).Wp E (fun r w' => ∃ trace,
      ViewCourse c.host (env.host c.host) model w.nextInstance
        (c.declarations (env.host c.host).config) trace (r.map ViewList.views) ∧
      w.Wrought trace w' ∧ ∀ e, r = .error e → w'.caches = w.caches) w := by
  unfold views.resolve
  refine (wp_resolveViews_course hu c.host model _ w).bind
    fun ⟨resolved, more⟩ w₁ ⟨trace, hviews, h₁⟩ => ?_
  cases resolved with
  | error e =>
    exact ⟨trace, hviews, h₁.andThen [_] (by simp [Occurrence.works]) rfl,
      fun _ _ => h₁.caches⟩
  | ok list =>
    dsimp only
    rw [Act.wp_bind, Act.wp_freshList, Act.wp_bind, Act.wp_updateEntry,
      free_entries (w := { w₁ with nextList := w₁.nextList + 1 }) (h₁.ofNode hl),
      if_neg Bool.false_ne_true]
    exact ⟨trace, hviews, h₁.andThen [_, _] (by simp [Occurrence.works]) rfl, nofun⟩

/-- Once the node has gained a view model or none, the views are resolved, and that is the rest of
the course. -/
theorem wp_views_rest_course {c : Component} {n : NodeId} {stored gained model : Option Model}
    {first : List (Occurrence κ)} {w w₁ : World κ} (hl : ∀ l ∈ w.loans, OfNode l)
    (h₁ : w.Wrought first w₁) (hcaches₁ : w₁.caches =
      w.gaining c.host n (c.modelPaths (env.host c.host).config) gained)
    (hcourse : ∀ {more r}, ViewCourse c.host (env.host c.host) model
        (w.nextInstance + (madeIn first).length) (c.declarations (env.host c.host).config) more r →
      c.Course (env.host c.host) w.nextInstance stored gained (first ++ more) r)
    (paths : List String) :
    (views.resolve env c n model paths).Wp E (fun r w' => ∃ gained trace,
      c.Course (env.host c.host) w.nextInstance stored gained trace (r.map ViewList.views) ∧
      w.Wrought trace w' ∧ ∀ e, r = .error e → w'.caches =
        w.gaining c.host n (c.modelPaths (env.host c.host).config) gained) w₁ := by
  refine (wp_views_resolve_course hu c n model paths (h₁.ofNode hl)).mono
    fun r w₂ ⟨more, hviews, h₂, hcaches⟩ => ⟨gained, first ++ more, ?_, h₁.trans h₂,
      fun e he => (hcaches e he).trans hcaches₁⟩
  rw [h₁.instances] at hviews
  exact hcourse hviews

theorem wp_views_course (id : ComponentId) (c : Component) {w : World κ}
    (hl : ∀ l ∈ w.loans, OfNode l) {n : NodeId} (hn : (w.current id c).node.id = n) :
    (env.views id c).Wp E (c.ViewsEnd (env.host c.host) n w) w := by
  unfold Component.ViewsEnd
  rw [views_eq, Act.wp_bind, Act.wp_nodeOf, World.free_of_read hl, if_neg Bool.false_ne_true, Act.wp_bind,
    Act.wp_entryOf, World.free_of_read hl, if_neg Bool.false_ne_true, hn]
  cases hv : (w.entry c.host n).views with
  | some list =>
    exact ⟨rfl, .quiet [.gave c.host n (.views list)] (by simp [Occurrence.works]) rfl⟩
  | none =>
    dsimp only
    rw [Act.wp_bind, Act.wp_record]
    generalize hbegun : ({ w with record := .resolving c.host n .views :: w.record } : World κ) =
      w₀
    have hbegin : w.Wrought [] w₀ := hbegun ▸
      .quiet [.resolving c.host n .views] (by simp [Occurrence.works]) rfl
    have hn₀ : (w₀.current id c).node.id = n := by rw [← hbegun]; exact hn
    have hentry : w₀.entry c.host n = w.entry c.host n := by rw [← hbegun]; rfl
    have hnext₀ : w₀.nextInstance = w.nextInstance := hbegin.instances
    have hgaining : w₀.gaining c.host n = w.gaining c.host n := by rw [← hbegun]; rfl
    refine (wp_modelWithSources_course hu id c (hbegin.ofNode hl) hn₀).bind
      fun ⟨model, paths⟩ w₁ h₁ => ?_
    rw [hentry] at h₁
    cases hm : (w.entry c.host n).model with
    | some m =>
      rw [hm] at h₁
      obtain ⟨hmodel, h₁⟩ := h₁
      dsimp only at hmodel
      subst hmodel
      have hcaches₁ : w₁.caches =
          w.gaining c.host n (c.modelPaths (env.host c.host).config) none := by
        rw [h₁.caches, ← hbegun]
        rfl
      exact wp_views_rest_course hu hl (hbegin.trans h₁.toWrought) hcaches₁
        (fun hviews => .stored hviews) paths
    | none =>
      rw [hm] at h₁
      obtain ⟨first, hmodel, h₁, hcaches₁⟩ := h₁
      rw [hnext₀] at hmodel
      rw [hgaining] at hcaches₁
      have hso : w.Wrought first w₁ := hbegin.trans h₁
      cases model with
      | ok m =>
        refine wp_views_rest_course hu hl hso hcaches₁ (fun hviews => ?_) paths
        rw [hmodel.makes] at hviews
        exact .resolved hmodel hviews
      | error e =>
        dsimp only
        by_cases he : e.isResolution = true
        · rw [if_pos he]
          refine wp_views_rest_course hu hl hso hcaches₁ (fun hviews => ?_) paths
          rw [hmodel.makes] at hviews
          cases e with
          | resolution e => exact .unloaded hmodel hviews
          | _ => cases he
        · rw [if_neg he]
          exact ⟨none, first, .refused hmodel (Bool.eq_false_iff.2 he),
            hso.andThen [_] (by simp [Occurrence.works]) rfl, fun _ _ => hcaches₁⟩

end Setting

/-! ## Operations -/

namespace Application

variable {app : Application κ} {w : World κ} {i : ComponentId} {c : Component} (hw : Tenure none w)
  (hl : ∀ l ∈ w.loans, OfNode l) (hc : w.components.get? i = some c)
include hw hl hc

theorem wp_perform_model {E : Option Halt → Prop} {depth : Nat}
    (hu : (app.watched depth).user.Silent E) :
    ((app.watched depth).perform (.model i)).Wp E
      (fun r w' => ∃ r', r = some r' ∧ c.ModelEnd (app.host c.host) w r' w') w := by
  refine (Act.wp_withComponent_held hw hc (Q := fun r w₁ => c.ModelEnd _ w r w₁.unpin)
    ?_).mono fun r w' ⟨r', w₁, hr, hw', hend⟩ => ⟨r', hr, hw' ▸ hend⟩
  exact (Setting.wp_model_course hu i c (w := w.pin i) hl).mono fun _ _ hend => hend.unpin

theorem wp_perform_views {E : Option Halt → Prop} {depth : Nat}
    (hu : (app.watched depth).user.Silent E) :
    ((app.watched depth).perform (.views i)).Wp E
      (fun r w' => ∃ r', r = some r' ∧ c.ViewsEnd (app.host c.host) c.node.id w r' w') w := by
  have hn : ((w.pin i).current i c).node.id = c.node.id := by
    rw [World.current_of_get? (w := w.pin i) hc]
  refine (Act.wp_withComponent_held hw hc (Q := fun r w₁ => c.ViewsEnd _ c.node.id w r w₁.unpin)
    ?_).mono fun r w' ⟨r', w₁, hr, hw', hend⟩ => ⟨r', hr, hw' ▸ hend⟩
  exact (Setting.wp_views_course hu i c (w := w.pin i) hl hn).mono fun _ _ hend => hend.unpin

/-- An undisturbed access to the view model ends, and takes its course. -/
theorem Undisturbed.model_run (hu : app.Undisturbed (.model i) w) (depth : Nat) :
    ∃ r w', ((app.setting depth).perform (.model i)).run w = .ok (some r, w') ∧
      c.ModelEnd (app.host c.host) w r w' := by
  obtain ⟨_, w', hrun, r, rfl, hend⟩ :=
    hu.run_of_wp (wp_perform_model hw hl hc (app.watched_silent depth))
  exact ⟨r, w', hrun, hend⟩

/-- An undisturbed access to the views ends, and takes its course. -/
theorem Undisturbed.views_run (hu : app.Undisturbed (.views i) w) (depth : Nat) :
    ∃ r w', ((app.setting depth).perform (.views i)).run w = .ok (some r, w') ∧
      c.ViewsEnd (app.host c.host) c.node.id w r w' := by
  obtain ⟨_, w', hrun, r, rfl, hend⟩ :=
    hu.run_of_wp (wp_perform_views hw hl hc (app.watched_silent depth))
  exact ⟨r, w', hrun, hend⟩

/-- Where there are no calls in loaders and factories, resolutions are undisturbed. -/
theorem undisturbed_model (hload : ∀ key path w, (app.code.load key path).Quietly
      (fun _ _ => True) w)
    (hmake : ∀ inst w, (app.code.make inst).Quietly (fun _ _ => True) w) :
    app.Undisturbed (.model i) w := fun depth hstop =>
  (wp_perform_model hw hl hc (silent_of_quiet hload hmake depth)).of_stop hstop

theorem undisturbed_views (hload : ∀ key path w, (app.code.load key path).Quietly
      (fun _ _ => True) w)
    (hmake : ∀ inst w, (app.code.make inst).Quietly (fun _ _ => True) w) :
    app.Undisturbed (.views i) w := fun depth hstop =>
  (wp_perform_views hw hl hc (silent_of_quiet hload hmake depth)).of_stop hstop

end Application

/-- **The order of a resolution.** A component whose node has no views stored is asked for its
views, in any world that a run of an application comes to, and loaders and factories call no
operations meanwhile. Then the operation ends, at any depth of calls, and nothing else was done than
its course: a view model is resolved first unless one is stored, and its failure is the result
unless it could not be loaded; then the declared views are, up to the first failure, which is the
result. So the loader was asked for the path of the view model, if that is not declared as a class,
and for those of the identifiers that were come to, in order, once for each; and each declaration
was given an instance of its own, the next ones in order, those that are repeated too. -/
theorem views_course {app : Application κ} {prog : Program κ α}
    {targets : Dict TargetId EventTarget} {memory : κ.Memory} {v : World κ}
    (hv : app.Reaches prog (World.start targets memory) v) {i : ComponentId} {c : Component}
    (hc : v.components.get? i = some c) (hnone : (v.entry c.host c.node.id).views = none)
    (hu : app.Undisturbed (.views i) v) (depth : Nat) :
    let host := app.host c.host
    let stored := (v.entry c.host c.node.id).model
    ∃ r w gained trace,
      ((app.setting depth).perform (.views i)).run v = .ok (some r, w) ∧
      v.Wrought trace w ∧ c.Course host v.nextInstance stored gained trace (r.map ViewList.views) ∧
      (∃ (k : Nat) (made : List Instance),
        asked trace = (if stored = none then c.modelPaths host.config else []) ++
          ((c.declarations host.config).take k).flatMap (Declaration.paths host.config.viewPath) ∧
        madeIn trace = gained.toList.map (fun m => (.viewModel, m.inst)) ++ made.map (.view, ·) ∧
        (madeIn trace).map (fun x => x.2.id) =
          List.range' v.nextInstance (madeIn trace).length ∧
        ComesTo (c.declarations host.config) k made (r.map ViewList.views)) ∧
      ∀ list, r = .ok list →
        list.views.map ResolvedView.label = (c.declarations host.config).map Declaration.label ∧
          ∀ x ∈ list.views, x.model = stored.or gained := by
  intro host stored
  have hw := tenure_of_reaches app prog targets memory hv
  obtain ⟨r, w, hrun, hend⟩ := hu.views_run hw (ofNode_of_reaches hv) hc depth
  unfold Component.ViewsEnd at hend
  rw [hnone] at hend
  obtain ⟨gained, trace, hcourse, hwrought, -⟩ := hend
  refine ⟨r, w, gained, trace, hrun, hwrought, hcourse, hcourse.order, fun list hr => ?_⟩
  subst hr
  exact hcourse.labels

namespace Triptych

def wing : Class := .view 0 "Wing" ⟨0, "Wing"⟩

def panel : Class := .view 1 "Panel" ⟨1, "Panel"⟩

/-- A type with a view twice and another one given as a class. Nobody has a view model for it. -/
def type : ComponentType where
  own :=
    { label := "Triptych"
      definer := some ⟨"Triptych", [⟨"name", [.text "triptych"]⟩,
        ⟨"views", [.text "wing", .ofClass panel, .text "wing"]⟩]⟩ }

def application : Application ⟨Unit, Empty⟩ where
  host _ := { loader := .registry ⟨.ofList [("views/components/wing", wing)]⟩ }
  code := .idle

def program : Program ⟨Unit, Empty⟩ Unit :=
  .call (.create 0 type ⟨1, ∅⟩ ⟨0, "triptych"⟩) fun _ => .done ()

/-- The world after the program. -/
def standing : World ⟨Unit, Empty⟩ := application.worldAfter 1 program (World.start ∅ ())

theorem run_program : (application.exec 1 program).run (World.start ∅ ()) = .ok ((), standing) :=
  Application.run_eq_worldAfter (by decide +kernel)

/-- The component that the program makes. -/
def component : Component where
  type := type
  metadata := ⟨"triptych", [.ident "wing", .ofClass panel, .ident "wing"], none, []⟩
  host := 0
  node := ⟨1, ∅⟩

theorem standing_component : standing.components.get? 0 = some component := rfl

/-- The numbers of the instances that asking for the views gives. -/
def numbers : Option (List InstanceId) :=
  match ((application.setting 0).perform (.views 0)).run standing with
  | .ok (some (.ok list), _) => some (list.views.map fun x => x.inst.id)
  | _ => none

theorem numbers_eq : numbers = some [1, 2, 3] := by decide +kernel

theorem undisturbed : application.Undisturbed (.views 0) standing :=
  have hv := Application.reaches_of_exec run_program
  Application.undisturbed_views (tenure_of_reaches _ _ _ _ hv) (ofNode_of_reaches hv)
    standing_component (fun _ _ _ => trivial) fun _ _ => trivial

end Triptych

/-- The loader is asked for a view model in vain, and twice for the view that is declared twice;
there are three instances. -/
theorem views_course_triptych :
    ∃ (list : ViewList) (w : World ⟨Unit, Empty⟩) (trace : List (Occurrence ⟨Unit, Empty⟩)),
      ((Triptych.application.setting 0).perform (.views 0)).run Triptych.standing =
        .ok (some (.ok list), w) ∧
      Triptych.standing.Wrought trace w ∧
      asked trace = ["view_models/components/triptych", "views/components/wing",
        "views/components/wing"] ∧
      list.views.map (fun x => x.inst.id) = [1, 2, 3] := by
  obtain ⟨r, w, gained, trace, hrun, hwrought, -, ⟨k, made, hasked, -, -, hcomes⟩, -⟩ :=
    views_course (Application.reaches_of_exec Triptych.run_program) Triptych.standing_component rfl
      Triptych.undisturbed 0
  have hnumbers := Triptych.numbers_eq
  unfold Triptych.numbers at hnumbers
  rw [hrun] at hnumbers
  cases r with
  | error e => cases hnumbers
  | ok list =>
    obtain rfl : k = 3 := hcomes.1
    exact ⟨list, w, trace, hrun, hwrought, hasked, Option.some.inj hnumbers⟩

end LayeredViews
