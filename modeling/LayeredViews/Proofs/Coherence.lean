import LayeredViews.Proofs.Memo
import LayeredViews.Proofs.Mismatch
import LayeredViews.Proofs.Without

/-!
# The views and the view model of a node belong together

As long as loaders and factories call no operations, a resolution for a node is not interrupted by
another one. Then the views that are stored for a node are bound to the view model that is stored
for it, or to none if the loader had none. A view model that is found and is wrong keeps the views
from being stored.

* `Coherent`: the record of a run in which a view model is stored only where none is, and views are
  stored with the view model that is stored.
* `Coherent.stays`: a view model that is stored is not replaced as long as the entry lives.
* `Coherent.bound`: what stands for both aspects of a node belongs together.
* `Callbacks.fetching`: the code that resolutions run, and no other.
* `Agreeing`: the entries of the hosts are what stands after a coherent record. All operations keep
  this where loaders and factories call none (`agreeing_guarded`).
* `models_coherent`: what follows for every world that such a run comes to.
-/

namespace LayeredViews

variable {κ : Client} {α : Type}

/-! ## Coherent records -/

/-- The view model of a node could not be loaded: the loader answered with an error, that was the
end of its resolution, and nothing was resolved or dropped since. -/
def ModelUnloaded (h : HostId) (n : NodeId) (past : List (Occurrence κ)) : Prop :=
  ∃ since before p e, past = since ++ .failed h n .model :: .answered h p (.error e) :: before ∧
    ∀ o ∈ since, o.Idle

/-- What is stored belongs to what is stored of the other aspect. -/
def Suits (past : List (Occurrence κ)) : Occurrence κ → Prop
  | .stored h n (.model _) => standing h n .model past = none
  | .stored h n (.views l) =>
    (∃ m, standing h n .model past = some (.model m) ∧ ∀ x ∈ l.views, x.model = some m) ∨
      (ModelUnloaded h n past ∧ ∀ x ∈ l.views, x.model = none)
  | _ => True

/-- Everything that was stored belonged to what was stored before it. -/
def Coherent : List (Occurrence κ) → Prop
  | [] => True
  | o :: past => Suits past o ∧ Coherent past

section

variable {h : HostId} {n : NodeId} {past b : List (Occurrence κ)}

theorem ModelUnloaded.idle {new : List (Occurrence κ)} (hf : ModelUnloaded h n past)
    (hn : ∀ o ∈ new, o.Idle) : ModelUnloaded h n (new ++ past) := by
  obtain ⟨since, before, p, e, rfl, hs⟩ := hf
  refine ⟨new ++ since, before, p, e, (List.append_assoc ..).symm, fun o ho => ?_⟩
  exact (List.mem_append.1 ho).elim (hn o) (hs o)

theorem Coherent.of_append (hc : Coherent (b ++ past)) : Coherent past := by
  induction b with
  | nil => exact hc
  | cons o b ih => exact ih hc.2

theorem Coherent.plain {new : List (Occurrence κ)} (hn : ∀ o ∈ new, o.Plain)
    (hc : Coherent past) : Coherent (new ++ past) := by
  induction new with
  | nil => exact hc
  | cons o new ih =>
    have ho : o.Plain := hn o List.mem_cons_self
    refine ⟨?_, ih fun o ho => hn o (List.mem_cons_of_mem _ ho)⟩
    cases o with
    | stored => exact ho.elim
    | _ => trivial

/-- A view model that is stored is not replaced as long as the entry lives. -/
theorem Coherent.stays {m : Model} (hc : Coherent (b ++ past))
    (hd : ∀ cause, .dropped h n cause ∉ b) (hm : standing h n .model past = some (.model m)) :
    standing h n .model (b ++ past) = some (.model m) := by
  induction b with
  | nil => exact hm
  | cons o b ih =>
    have hb := ih hc.2 fun cause hmem => hd cause (List.mem_cons_of_mem _ hmem)
    cases o with
    | stored h' n' x =>
      rw [List.cons_append, standing, if_neg, hb]
      rintro ⟨rfl, rfl, hx⟩
      cases x with
      | model m' => cases hb.symm.trans hc.1
      | views l => cases hx
    | dropped h' n' cause =>
      rw [List.cons_append, standing, if_neg, hb]
      rintro ⟨rfl, rfl⟩
      exact hd cause List.mem_cons_self
    | _ => exact hb

/-- Views that are stored are bound to the view model that is stored, or to none. -/
theorem Coherent.bound {l : ViewList} (hc : Coherent past)
    (hl : standing h n .views past = some (.views l)) :
    ∃ bound, (∀ x ∈ l.views, x.model = bound) ∧
      ∀ m, bound = some m → standing h n .model past = some (.model m) := by
  obtain ⟨-, since, before, rfl, hd⟩ := standing_split hl
  rcases hc.of_append.1 with ⟨m, hm, hviews⟩ | ⟨-, hviews⟩
  · refine ⟨some m, hviews, fun m' he => ?_⟩
    cases he
    exact hc.stays hd (by simpa [standing, Resolved.aspect] using hm)
  · exact ⟨none, hviews, fun m hm => by cases hm⟩

/-- Between two view models that are stored for a node, its entry is dropped. -/
theorem Coherent.exists_dropped {m m' : Model}
    (hc : Coherent (.stored h n (.model m') :: (b ++ .stored h n (.model m) :: past))) :
    ∃ cause, .dropped h n cause ∈ b := by
  refine Classical.byContradiction fun hnot => ?_
  have hstands : standing h n .model (.stored h n (.model m) :: past) = some (.model m) := by
    simp [standing, Resolved.aspect]
  have hstays := hc.2.stays (fun cause hmem => hnot ⟨cause, hmem⟩) hstands
  cases hstays.symm.trans hc.1

end

/-! ## The contracts -/

/-- The entries of the hosts are what stands after a coherent record. -/
structure Agreeing (w : World κ) : Prop extends Mirrored w where
  coherent : Coherent w.record

/-- The contract of code that may call operations. -/
def agreeing : Contract κ where
  inv := Agreeing
  step _ _ := True
  refl _ := trivial
  trans _ _ := trivial

/-- The contract of code that resolutions run: it leaves the entries alone. -/
def fetching : Contract κ where
  inv := Agreeing
  step := World.Calm
  refl _ := .of_eq rfl rfl rfl rfl rfl
  trans := World.Calm.trans

/-- The contract of each kind of code. -/
def agreeingBy : Caller → Contract κ
  | .loader | .factory => fetching
  | _ => agreeing

theorem Agreeing.calm {w w' : World κ} (hw : Agreeing w) (h : w.Calm w') : Agreeing w' where
  toMirrored := hw.toMirrored.calm h
  coherent := by
    obtain ⟨new, hr, hn⟩ := h.record
    rw [hr]
    exact hw.coherent.plain fun o ho => (hn o ho).plain

/-- A note that stores nothing. -/
theorem Agreeing.note {w : World κ} (hw : Agreeing w) {o : Occurrence κ} (ho : Suits w.record o)
    (hstands : ∀ h n a, standing h n a (o :: w.record) = standing h n a w.record) :
    Agreeing { w with record := o :: w.record } :=
  ⟨hw.toMirrored.note hstands, ho, hw.coherent⟩

theorem Agreeing.store {w : World κ} (hw : Agreeing w) {h : HostId} {n : NodeId} {x : Resolved}
    (hx : Suits w.record (.stored h n x)) {f : Entry → Entry}
    (hf : ∀ e a, (f e).get? a = if a = x.aspect then some x else e.get? a) :
    Agreeing { w.setCache h ((w.cache h).insert n (f (w.entry h n))) with
      record := .stored h n x :: w.record } :=
  ⟨hw.toMirrored.store h n x hf, hx, hw.coherent⟩

theorem agreeing_calming : agreeing.Calming (κ := κ) where
  calm hw h := ⟨hw.calm h, trivial⟩
  stops := Option.some_ne_none
  discard h selection cause w hw := by
    rw [Act.wp_discard]
    split
    · exact Option.some_ne_none _
    · refine ⟨⟨hw.toMirrored.discarded h selection cause, hw.coherent.plain fun o ho => ?_⟩,
        trivial⟩
      obtain ⟨n, -, rfl⟩ := List.mem_map.1 (List.mem_reverse.1 ho)
      trivial

theorem fetching_of_calm {a : Act κ α} (h : ∀ w, a.Wp (· ≠ none) (fun _ w' => w.Calm w') w) :
    fetching.Kept a :=
  fun w hw => (h w).mono fun _ _ hcalm => ⟨hw.calm hcalm, hcalm⟩

theorem fetching_crafting : fetching.Crafting (κ := κ) where
  routine ho := fetching_of_calm fun w => .of_record [_] (by simpa using ho.idle)
  freshInstance _ := fetching_of_calm fun w => .counted w

theorem fetching_open : (fetching (κ := κ)).Open where
  exhausted := Option.some_ne_none _
  memory hw _ := ⟨hw.calm (.of_eq rfl rfl rfl rfl rfl), .of_eq rfl rfl rfl rfl rfl⟩
  note {w} hw n :=
    have noted : w.Calm { w with record := .noted n :: w.record } :=
      .of_record [.noted n] (by simp [Occurrence.Idle, Occurrence.Plain])
    ⟨hw.calm noted, noted⟩

/-! ## Resolutions -/

/-- The code that resolutions run, and no other. -/
def Callbacks.fetching (user : Callbacks (Act κ)) : Callbacks (Act κ) :=
  { Callbacks.idle with load := user.load, make := user.make }

namespace Setting

variable (host : HostId → Host) (user : Callbacks (Act κ))

/-- Resolutions run loaders and factories only. -/
theorem resolveModel_fetching (c : Component) :
    resolveModel ⟨host, user.fetching⟩ c = resolveModel ⟨host, user⟩ c := rfl

theorem resolveViews_fetching (h : HostId) (model : Option Model) (ds : List Declaration) :
    resolveViews ⟨host, user.fetching⟩ h model ds = resolveViews ⟨host, user⟩ h model ds := by
  induction ds with
  | nil => rfl
  | cons d rest ih =>
    rw [resolveViews_cons, resolveViews_cons, ih]
    rfl

theorem instantiate_fetching (cls : Class) (capability : Capability) :
    instantiate ⟨host, user.fetching⟩ cls capability = instantiate ⟨host, user⟩ cls capability :=
  rfl

end Setting

/-- Views that are resolved are bound to the view model that they are resolved for. -/
theorem Setting.wp_resolveViews_model (env : Setting κ) (h : HostId) (model : Option Model)
    (ds : List Declaration) (w : World κ) :
    (env.resolveViews h model ds).Wp (fun _ => True)
      (fun r _ => ∀ views, r.1 = .ok views → ∀ x ∈ views, x.model = model) w := by
  induction ds generalizing w with
  | nil =>
    intro views he x hx
    cases he
    cases hx
  | cons d rest ih =>
    rw [resolveViews_cons]
    refine (Act.Wp.any (env.classOf h _ d) w).bind fun ⟨found, paths⟩ w₁ _ => ?_
    cases found with
    | error e => exact fun _ he => by cases he
    | ok cls =>
      refine (Act.Wp.any (env.instantiate cls .view) w₁).bind fun made w₂ _ => ?_
      cases made with
      | error e => exact fun _ he => by cases he
      | ok inst =>
        refine (ih w₂).bind fun ⟨views, more⟩ w₃ hviews all he x hx => ?_
        cases views with
        | error e => cases he
        | ok views =>
          cases he
          rcases List.mem_cons.1 hx with rfl | hx
          · rfl
          · exact hviews views rfl x hx

/-- A class that is found does not make a view model fail to be loaded. -/
theorem Setting.wp_makeModel_found (env : Setting κ) (cls : Class) (w : World κ) :
    (env.makeModel cls).Wp (fun _ => True)
      (fun r _ => ∀ e, r = .error e → e.isResolution = false) w := by
  refine (env.wp_makeModel_error cls w).mono fun r _ hr e he => ?_
  rcases hr e he with ⟨-, -, rfl⟩ | hname
  · rfl
  · obtain ⟨-, ce, rfl⟩ := Class.buildModel_error hname
    rfl

/-- Where a view model could not be loaded, an error of the loader is what was recorded last. -/
theorem Setting.wp_resolveModel_unloaded (env : Setting κ) (c : Component) (w : World κ) :
    (env.resolveModel c).Wp (fun _ => True)
      (fun r w' => ∀ e, r.1 = .error e → e.isResolution = true →
        ∃ p e' before, w'.record = .answered c.host p (.error e') :: before) w := by
  have made : ∀ cls (paths : List String) w₁,
      (env.makeModel cls >>= fun model => pure (model, paths)).Wp (fun _ => True)
        (fun r w' => ∀ e, r.1 = .error e → e.isResolution = true →
          ∃ p e' before, w'.record = .answered c.host p (.error e') :: before) w₁ := by
    intro cls paths w₁
    refine (env.wp_makeModel_found cls w₁).bind fun model w₂ hfound e he hload => ?_
    rw [hfound e he] at hload
    cases hload
  unfold resolveModel
  cases c.metadata.viewModel.getD (.ident c.metadata.name) with
  | ofClass cls => exact made cls [] w
  | ident s =>
    unfold classOf load
    simp only [bind_assoc]
    refine (Act.Wp.any _ w).bind fun _ w₁ _ => (Act.Wp.any _ w₁).bind fun answer w₂ _ => ?_
    cases answer with
    | ok cls => exact made cls _ _
    | error e => exact fun _ _ _ => ⟨_, e, w₂.record, rfl⟩

namespace Setting

variable {host : HostId → Host} {user : Callbacks (Act κ)}

/-- What the views of a node are to be bound to: the view model that is stored for it, or none, if
it could not be loaded just now. -/
def Settled (w : World κ) (h : HostId) (n : NodeId) : Option Model → Prop
  | some m => (w.entry h n).model = some m
  | none => ModelUnloaded h n w.record

/-- Settled view models fit the views that are bound to them. -/
theorem Settled.suits {w : World κ} {h : HostId} {n : NodeId} {model : Option Model}
    (hs : Settled w h n model) (hw : Agreeing w) {l : ViewList}
    (hl : ∀ x ∈ l.views, x.model = model) : Suits w.record (.stored h n (.views l)) := by
  cases model with
  | none => exact .inr ⟨hs, hl⟩
  | some m =>
    refine .inl ⟨m, ?_, hl⟩
    rw [← hw.stands, Entry.get?_model, show (w.entry h n).model = some m from hs]
    rfl

theorem Settled.calm {w w' : World κ} {h : HostId} {n : NodeId} {model : Option Model}
    (hs : Settled w h n model) (hcalm : w.Calm w') : Settled w' h n model := by
  cases model with
  | none =>
    obtain ⟨new, hr, hn⟩ := hcalm.record
    show ModelUnloaded h n w'.record
    rw [hr]
    exact ModelUnloaded.idle hs hn
  | some m =>
    show (w'.entry h n).model = some m
    rw [hcalm.entry]
    exact hs

variable (hu : Contract.KeptByEach agreeingBy user)
include hu

theorem fetching_keptBy : fetching.KeptBy user.fetching where
  load := hu.load
  make := hu.make
  render _ _ := .pure _
  handle _ _ _ := .pure _
  listen _ _ := .pure _

theorem fetching_resolveModel (c : Component) : fetching.Kept (resolveModel ⟨host, user⟩ c) :=
  resolveModel_fetching host user c ▸ fetching_crafting.resolveModel (fetching_keptBy hu) c

theorem fetching_instantiate (cls : Class) (capability : Capability) :
    fetching.Kept (instantiate ⟨host, user⟩ cls capability) :=
  instantiate_fetching host user cls capability ▸
    fetching_crafting.instantiate (fetching_keptBy hu) cls capability

theorem fetching_resolveViews (h : HostId) (model : Option Model) (ds : List Declaration) :
    fetching.Kept (resolveViews ⟨host, user⟩ h model ds) :=
  resolveViews_fetching host user h model ds ▸
    fetching_crafting.resolveViews (fetching_keptBy hu)
      (fun cls => fetching_crafting.instantiate (fetching_keptBy hu) cls .view) h model ds

/-- After the view model was asked for, it is stored, or it has just failed; and if it has failed
for want of a class, that is settled. -/
theorem agreeing_modelWithSources (id : ComponentId) (c : Component) {w : World κ}
    (hw : Agreeing w) :
    (modelWithSources ⟨host, user⟩ id c).Wp (· ≠ none) (fun r w' => Agreeing w' ∧
      ((∀ e, r.1 = .error e → e.isResolution = true) →
        Settled w' c.host (w.current id c).node.id r.1.toOption)) w := by
  unfold modelWithSources
  rw [Act.wp_bind, Act.wp_nodeOf]
  split
  · exact Option.some_ne_none _
  rw [Act.wp_bind, Act.wp_entryOf]
  split
  · exact Option.some_ne_none _
  generalize (w.current id c).node.id = n
  cases hm : (w.entry c.host n).model with
  | some m => exact ⟨hw.note trivial fun _ _ _ => rfl, fun _ => hm⟩
  | none =>
    have hbegin : Agreeing { w with record := .resolving c.host n .model :: w.record } :=
      hw.note trivial fun _ _ _ => rfl
    dsimp only
    rw [Act.wp_bind, Act.wp_record]
    refine ((fetching_resolveModel hu c _ hbegin).and_any (wp_resolveModel_unloaded _ c _)).bind
      fun ⟨model, paths⟩ w₁ ⟨⟨hw₁, hcalm⟩, hunloaded⟩ => ?_
    cases model with
    | error e =>
      refine ⟨hw₁.note trivial fun _ _ _ => rfl, fun hload => ?_⟩
      obtain ⟨p, e', before, hr⟩ := hunloaded e rfl (hload e rfl)
      exact ⟨[], before, p, e', congrArg _ hr, fun _ ho => by cases ho⟩
    | ok m =>
      have hnone : standing c.host n .model w₁.record = none := by
        rw [← hw₁.stands, hcalm.entry]
        show (w.entry c.host n).model.map Resolved.model = none
        rw [hm]
        rfl
      have hstore := hw₁.store (h := c.host) (n := n) (x := .model m) hnone
        (Entry.get?_withModel m paths)
      dsimp only
      rw [Act.wp_bind, Act.wp_updateEntry]
      split
      · exact Option.some_ne_none _
      refine ⟨hstore.note trivial fun _ _ _ => rfl, fun _ => ?_⟩
      show (World.entry _ c.host n).model = some m
      refine (congrArg Entry.model (w₁.entry_setCache_insert c.host c.host n n _)).trans ?_
      rw [if_pos ⟨rfl, rfl⟩]
      rfl

/-- Views are stored with what is settled about their view model. -/
theorem agreeing_views_resolve (c : Component) {n : NodeId} {model : Option Model}
    (paths : List String) {w : World κ} (hw : Agreeing w) (hs : Settled w c.host n model) :
    agreeing.KeptFrom w (views.resolve ⟨host, user⟩ c n model paths) := by
  have hbound := wp_resolveViews_model ⟨host, user⟩ c.host model
    (c.declarations (host c.host).config) w
  refine ((fetching_resolveViews hu c.host model _ w hw).and_any hbound).bind
    fun ⟨resolved, more⟩ w₁ ⟨⟨hw₁, hcalm⟩, hviews⟩ => ?_
  cases resolved with
  | error e => exact ⟨hw₁.note trivial fun _ _ _ => rfl, trivial⟩
  | ok list =>
    have hlisted : w₁.Calm { w₁ with nextList := w₁.nextList + 1 } := .listed w₁
    have hw₂ := hw₁.calm hlisted
    have hsuits := ((hs.calm hcalm).calm hlisted).suits (l := ⟨w₁.nextList, list⟩) hw₂
      (hviews list rfl)
    dsimp only
    rw [Act.wp_bind, Act.wp_freshList, Act.wp_bind, Act.wp_updateEntry]
    split
    · exact Option.some_ne_none _
    have hstore := hw₂.store hsuits (Entry.get?_withViews _ (paths ++ more))
    exact ⟨hstore.note trivial fun _ _ _ => rfl, trivial⟩

theorem agreeing_views (id : ComponentId) (c : Component) :
    agreeing.Kept (views ⟨host, user⟩ id c) := by
  intro w hw
  rw [views_eq]
  rw [Act.wp_bind, Act.wp_nodeOf]
  split
  · exact Option.some_ne_none _
  rw [Act.wp_bind, Act.wp_entryOf]
  split
  · exact Option.some_ne_none _
  cases hl : (w.entry c.host (w.current id c).node.id).views with
  | some l => exact ⟨hw.note trivial fun _ _ _ => rfl, trivial⟩
  | none =>
    have hbegin : Agreeing { w with
        record := .resolving c.host (w.current id c).node.id .views :: w.record } :=
      hw.note trivial fun _ _ _ => rfl
    dsimp only
    rw [Act.wp_bind, Act.wp_record]
    refine (agreeing_modelWithSources hu id c hbegin).bind fun ⟨model, paths⟩ w₁ ⟨hw₁, hs⟩ => ?_
    cases model with
    | ok m => exact agreeing_views_resolve hu c paths hw₁ (hs fun _ he => by cases he)
    | error e =>
      dsimp only
      rw [Act.wp_ite]
      split
      · next hload =>
        exact agreeing_views_resolve hu c paths hw₁ (hs fun _ he => by cases he; exact hload)
      · exact ⟨hw₁.note trivial fun _ _ _ => rfl, trivial⟩

end Setting

/-! ## Operations -/

/-- The code is run by resolutions. -/
def Caller.Fetches : Caller → Prop
  | .loader | .factory => True
  | _ => False

namespace Contract

/-- The contract of each kind of code, where `F` is that of the code that resolutions run. -/
def fetchedBy (C F : Contract κ) : Caller → Contract κ
  | .loader | .factory => F
  | _ => C

/-- Where loaders and factories call no operations, and what they do is enough for the operations
that resolve, all operations keep the contracts. -/
theorem Calming.guarded {C F : Contract κ} (hC : C.Calming) (hF : F.Open)
    (hkept : ∀ {β : Type} {a : Act κ β}, F.Kept a → C.Kept a) {host : HostId → Host}
    (hresolve : ∀ {user}, KeptByEach (C.fetchedBy F) user →
      (∀ id c, C.Kept (Setting.views ⟨host, user⟩ id c)) ∧
      (∀ id c, C.Kept (Setting.model ⟨host, user⟩ id c)) ∧
      ∀ cls capability, C.Kept (Setting.instantiate ⟨host, user⟩ cls capability)) :
    Guarded (C.fetchedBy F) host fun who _ _ => who.Fetches where
  opened who := by
    cases who with
    | loader => exact hF
    | factory => exact hF
    | _ => exact hC.toOpen
  perform user hu who op w hw hop := by
    obtain ⟨hviews, hmodel, hinstantiate⟩ := hresolve hu
    have huser : C.KeptBy user :=
      ⟨fun key path => hkept (hu.load key path), fun inst => hkept (hu.make inst), hu.render,
        hu.handle, hu.listen⟩
    have hperform : C.Kept (Setting.perform ⟨host, user⟩ op) := by
      cases op with
      | views id => exact hC.tended.withComponent id (hviews id)
      | model id => exact hC.tended.withComponent id (hmodel id)
      | render id pipe =>
        exact hC.tended.withComponent id fun c => hC.tended.render huser id c pipe (hviews id c)
      | instantiate cls capability => exact hinstantiate cls capability
      | _ => exact hC.perform huser id
    cases who with
    | loader => exact absurd trivial hop
    | factory => exact absurd trivial hop
    | _ => exact hperform w hw

end Contract

/-- Where loaders and factories call no operations, all operations keep the contracts. -/
theorem agreeing_guarded (host : HostId → Host) :
    Contract.Guarded (κ := κ) agreeingBy host fun who _ _ => who.Fetches := by
  have hby : agreeingBy (κ := κ) = agreeing.fetchedBy fetching := by
    funext who
    cases who <;> rfl
  have hkept : ∀ {β : Type} {a : Act κ β}, fetching.Kept a → agreeing.Kept a :=
    fun ha w hw => (ha w hw).mono fun _ _ h => ⟨h.1, trivial⟩
  rw [hby]
  refine agreeing_calming.guarded fetching_open hkept fun hu => ?_
  rw [← hby] at hu
  exact ⟨Setting.agreeing_views hu,
    fun id c w hw => (Setting.agreeing_modelWithSources hu id c hw).bind fun _ _ h =>
      ⟨h.1, trivial⟩,
    fun cls capability => hkept (Setting.fetching_instantiate hu cls capability)⟩

/-! ## Runs -/

namespace Agreeing

variable {v : World κ} (hw : Agreeing v) {h : HostId} {n : NodeId}
include hw

theorem model_of_standing {m : Model} (hm : standing h n .model v.record = some (.model m)) :
    (v.entry h n).model = some m := by
  simpa using (hw.stands h n .model).trans hm

/-- Views that are stored are bound to what is stored as the view model, or to nothing. -/
theorem bound {l : ViewList} (hl : (v.entry h n).views = some l) :
    ∃ bound : Option Model,
      (∀ x ∈ l.views, x.model = bound) ∧ ∀ m, bound = some m → (v.entry h n).model = some m := by
  have hstands : standing h n .views v.record = some (.views l) := by
    rw [← hw.stands, Entry.get?_views, hl]
    rfl
  obtain ⟨bound, hviews, hm⟩ := hw.coherent.bound hstands
  exact ⟨bound, hviews, fun m he => hw.model_of_standing (hm m he)⟩

/-- A view model that was stored is not replaced before it is dropped. -/
theorem not_replaced {m : Model} {since before : List (Occurrence κ)}
    (hr : v.record = since ++ .stored h n (.model m) :: before)
    (hd : ∀ cause, .dropped h n cause ∉ since) (m' : Model) : .stored h n (.model m') ∉ since := by
  intro hmem
  obtain ⟨s₁, s₂, rfl⟩ := List.append_of_mem hmem
  have hc : Coherent (.stored h n (.model m') :: (s₂ ++ .stored h n (.model m) :: before)) :=
    Coherent.of_append (b := s₁) (by simpa [hr] using hw.coherent)
  obtain ⟨cause, hdropped⟩ := hc.exists_dropped
  exact hd cause (List.mem_append_right _ (List.mem_cons_of_mem _ hdropped))

end Agreeing

section

variable {app : Application κ} {prog : Program κ α} {targets : Dict TargetId EventTarget}
  {memory : κ.Memory} {v : World κ}
  (hv : app.ReachesWithout (fun who _ _ => who.Fetches) prog (World.start targets memory) v)
include hv

theorem agreeing_of_reaches : Agreeing v := by
  have hstart : Agreeing (World.start targets memory : World κ) :=
    ⟨(memoized_start targets memory).mirrored, trivial⟩
  obtain ⟨who, hwho⟩ := (agreeing_guarded app.host).inv_of_reaches
    (fun who => by cases who <;> exact fun h => h rfl) hstart hv
  cases who <;> exact hwho

/-- **The views and the view model of a node.** In every world that a run comes to in which loaders
and factories call no operations (view bodies, methods and listeners may, and several components may
share a node):

* the views that are stored for a node are bound to one view model, which is stored for it too, or
  to none;
* a view model that was stored for a node is stored as long as the entry is not dropped, and no
  other one was stored meanwhile;
* so is one that was given for it, and the views that are stored are bound to it or to none;
* where views were stored that are bound to none, the view model had just failed to be resolved, and
  what it failed with was an error of the loader. -/
theorem models_coherent :
    (∀ h n, ∃ bound : Option Model,
      (∀ l, (v.entry h n).views = some l → ∀ x ∈ l.views, x.model = bound) ∧
      ∀ m, bound = some m → (v.entry h n).model = some m) ∧
    (∀ h n m since before, v.record = since ++ .stored h n (.model m) :: before →
      (∀ cause, .dropped h n cause ∉ since) →
      (v.entry h n).model = some m ∧ ∀ m', .stored h n (.model m') ∉ since) ∧
    (∀ h n m since before, v.record = since ++ .gave h n (.model m) :: before →
      (∀ cause, .dropped h n cause ∉ since) →
      (v.entry h n).model = some m ∧
        ∀ l, (v.entry h n).views = some l → ∀ x ∈ l.views, x.model = some m ∨ x.model = none) ∧
    ∀ h n l since before, v.record = since ++ .stored h n (.views l) :: before →
      ∀ x ∈ l.views, x.model = none → ModelUnloaded h n before := by
  have hagree := agreeing_of_reaches hv
  have hmemo : Memoized v := ((memo_sound app.host).guarded fun _ _ _ _ =>
    trivial).inv_of_reaches_one (fun h => h rfl) (memoized_start targets memory) hv
  refine ⟨fun h n => ?_, fun h n m since before hr hd => ?_, fun h n m since before hr hd => ?_,
    fun h n l since before hr x hx hnone => ?_⟩
  · cases hl : (v.entry h n).views with
    | none => exact ⟨none, nofun, nofun⟩
    | some l =>
      obtain ⟨bound, hviews, hm⟩ := hagree.bound hl
      exact ⟨bound, fun l' he => by cases he; exact hviews, hm⟩
  · have hc := hagree.coherent
    rw [hr] at hc
    have hstored : standing h n .model (.stored h n (.model m) :: before) = some (.model m) := by
      simp [standing, Resolved.aspect]
    exact ⟨hagree.model_of_standing (hr ▸ hc.stays hd hstored), hagree.not_replaced hr hd⟩
  · have hc := hagree.coherent
    have hgave := hmemo.chronicle
    rw [hr] at hc hgave
    have hm := hagree.model_of_standing (hr ▸ hc.stays hd hgave.of_append.1)
    refine ⟨hm, fun l hl x hx => ?_⟩
    obtain ⟨bound, hviews, hbound⟩ := hagree.bound hl
    cases bound with
    | none => exact .inr (hviews x hx)
    | some m' => exact .inl ((hviews x hx).trans ((hbound m' rfl).symm.trans hm))
  · have hc := hagree.coherent
    rw [hr] at hc
    rcases hc.of_append.1 with ⟨m, -, hviews⟩ | ⟨hfailed, -⟩
    · cases hnone.symm.trans (hviews x hx)
    · exact hfailed

end

namespace Sitter

def model : Class := Class.viewModel 0 "Sitter" ⟨0, "Sitter"⟩

def view : Class := Class.view 1 "Sketch" ⟨1, "Sketch"⟩

def type : ComponentType where
  own :=
    { label := "Sitter"
      definer := some ⟨"Sitter",
        [⟨"name", [.text "sitter"]⟩, ⟨"views", [.ofClass view]⟩, ⟨"viewmodel", [.ofClass model]⟩]⟩ }

/-- An application whose views ask for the view model while they are rendered. -/
def application : Application ⟨Unit, Empty⟩ where
  host _ := {}
  code :=
    { Callbacks.idle with
      render := fun _ frame => .call (.model 0) fun _ => .done (none, frame.pipe) }

def program : Program ⟨Unit, Empty⟩ Unit :=
  .call .freshNode fun n => .call (.create 0 type ⟨n, ∅⟩ ⟨0, "sitter"⟩) fun _ =>
  .call (.render 0 ∅) fun _ => .done ()

theorem code_uses : application.code.UsesEach fun who _ => ¬who.Fetches :=
  ⟨fun _ _ => trivial, fun _ => trivial, fun _ _ => ⟨id, fun _ => trivial⟩, fun _ _ _ => trivial,
    fun _ _ => trivial⟩

theorem program_uses : program.Uses fun _ => ¬Caller.program.Fetches :=
  ⟨id, fun _ => ⟨id, fun _ => ⟨id, fun _ => trivial⟩⟩⟩

/-- How the program ends. -/
def outcome : Except (Option Halt) (Unit × World ⟨Unit, Empty⟩) :=
  (application.exec 2 program).run (World.start ∅ ())

/-- The view model of the node. -/
def sitter : Model := ⟨"Sitter", 1, ⟨0, "Sitter"⟩⟩

/-- The view model that was given for a node, with its host and node. -/
def given : Occurrence ⟨Unit, Empty⟩ → Option (HostId × NodeId × Model)
  | .gave h n (.model m) => some (h, n, m)
  | _ => none

theorem outcome_given :
    (match outcome with
      | .ok (_, v) => (v.record.head?.bind given,
        (v.entry 0 1).views.map fun l => l.views.map fun x => x.model.isSome)
      | .error _ => (none, none)) = (some (0, 1, sitter), some [true]) := by
  decide +kernel

theorem gave_of_given {past : List (Occurrence ⟨Unit, Empty⟩)} {h : HostId} {n : NodeId}
    {m : Model} (hm : past.head?.bind given = some (h, n, m)) :
    ∃ before, past = .gave h n (.model m) :: before := by
  cases past with
  | nil => cases hm
  | cons o before =>
    cases o with
    | gave h' n' x =>
      cases x with
      | model m' =>
        cases hm
        exact ⟨before, rfl⟩
      | views l => cases hm
    | _ => cases hm

end Sitter

/-- A component is rendered, and its view asks for the view model meanwhile: it is given the one
that the node has stored, to which the view is bound. -/
theorem models_coherent_sitter :
    ∃ v l, Sitter.application.ReachesWithout (fun who _ _ => who.Fetches) Sitter.program
        (World.start ∅ ()) v ∧
      (v.entry 0 1).model = some Sitter.sitter ∧ (v.entry 0 1).views = some l ∧
      l.views ≠ [] ∧ ∀ x ∈ l.views, x.model = some Sitter.sitter := by
  have hrun := Sitter.outcome_given
  cases ho : Sitter.outcome with
  | error e => simp [ho] at hrun
  | ok p =>
    obtain ⟨_, v⟩ := p
    simp only [ho, Prod.mk.injEq, Option.map_eq_some_iff] at hrun
    obtain ⟨hgiven, l, hl, hsome⟩ := hrun
    obtain ⟨x, hx, hsome⟩ := List.map_eq_singleton_iff.1 hsome
    obtain ⟨before, hrecord⟩ := Sitter.gave_of_given hgiven
    have hv : Sitter.application.ReachesWithout (fun who _ _ => who.Fetches) Sitter.program
        (World.start ∅ ()) v :=
      .of_uses (P := fun who _ => ¬who.Fetches) (fun _ _ _ h => h) Sitter.code_uses
        Sitter.program_uses (Application.reaches_of_exec ho)
    obtain ⟨hbound, -, hgave, -⟩ := models_coherent hv
    obtain ⟨hmodel, -⟩ := hgave 0 1 Sitter.sitter [] before hrecord fun _ => List.not_mem_nil
    obtain ⟨bound, hviews, hstored⟩ := hbound 0 1
    obtain ⟨m, hm⟩ := Option.isSome_iff_exists.1 hsome
    have hsame : bound = some m := (hviews l hl x (by simp [hx])).symm.trans hm
    have hsitter : some m = some Sitter.sitter := (hstored m hsame).symm.trans hmodel
    exact ⟨v, l, hv, hmodel, hl, by simp [hx], fun y hy =>
      (hviews l hl y hy).trans (hsame.trans hsitter)⟩

end LayeredViews
