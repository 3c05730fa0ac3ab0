import LayeredViews.Proofs.Anew
import LayeredViews.Proofs.Building
import LayeredViews.Proofs.Calls
import LayeredViews.Proofs.Calm

/-!
# Classes of the wrong kind

A class that a definer declares as such is checked when it is declared, so what resolving a
component can still find to be of the wrong kind comes from the loader.

* `Class.factory_eq_error_iff`: a class has a factory for exactly the capability that it has.
* `Class.buildModel_error`: the name of a view model can be missing only because of its definer.
* `ComponentType.suits_of_built`: the classes that a built component declares suit their use.
* `Component.lookups`: the paths at which a resolution looks for classes.
* `Component.Failure`: why a resolution fails. `Setting.wp_model_failure` and
  `Setting.wp_views_failure`: there is no other reason.
* `mismatch_of_built`: a class of the wrong kind was loaded in the same call.
-/

namespace LayeredViews

variable {κ : Client} {α : Type}

/-! ## Classes -/

namespace Class

/-- The nearest layer with a capability decides about both, the capability and the body. -/
theorem capability_eq_body (c : Class) : c.capability = c.body.capability := by
  have key : ∀ layers : List (Layer Class),
      layers.findSome? (fun l => l.body.capability) =
        (((layers.map Layer.body).find? fun b => b.capability.isSome).getD .plain).capability := by
    intro layers
    induction layers with
    | nil => rfl
    | cons l rest ih =>
      rw [List.findSome?_cons, List.map_cons, List.find?_cons]
      cases hl : l.body.capability with
      | none => simpa [hl] using ih
      | some capability => simp [hl]
  exact key c.layers

/-- A class has a factory for the capability that it has, and for no other. -/
theorem factory_eq_error_iff {c : Class} {capability : Capability} {e : Error} :
    c.factory capability = .error e ↔
      c.satisfies capability = false ∧ e = .typeMismatch c.name capability := by
  have hs : c.satisfies capability = (c.body.capability == some capability) := by
    rw [satisfies, capability_eq_body]
  rw [hs]
  cases capability with
  | view =>
    unfold factory viewFactory
    cases c.body with
    | view make => simp [Body.capability]
    | _ => simp [Body.capability, eq_comm (a := e)]
  | viewModel =>
    unfold factory viewModelFactory
    cases c.body with
    | viewModel make => simp [Body.capability]
    | _ => simp [Body.capability, eq_comm (a := e)]

theorem ensure_eq_error_iff {c : Class} {capability : Capability} {e : Error} :
    c.ensure capability = .error e ↔
      c.satisfies capability = false ∧ e = .typeMismatch c.name capability := by
  unfold ensure
  cases c.satisfies capability with
  | true => simp
  | false => simp [eq_comm (a := e)]

end Class

/-- The vocabulary of view models takes no classes. -/
theorem Call.fault_viewModel {c : Call Class} {e : Error} (h : c.fault .viewModel = some e) :
    ∃ ce, e = .configuration ce := by
  obtain ⟨verb, arguments⟩ := c
  by_cases hl : verb ∈ Vocabulary.viewModel.names
  · obtain rfl : verb = "name" := by
      simpa [Vocabulary.names, Vocabulary.viewModel, Verb.setName] using hl
    by_cases hn : arguments.length = arity "name"
    · rw [fault_of_arity hl hn (by decide), if_neg (by decide)] at h
      obtain ⟨a, -, ha⟩ := List.exists_of_findSome?_eq_some h
      cases a with
      | text s => cases ha
      | ofClass cls => exact ⟨_, (Option.some.inj ha).symm⟩
    · rw [fault_of_not_arity hl hn (by decide)] at h
      exact ⟨_, (Option.some.inj h).symm⟩
  · simp only [fault, hl, not_false_eq_true, if_true] at h
    exact ⟨_, (Option.some.inj h).symm⟩

/-- What a chain fails with is the fault of a call. -/
theorem Vocabulary.exists_fault_of_error {v : Vocabulary} (hv : v ∈ vocabularies)
    (d : Declarations) {chain : List Definer} {e : Error}
    (h : (v.runFrom d chain).result = .error e) : ∃ c : Call Class, c.fault v = some e := by
  cases hrefused : (chain.flatMap DefinerOf.calls).find? fun c => (c.fault v).isSome with
  | some bad =>
    obtain ⟨hbad, before, after, hcalls, hbefore⟩ := List.find?_eq_some_iff_append.1 hrefused
    obtain ⟨e', he'⟩ := Option.isSome_iff_exists.1 hbad
    have hrun := runFrom_refused_call hv d hcalls
      (fun c hc => (Call.fault_eq_none_iff hv c).1 (by simpa using hbefore c hc)) he'
    cases h.symm.trans hrun
    exact ⟨bad, he'⟩
  | none =>
    have hvalid : ∀ definer ∈ chain, ∀ c ∈ definer.calls, c.Valid v := fun definer hd c hc =>
      (Call.fault_eq_none_iff hv c).1 (by
        simpa using List.find?_eq_none.1 hrefused c (List.mem_flatMap.2 ⟨definer, hd, hc⟩))
    cases h.symm.trans (runFrom_valid hv d hvalid).1

/-- A view model has a name, unless its definer does not give one. -/
theorem Class.buildModel_error {cls : Class} {e : Error} (h : cls.buildModel.result = .error e) :
    (∃ definer, cls.definer = some definer) ∧ ∃ ce, e = .configuration ce := by
  unfold buildModel at h
  cases hdefiner : cls.definer with
  | none =>
    rw [hdefiner] at h
    cases h
  | some definer =>
    refine ⟨⟨definer, rfl⟩, ?_⟩
    simp only [hdefiner] at h
    cases hrun : (Vocabulary.viewModel.run [definer]).result with
    | error e' =>
      rw [hrun] at h
      obtain ⟨c, hc⟩ := Vocabulary.exists_fault_of_error
        (List.mem_cons_of_mem _ List.mem_cons_self) ∅ hrun
      cases h
      exact Call.fault_viewModel hc
    | ok d =>
      simp only [hrun, Except.bind] at h
      split at h
      · cases h
        exact ⟨_, rfl⟩
      · split at h
        · cases h
          exact ⟨_, rfl⟩
        · cases h

/-! ## What is checked when a component is built -/

theorem Call.suits_of_views {v : Vocabulary} {c : Call Class} (h : c.Valid v) {cls : Class}
    (hcls : .ofClass cls ∈ c.views) : cls.satisfies .view = true := by
  unfold views at hcls
  split at hcls
  · rename_i hverb
    obtain ⟨a, ha, he⟩ := List.mem_map.1 hcls
    have hsuits : ∀ a ∈ c.arguments, a.Suits .view := by
      have hvalid := h.2
      simpa [hverb] using hvalid
    cases a with
    | text s => cases he
    | ofClass cls' =>
      cases he
      exact hsuits _ ha
  · cases hcls

theorem Call.suits_of_viewModel? {v : Vocabulary} {c : Call Class} (h : c.Valid v) {cls : Class}
    (hcls : c.viewModel? = some (.ofClass cls)) : cls.satisfies .viewModel = true := by
  obtain ⟨verb, arguments⟩ := c
  unfold viewModel? at hcls
  split at hcls
  · rename_i a hverb hargs
    dsimp only at hverb hargs
    subst hverb hargs
    have hsuits : a.Suits .viewModel := by
      have hvalid := h.2
      simpa using hvalid
    cases a with
    | text s => cases hcls
    | ofClass cls' =>
      cases hcls
      exact hsuits
  · cases hcls

/-- The classes that a type declares suit the use that they are declared for. -/
theorem ComponentType.suits_of_built {t : ComponentType} {m : Metadata}
    (h : t.build.result = .ok m) :
    (∀ cls, .ofClass cls ∈ m.views → cls.satisfies .view = true) ∧
      ∀ cls, m.viewModel = some (.ofClass cls) → cls.satisfies .viewModel = true := by
  cases outcome_iff.2 h with
  | built valid last nonempty handled =>
    refine ⟨fun cls hcls => ?_, fun cls hcls => ?_⟩
    · obtain ⟨c, hc, hviews⟩ := List.mem_flatMap.1 hcls
      exact Call.suits_of_views (valid c hc) hviews
    · obtain ⟨c, hc, hmodel⟩ := List.mem_filterMap.1 (List.mem_of_getLast? hcls)
      exact Call.suits_of_viewModel? (valid c hc) hmodel

/-! ## Why resolutions fail -/

namespace Component

variable (c : Component) (config : Config)

/-- The paths at which a resolution looks for classes with a capability: those of declared
identifiers, of the name that stands for views that are not declared, and of the name that stands
for a view model that is not declared. -/
def lookups : Aspect → Capability → List String
  | _, .viewModel => c.modelPaths config
  | .model, .view => []
  | .views, .view => c.viewPaths config

/-- The classes that are declared as such suit their use. -/
structure Suitable : Prop where
  views : ∀ cls, .ofClass cls ∈ c.metadata.views → cls.satisfies .view = true
  viewModel : ∀ cls, c.metadata.viewModel = some (.ofClass cls) → cls.satisfies .viewModel = true

theorem suitable_of_built {c : Component} (h : c.type.build.result = .ok c.metadata) :
    c.Suitable :=
  ⟨(ComponentType.suits_of_built h).1, (ComponentType.suits_of_built h).2⟩

variable {c config}

/-- What stands for views that are not declared is an identifier. -/
theorem Suitable.declarations (hc : c.Suitable) {cls : Class}
    (h : .ofClass cls ∈ c.declarations config) : cls.satisfies .view = true := by
  unfold Component.declarations at h
  split at h
  · cases List.mem_singleton.1 h
  · exact hc.views cls h

theorem Suitable.modelDeclaration (hc : c.Suitable) {cls : Class}
    (h : c.modelDeclaration = .ofClass cls) : cls.satisfies .viewModel = true := by
  unfold Component.modelDeclaration at h
  cases hm : c.metadata.viewModel with
  | none =>
    rw [hm] at h
    cases h
  | some d =>
    rw [hm] at h
    exact hc.viewModel cls (hm.trans (congrArg some h))

end Component

/-- Something was recorded since `w`, and nothing after it but that resolutions for nodes of the
host have failed. -/
def World.EndsWith (w w' : World κ) (h : HostId) (o : Occurrence κ) : Prop :=
  ∃ failures since, w'.record = failures ++ o :: (since ++ w.record) ∧
    ∀ f ∈ failures, ∃ n a, f = .failed h n a

/-- Why resolving an aspect of a component fails between two worlds. -/
inductive Component.Failure (c : Component) (config : Config) (a : Aspect) (w w' : World κ) :
    Error → Prop where
  /-- The loader has no class at a path. -/
  | unloaded (capability : Capability) {path : String} {e : LoadError}
      (listed : path ∈ c.lookups config a capability)
      (answer : w.EndsWith w' c.host (.answered c.host path (.error e))) :
      c.Failure config a w w' (.resolution e)
  /-- The class that the loader has given at a path is of the wrong kind. -/
  | unfit (capability : Capability) {path : String} {cls : Class}
      (listed : path ∈ c.lookups config a capability)
      (answer : w.EndsWith w' c.host (.answered c.host path (.ok cls)))
      (lacks : cls.satisfies capability = false) :
      c.Failure config a w w' (.typeMismatch cls.name capability)
  /-- The definer of the view model does not name it. -/
  | unnamed {cls : Class} {e : Error}
      (declared : ∀ cls', c.modelDeclaration = .ofClass cls' → cls = cls')
      (definer : cls.buildModel.result = .error e) : c.Failure config a w w' e

/-- The contract of code that may do anything: what is recorded stays recorded. -/
def growing : Contract κ where
  inv _ := True
  step w w' := ∃ new, w'.record = new ++ w.record
  stops _ := True
  refl _ := ⟨[], rfl⟩
  trans := by
    rintro w₁ w₂ w₃ ⟨new, h⟩ ⟨new', h'⟩
    exact ⟨new' ++ new, by rw [h', h, List.append_assoc]⟩

theorem growing_kept {a : Act κ α}
    (h : ∀ w, a.Wp (fun _ => True) (fun _ w' => growing.step w w') w) : growing.Kept a :=
  fun w _ => (h w).mono fun _ _ hstep => ⟨trivial, hstep⟩

theorem growing_calming : growing.Calming (κ := κ) where
  calm _ hc := ⟨trivial, hc.record.imp fun _ hnew => hnew.1⟩
  discard h selection cause := growing_kept fun w => by
    rw [Act.wp_discard]
    split
    · trivial
    · exact ⟨_, rfl⟩
  stops _ := trivial

theorem growing_record (o : Occurrence κ) : growing.Kept (Act.record o) :=
  growing_kept fun _ => ⟨[o], rfl⟩

theorem growing_filing : growing.Filing (κ := κ) where
  toAttending := growing_calming.tended.toAttending
  freshInstance _ := growing_kept fun _ => ⟨[], rfl⟩
  updateEntry _ _ _ := growing_kept fun w => by
    rw [Act.wp_updateEntry]
    split
    · trivial
    · exact ⟨[], rfl⟩
  filed _ := growing_record _
  freshList _ := growing_kept fun _ => ⟨[], rfl⟩

/-- Whatever the code of an application does, the record grows. -/
theorem growing_keptBy (app : Application κ) (depth : Nat) :
    growing.KeptBy (app.code.under (app.exec depth)) := by
  have hsound : Contract.Sound (growing : Contract κ) app.host fun _ => True :=
    growing_calming.sound growing_filing.resolving
  have hcode : app.code.Uses fun _ => True := Callbacks.uses_of_forall (fun _ => trivial) app.code
  exact .under hcode fun hprog => hsound.exec hcode depth hprog

section

variable {w w' w'' : World κ} {h : HostId} {o : Occurrence κ}

theorem World.EndsWith.after (hs : growing.step w w') (ho : w'.EndsWith w'' h o) :
    w.EndsWith w'' h o := by
  obtain ⟨new, hnew⟩ := hs
  obtain ⟨failures, since, hr, hf⟩ := ho
  exact ⟨failures, since ++ new, by rw [hr, hnew, List.append_assoc], hf⟩

theorem World.EndsWith.failed (ho : w.EndsWith w' h o) (n : NodeId) (a : Aspect) :
    w.EndsWith { w' with record := .failed h n a :: w'.record } h o := by
  obtain ⟨failures, since, hr, hf⟩ := ho
  refine ⟨.failed h n a :: failures, since, by rw [hr]; rfl, fun f hmem => ?_⟩
  rcases List.mem_cons.1 hmem with rfl | hmem
  · exact ⟨n, a, rfl⟩
  · exact hf f hmem

namespace Component.Failure

variable {c : Component} {config : Config} {a : Aspect} {e : Error}

theorem after (hs : growing.step w w') (hf : c.Failure config a w' w'' e) :
    c.Failure config a w w'' e := by
  cases hf with
  | unloaded capability listed answer => exact .unloaded capability listed (answer.after hs)
  | unfit capability listed answer lacks => exact .unfit capability listed (answer.after hs) lacks
  | unnamed declared definer => exact .unnamed declared definer

/-- It is noted that the resolution has failed. -/
theorem failed (hf : c.Failure config a w w' e) (n : NodeId) (a' : Aspect) :
    c.Failure config a w { w' with record := .failed c.host n a' :: w'.record } e := by
  cases hf with
  | unloaded capability listed answer => exact .unloaded capability listed (answer.failed n a')
  | unfit capability listed answer lacks =>
    exact .unfit capability listed (answer.failed n a') lacks
  | unnamed declared definer => exact .unnamed declared definer

/-- Views are bound to a view model, so what keeps it from being resolved may keep them. -/
theorem views (hf : c.Failure config .model w w' e) : c.Failure config .views w w' e := by
  cases hf with
  | unloaded capability listed answer =>
    cases capability with
    | view => cases listed
    | viewModel => exact .unloaded .viewModel listed answer
  | unfit capability listed answer lacks =>
    cases capability with
    | view => cases listed
    | viewModel => exact .unfit .viewModel listed answer lacks
  | unnamed declared definer => exact .unnamed declared definer

end Component.Failure

end

/-! ## Resolutions -/

namespace Setting

section

variable (env : Setting κ)

/-- A class that suits its use is made into an instance. -/
theorem wp_instantiate_error (cls : Class) (capability : Capability) (w : World κ) :
    (env.instantiate cls capability).Wp (fun _ => True)
      (fun r w' => ∀ e, r = .error e → w' = w ∧
        cls.satisfies capability = false ∧ e = .typeMismatch cls.name capability) w := by
  unfold instantiate
  cases hf : cls.factory capability with
  | error e =>
    intro e' he
    cases he
    exact ⟨rfl, Class.factory_eq_error_iff.1 hf⟩
  | ok factory =>
    rw [Act.wp_map]
    exact (Act.Wp.any _ w).mono fun _ _ _ _ he => by cases he

/-- A view model of the right kind fails to be made only for want of a name. -/
theorem wp_makeModel_error (cls : Class) (w : World κ) :
    (env.makeModel cls).Wp (fun _ => True)
      (fun r w' => ∀ e, r = .error e →
        (w' = w ∧ cls.satisfies .viewModel = false ∧ e = .typeMismatch cls.name .viewModel) ∨
          cls.buildModel.result = .error e) w := by
  unfold makeModel
  cases hensure : cls.ensure .viewModel with
  | error e =>
    intro e' he
    cases he
    exact .inl ⟨rfl, Class.ensure_eq_error_iff.1 hensure⟩
  | ok _ =>
    refine (Act.Wp.any _ w).bind fun _ w₁ _ => ?_
    cases hname : cls.buildModel.result with
    | error e =>
      intro e' he
      cases he
      exact .inr rfl
    | ok name =>
      refine (env.wp_instantiate_error cls .viewModel w₁).bind fun r w₂ hr => ?_
      cases r with
      | ok inst => exact fun _ he => by cases he
      | error e =>
        -- the class has been checked already
        have hlacks := Class.ensure_eq_error_iff.2 ⟨(hr e rfl).2.1, rfl⟩
        cases hensure.symm.trans hlacks

end

variable {host : HostId → Host} {user : Callbacks (Act κ)} (hu : growing.KeptBy user)
  {c : Component}
include hu

/-- What the class of a declaration comes from. -/
theorem wp_classOf_answer (h : HostId) (path : String → String) (d : Declaration) (w : World κ) :
    (classOf ⟨host, user⟩ h path d).Wp (fun _ => True)
      (fun r w' => growing.step w w' ∧ match r.1 with
        | .ok cls => d = .ofClass cls ∨
            ∃ p ∈ d.paths path, w.EndsWith w' h (.answered h p (.ok cls))
        | .error e => ∃ p ∈ d.paths path, ∃ e', e = .resolution e' ∧
            w.EndsWith w' h (.answered h p (.error e'))) w := by
  cases d with
  | ofClass cls => exact ⟨growing.refl w, .inl rfl⟩
  | ident s =>
    have hask : growing.Kept (ask ⟨host, user⟩ (host h).loader (path s)) := by
      unfold ask
      cases (host h).loader with
      | registry classes => exact .pure _
      | code key => exact hu.load key (path s)
    have hload : (load ⟨host, user⟩ h (path s)).Wp (fun _ => True)
        (fun r w' => ∃ new, w'.record = .answered h (path s) r :: (new ++ w.record)) w := by
      refine (growing_record (.loaded h (path s)) w trivial).bind fun _ w₁ ⟨_, new₁, h₁⟩ => ?_
      refine (hask w₁ trivial).bind fun r w₂ ⟨_, new₂, h₂⟩ => ?_
      exact ⟨new₂ ++ new₁, by rw [List.append_assoc, ← h₁, ← h₂]⟩
    refine hload.bind fun r w' ⟨new, hr⟩ => ?_
    have hstep : growing.step w w' := ⟨.answered h (path s) r :: new, hr⟩
    have hend : w.EndsWith w' h (.answered h (path s) r) := ⟨[], new, hr, by simp⟩
    cases r with
    | ok cls => exact ⟨hstep, .inr ⟨_, List.mem_singleton.2 rfl, hend⟩⟩
    | error e => exact ⟨hstep, _, List.mem_singleton.2 rfl, e, rfl, hend⟩

theorem wp_instantiate_lacks (cls : Class) (capability : Capability) (w : World κ) :
    (instantiate ⟨host, user⟩ cls capability).Wp (fun _ => True)
      (fun r w' => growing.step w w' ∧ ∀ e, r = .error e → w' = w ∧
        cls.satisfies capability = false ∧ e = .typeMismatch cls.name capability) w :=
  (Act.Wp.and (growing_filing.instantiate hu cls capability w trivial)
    (wp_instantiate_error _ cls capability w)).mono fun _ _ hr => ⟨hr.1.2, hr.2⟩

theorem wp_makeModel_lacks (cls : Class) (w : World κ) :
    (makeModel ⟨host, user⟩ cls).Wp (fun _ => True)
      (fun r w' => growing.step w w' ∧ ∀ e, r = .error e →
        (w' = w ∧ cls.satisfies .viewModel = false ∧ e = .typeMismatch cls.name .viewModel) ∨
          cls.buildModel.result = .error e) w :=
  (Act.Wp.and (growing_filing.makeModel hu cls w trivial) (wp_makeModel_error _ cls w)).mono
    fun _ _ hr => ⟨hr.1.2, hr.2⟩

variable (hc : c.Suitable)
include hc

theorem wp_resolveModel_failure (w : World κ) :
    (resolveModel ⟨host, user⟩ c).Wp (fun _ => True)
      (fun r w' => growing.step w w' ∧ ∀ e, r.1 = .error e →
        c.Failure (host c.host).config .model w w' e) w := by
  unfold resolveModel
  refine (wp_classOf_answer hu c.host _ c.modelDeclaration w).bind
    fun ⟨found, paths⟩ w₁ ⟨hstep, hfound⟩ => ?_
  cases found with
  | error e =>
    obtain ⟨p, hp, e', rfl, hend⟩ := hfound
    refine ⟨hstep, fun _ he => ?_⟩
    cases he
    exact .unloaded .viewModel hp hend
  | ok cls =>
    refine (wp_makeModel_lacks hu cls w₁).bind fun r w₂ ⟨hstep', hr⟩ => ?_
    refine ⟨growing.trans hstep hstep', fun e he => ?_⟩
    rcases hr e he with ⟨rfl, hlacks, rfl⟩ | hname
    · rcases hfound with hdeclared | ⟨p, hp, hend⟩
      · have := hc.modelDeclaration hdeclared
        rw [hlacks] at this
        contradiction
      · exact .unfit .viewModel hp hend hlacks
    · refine .unnamed (fun cls' hdeclared => ?_) hname
      rcases hfound with hfound | ⟨p, hp, -⟩
      · exact Declaration.ofClass.inj (hfound.symm.trans hdeclared)
      · rw [hdeclared] at hp
        cases hp

theorem wp_resolveViews_failure (model : Option Model) {ds : List Declaration}
    (hds : ∀ d ∈ ds, d ∈ c.declarations (host c.host).config) (w : World κ) :
    (resolveViews ⟨host, user⟩ c.host model ds).Wp (fun _ => True)
      (fun r w' => growing.step w w' ∧ ∀ e, r.1 = .error e →
        c.Failure (host c.host).config .views w w' e) w := by
  induction ds generalizing w with
  | nil => exact ⟨growing.refl w, fun _ he => by cases he⟩
  | cons d rest ih =>
    rw [resolveViews_cons]
    have hd := hds d List.mem_cons_self
    have listed : ∀ p ∈ d.paths (host c.host).config.viewPath,
        p ∈ c.lookups (host c.host).config .views .view := fun p hp =>
      List.mem_flatMap.2 ⟨d, hd, hp⟩
    refine (wp_classOf_answer hu c.host _ d w).bind fun ⟨found, paths⟩ w₁ ⟨hstep, hfound⟩ => ?_
    cases found with
    | error e =>
      obtain ⟨p, hp, e', rfl, hend⟩ := hfound
      refine ⟨hstep, fun _ he => ?_⟩
      cases he
      exact .unloaded .view (listed p hp) hend
    | ok cls =>
      refine (wp_instantiate_lacks hu cls .view w₁).bind fun r w₂ ⟨hstep', hr⟩ => ?_
      have hsteps := growing.trans hstep hstep'
      cases r with
      | error e =>
        obtain ⟨rfl, hlacks, rfl⟩ := hr e rfl
        refine ⟨hsteps, fun _ he => ?_⟩
        cases he
        rcases hfound with rfl | ⟨p, hp, hend⟩
        · rw [hc.declarations hd] at hlacks
          contradiction
        · exact .unfit .view (listed p hp) hend hlacks
      | ok inst =>
        refine (ih (fun d' hd' => hds d' (List.mem_cons_of_mem _ hd')) w₂).bind
          fun ⟨views, more⟩ w₃ ⟨hstep'', hviews⟩ => ⟨growing.trans hsteps hstep'', fun e he => ?_⟩
        cases views with
        | ok views => cases he
        | error e' =>
          cases he
          exact (hviews _ rfl).after hsteps

theorem wp_modelWithSources_failure (id : ComponentId) (w : World κ) :
    (modelWithSources ⟨host, user⟩ id c).Wp (fun _ => True)
      (fun r w' => growing.step w w' ∧ ∀ e, r.1 = .error e →
        c.Failure (host c.host).config .model w w' e) w := by
  have hkept : growing.KeptFrom w (modelWithSources ⟨host, user⟩ id c) :=
    growing_filing.modelWithSources hu id c w trivial
  have hfailure : (modelWithSources ⟨host, user⟩ id c).Wp (fun _ => True)
      (fun r w' => ∀ e, r.1 = .error e → c.Failure (host c.host).config .model w w' e) w := by
    unfold modelWithSources
    refine (growing_calming.tended.read _ _ w trivial).bind fun node w₁ ⟨_, h₁⟩ => ?_
    refine (growing_calming.tended.read _ _ w₁ trivial).bind fun entry w₂ ⟨_, h₂⟩ => ?_
    cases entry.model with
    | some m => exact fun _ he => by cases he
    | none =>
      refine (growing_record (.resolving c.host node.id .model) w₂ trivial).bind
        fun _ w₃ ⟨_, h₃⟩ => ?_
      have hsteps := growing.trans (growing.trans h₁ h₂) h₃
      refine (wp_resolveModel_failure hu hc w₃).bind fun ⟨model, paths⟩ w₄ ⟨_, hr⟩ => ?_
      cases model with
      | error e =>
        intro _ he
        cases he
        exact ((hr e rfl).after hsteps).failed node.id .model
      | ok m =>
        exact (Act.Wp.any _ w₄).bind fun _ w₅ _ => fun _ he => by cases he
  exact (Act.Wp.and hkept hfailure).mono fun _ _ hr => ⟨hr.1.2, hr.2⟩

/-- Why there is no view model. -/
theorem wp_model_failure (id : ComponentId) (w : World κ) :
    (model ⟨host, user⟩ id c).Wp (fun _ => True)
      (fun r w' => ∀ e, r = .error e → c.Failure (host c.host).config .model w w' e) w :=
  (wp_modelWithSources_failure hu hc id w).bind fun _ _ hr => hr.2

/-- Why there are no views. -/
theorem wp_views_failure (id : ComponentId) (w : World κ) :
    (views ⟨host, user⟩ id c).Wp (fun _ => True)
      (fun r w' => ∀ e, r = .error e → c.Failure (host c.host).config .views w w' e) w := by
  have resolve : ∀ n model paths w₁, growing.step w w₁ →
      (views.resolve ⟨host, user⟩ c n model paths).Wp (fun _ => True)
        (fun r w' => ∀ e, r = .error e → c.Failure (host c.host).config .views w w' e) w₁ := by
    intro n model paths w₁ h₁
    refine (wp_resolveViews_failure hu hc model (fun _ hd => hd) w₁).bind
      fun ⟨resolved, more⟩ w₂ ⟨_, hr⟩ => ?_
    cases resolved with
    | error e =>
      intro _ he
      cases he
      exact ((hr e rfl).after h₁).failed n .views
    | ok list =>
      exact (Act.Wp.any _ w₂).bind fun _ w₃ _ => (Act.Wp.any _ w₃).bind fun _ w₄ _ =>
        fun _ he => by cases he
  rw [views_eq]
  refine (growing_calming.tended.read _ _ w trivial).bind fun node w₁ ⟨_, h₁⟩ => ?_
  refine (growing_calming.tended.read _ _ w₁ trivial).bind fun entry w₂ ⟨_, h₂⟩ => ?_
  cases entry.views with
  | some list => exact fun _ he => by cases he
  | none =>
    refine (growing_record (.resolving c.host node.id .views) w₂ trivial).bind
      fun _ w₃ ⟨_, h₃⟩ => ?_
    have hsteps := growing.trans (growing.trans h₁ h₂) h₃
    refine (wp_modelWithSources_failure hu hc id w₃).bind fun ⟨model, paths⟩ w₄ ⟨h₄, hr⟩ => ?_
    cases model with
    | ok m => exact resolve _ _ _ w₄ (growing.trans hsteps h₄)
    | error e =>
      by_cases he : e.isResolution = true
      · simp only [he, if_true]
        exact resolve _ _ _ w₄ (growing.trans hsteps h₄)
      · simp only [he]
        intro _ he'
        cases he'
        exact ((hr e rfl).after hsteps).views.failed node.id .views

end Setting

/-! ## Declared classes -/

/-- The setting with other loaders. -/
def Setting.withLoaders (env : Setting κ) (loader : HostId → Loader)
    (load : Nat → String → Act κ (Except LoadError Class)) : Setting κ where
  host h := { env.host h with loader := loader h }
  user := { env.user with load }

section

variable {env : Setting κ} {c : Component} {loader : HostId → Loader}
  {load : Nat → String → Act κ (Except LoadError Class)}

/-- A view model that is given as a class is made without a loader. -/
theorem Setting.modelWithSources_withLoaders (id : ComponentId)
    (hm : c.modelPaths (env.host c.host).config = []) :
    (env.withLoaders loader load).modelWithSources id c = env.modelWithSources id c := by
  have hresolve : (env.withLoaders loader load).resolveModel c = env.resolveModel c := by
    unfold Component.modelPaths Component.modelDeclaration at hm
    unfold resolveModel
    cases hd : c.metadata.viewModel.getD (.ident c.metadata.name) with
    | ofClass cls => rfl
    | ident s =>
      rw [hd] at hm
      cases hm
  unfold modelWithSources
  rw [hresolve]

/-- Views that are given as classes are made without a loader. -/
theorem Setting.resolveViews_withLoaders (h : HostId) (model : Option Model)
    {ds : List Declaration}
    (hds : ds.flatMap (Declaration.paths (env.host h).config.viewPath) = []) :
    (env.withLoaders loader load).resolveViews h model ds = env.resolveViews h model ds := by
  induction ds with
  | nil => rfl
  | cons d rest ih =>
    rw [List.flatMap_cons, List.append_eq_nil_iff] at hds
    cases d with
    | ident s => cases hds.1
    | ofClass cls =>
      rw [resolveViews_cons, resolveViews_cons, ih hds.2]
      rfl

theorem Setting.views_withLoaders (id : ComponentId)
    (hm : c.modelPaths (env.host c.host).config = [])
    (hv : c.viewPaths (env.host c.host).config = []) :
    (env.withLoaders loader load).views id c = env.views id c := by
  have hresolve : ∀ n model paths,
      views.resolve (env.withLoaders loader load) c n model paths =
        views.resolve env c n model paths := by
    intro n model paths
    have hlist : (env.withLoaders loader load).resolveViews c.host model
        (c.declarations ((env.withLoaders loader load).host c.host).config) =
          env.resolveViews c.host model (c.declarations (env.host c.host).config) :=
      resolveViews_withLoaders c.host model hv
    unfold views.resolve
    dsimp only
    rw [hlist]
  rw [views_eq, views_eq]
  simp only [modelWithSources_withLoaders id hm, hresolve]

end

namespace Component

variable {c : Component} {config : Config} {a : Aspect} {w w' : World κ}

theorem modelPaths_of_ofClass {cls : Class} (h : c.modelDeclaration = .ofClass cls) :
    c.modelPaths config = [] := by
  rw [modelPaths, h]
  rfl

theorem viewPaths_of_ofClass (h : ∀ d ∈ c.declarations config, ∃ view, d = .ofClass view) :
    c.viewPaths config = [] := by
  refine List.flatMap_eq_nil_iff.2 fun d hd => ?_
  obtain ⟨view, rfl⟩ := h d hd
  rfl

/-- A class of the wrong kind was loaded. -/
theorem Failure.mismatch {name : String} {capability : Capability}
    (hf : c.Failure config a w w' (.typeMismatch name capability)) :
    ∃ path ∈ c.lookups config a capability, ∃ cls,
      w.EndsWith w' c.host (.answered c.host path (.ok cls)) ∧ cls.name = name ∧
        cls.satisfies capability = false := by
  cases hf with
  | unfit _ listed answer lacks => exact ⟨_, listed, _, answer, rfl, lacks⟩
  | unnamed _ definer =>
    obtain ⟨-, ce, he⟩ := Class.buildModel_error definer
    cases he

/-- Where no path is looked up, the view model has no name. -/
theorem Failure.unnamed_of_ofClass {cls : Class} {e : Error} (hf : c.Failure config a w w' e)
    (hdeclared : c.modelDeclaration = .ofClass cls) (hviews : c.viewPaths config = []) :
    cls.buildModel.result = .error e := by
  have unlisted : ∀ capability, c.lookups config a capability = [] := by
    intro capability
    cases capability with
    | viewModel => exact modelPaths_of_ofClass hdeclared
    | view =>
      cases a with
      | model => rfl
      | views => exact hviews
  cases hf with
  | unloaded _ listed _ =>
    rw [unlisted] at listed
    cases listed
  | unfit _ listed _ _ =>
    rw [unlisted] at listed
    cases listed
  | unnamed declared definer => exact declared cls hdeclared ▸ definer

end Component

/-- **Classes of the wrong kind were loaded.** A component that was built is asked for its view
model or its views, whatever is stored, whatever the loaders are and whatever other code does
meanwhile. If a class is of the wrong kind, then the loader has given a class of this name in this
call, at one of the paths at which a class with the capability is looked up, and the class does not
have the capability; nothing happened after that. So where the view model and the views are
declared as classes, the loaders make no difference, and all that can go wrong is that the definer
of the view model does not name it. -/
theorem mismatch_of_built (app : Application κ) (depth : Nat) {c : Component}
    (hbuilt : c.type.build.result = .ok c.metadata) (id : ComponentId) (w : World κ) :
    let env : Setting κ := ⟨app.host, app.code.under (app.exec depth)⟩
    let config := (app.host c.host).config
    (∀ name capability w',
      ((env.model id c).run w = .ok (.error (.typeMismatch name capability), w') →
        ∃ path ∈ c.lookups config .model capability, ∃ cls,
          w.EndsWith w' c.host (.answered c.host path (.ok cls)) ∧ cls.name = name ∧
            cls.satisfies capability = false) ∧
      ((env.views id c).run w = .ok (.error (.typeMismatch name capability), w') →
        ∃ path ∈ c.lookups config .views capability, ∃ cls,
          w.EndsWith w' c.host (.answered c.host path (.ok cls)) ∧ cls.name = name ∧
            cls.satisfies capability = false)) ∧
    ∀ cls, c.metadata.viewModel = some (.ofClass cls) →
      (∀ d ∈ c.declarations config, ∃ view, d = .ofClass view) →
      (∀ loader load, (env.withLoaders loader load).model id c = env.model id c ∧
        (env.withLoaders loader load).views id c = env.views id c) ∧
      ∀ e w', ((env.model id c).run w = .ok (.error e, w') ∨
          (env.views id c).run w = .ok (.error e, w')) →
        cls.buildModel.result = .error e ∧ (∃ definer, cls.definer = some definer) ∧
          ∃ ce, e = .configuration ce := by
  intro env config
  have hc := Component.suitable_of_built hbuilt
  have hu := growing_keptBy app depth
  have hmodel : (env.model id c).Wp (fun _ => True)
      (fun r w' => ∀ e, r = .error e → c.Failure config .model w w' e) w :=
    Setting.wp_model_failure hu hc id w
  have hviews : (env.views id c).Wp (fun _ => True)
      (fun r w' => ∀ e, r = .error e → c.Failure config .views w w' e) w :=
    Setting.wp_views_failure hu hc id w
  refine ⟨fun name capability w' => ⟨fun hrun => (hmodel.of_run hrun _ rfl).mismatch,
    fun hrun => (hviews.of_run hrun _ rfl).mismatch⟩, fun cls hcls hds => ?_⟩
  have hdeclared : c.modelDeclaration = .ofClass cls := by
    rw [Component.modelDeclaration, hcls, Option.getD_some]
  have hm : c.modelPaths (env.host c.host).config = [] := Component.modelPaths_of_ofClass hdeclared
  have hv : c.viewPaths (env.host c.host).config = [] := Component.viewPaths_of_ofClass hds
  refine ⟨fun loader load => ⟨?_, env.views_withLoaders id hm hv⟩, fun e w' hrun => ?_⟩
  · unfold Setting.model
    rw [env.modelWithSources_withLoaders id hm]
  · have herror : cls.buildModel.result = .error e := by
      rcases hrun with hrun | hrun
      · exact (hmodel.of_run hrun _ rfl).unnamed_of_ofClass hdeclared hv
      · exact (hviews.of_run hrun _ rfl).unnamed_of_ofClass hdeclared hv
    exact ⟨herror, Class.buildModel_error herror⟩

namespace Misfit

def label : Class := .plain 0 "Label"
def body : Class := .view 1 "Body" ⟨1, "Body"⟩

/-- A view model whose definer gives it no name. -/
def nameless : Class := (Class.viewModel 2 "State" ⟨2, "State"⟩).withDefiner 3 ⟨"State", []⟩

/-- The loader finds a class that is no view model where one is looked up. -/
def application : Application ⟨Unit, Empty⟩ where
  host _ := { loader := .registry ⟨.ofList [("view_models/components/state", label)]⟩ }
  code := .idle

def setting : Setting ⟨Unit, Empty⟩ :=
  ⟨application.host, application.code.under (application.exec 0)⟩

/-- A component that names its view model by an identifier. -/
def page : Component where
  type := ⟨⟨"Page", some ⟨"Page", [⟨"name", [.text "page"]⟩,
    ⟨"viewmodel", [.text "state"]⟩]⟩, ∅⟩, []⟩
  metadata := ⟨"page", [], some (.ident "state"), []⟩
  host := 0
  node := ⟨1, ∅⟩

/-- A component that declares classes only. -/
def article : Component where
  type := ⟨⟨"Article", some ⟨"Article", [⟨"name", [.text "article"]⟩,
    ⟨"viewmodel", [.ofClass nameless]⟩, ⟨"views", [.ofClass body]⟩]⟩, ∅⟩, []⟩
  metadata := ⟨"article", [.ofClass body], some (.ofClass nameless), []⟩
  host := 0
  node := ⟨2, ∅⟩

end Misfit

/-- A loaded class that is no view model, and a declared view model without a name. -/
theorem mismatch_of_built_misfit :
    Misfit.page.type.build.result = .ok Misfit.page.metadata ∧
    (∃ w, (Misfit.setting.model 0 Misfit.page).run (World.start ∅ ()) =
        .ok (.error (.typeMismatch "Label" .viewModel), w) ∧
      ∃ path ∈ Misfit.page.lookups {} .model .viewModel, ∃ cls,
        (World.start ∅ ()).EndsWith w 0 (.answered 0 path (.ok cls)) ∧ cls.name = "Label" ∧
          cls.satisfies .viewModel = false) ∧
    Misfit.article.type.build.result = .ok Misfit.article.metadata ∧
    ∃ e w, (Misfit.setting.views 1 Misfit.article).run (World.start ∅ ()) = .ok (.error e, w) ∧
      Misfit.nameless.buildModel.result = .error e := by
  have hpage : Misfit.page.type.build.result = .ok Misfit.page.metadata := rfl
  have harticle : Misfit.article.type.build.result = .ok Misfit.article.metadata := rfl
  obtain ⟨w, hrun⟩ : ∃ w, (Misfit.setting.model 0 Misfit.page).run (World.start ∅ ()) =
      .ok (.error (.typeMismatch "Label" .viewModel), w) := ⟨_, rfl⟩
  obtain ⟨w', hrun'⟩ : ∃ w, (Misfit.setting.views 1 Misfit.article).run (World.start ∅ ()) =
      .ok (.error (.configuration (.missingName "State")), w) := ⟨_, rfl⟩
  have hloaded := mismatch_of_built Misfit.application 0 hpage 0 (World.start ∅ ())
  have hnamed := mismatch_of_built Misfit.application 0 harticle 1 (World.start ∅ ())
  refine ⟨hpage, ⟨w, hrun, (hloaded.1 _ _ w).1 hrun⟩, harticle, _, w', hrun', ?_⟩
  have hviews : ∀ d ∈ Misfit.article.declarations (Misfit.application.host 0).config,
      ∃ view, d = .ofClass view := fun d hd => ⟨Misfit.body, List.mem_singleton.1 hd⟩
  exact ((hnamed.2 Misfit.nameless rfl hviews).2 _ w' (.inr hrun')).1

end LayeredViews
