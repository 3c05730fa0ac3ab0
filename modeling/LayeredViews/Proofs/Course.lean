import LayeredViews.Proofs.Anew
import LayeredViews.Proofs.Mismatch

/-!
# The course of a resolution

What a resolution does, step by step, when nothing comes between: which paths the loader is asked
for, which definer runs, which instances are made, and how it ends.

* `Declaration.Looked`, `Component.ModelCourse`, `ViewCourse`, `Component.Course`: what is done to
  find a class, the view model, a list of views, and the views of a component; first to last, with
  the result.
* `ViewCourse.order`, `Component.Course.order`: the paths that the loader is asked for and the
  instances that are made, in order; each declaration gets an instance of its own.
* `Component.ModelCourse.anew`, `ViewCourse.anew`: where the loader answers by a function, the
  result is that of resolving anew.
* `Component.Course.again`: a second attempt fails as the first one did.
-/

namespace LayeredViews

variable {κ : Client}

/-- The path that a loader was asked for. -/
def Occurrence.asks : Occurrence κ → Option String
  | .loaded _ path => some path
  | _ => none

/-- What was made, and what for. -/
def Occurrence.makes : Occurrence κ → Option (Capability × Instance)
  | .made capability inst => some (capability, inst)
  | _ => none

/-- The paths that loaders were asked for, in the order of the trace. -/
def asked (trace : List (Occurrence κ)) : List String := trace.filterMap Occurrence.asks

/-- The instances that were made, in the order of the trace. -/
def madeIn (trace : List (Occurrence κ)) : List (Capability × Instance) :=
  trace.filterMap Occurrence.makes

@[simp] theorem asked_append (first more : List (Occurrence κ)) :
    asked (first ++ more) = asked first ++ asked more := List.filterMap_append

@[simp] theorem madeIn_append (first more : List (Occurrence κ)) :
    madeIn (first ++ more) = madeIn first ++ madeIn more := List.filterMap_append

@[simp] theorem asked_defined (ran : List String) :
    asked (ran.map (Occurrence.defined (κ := κ))) = [] := by
  rw [asked, List.filterMap_map]
  exact List.filterMap_eq_nil_iff.2 fun _ _ => rfl

@[simp] theorem madeIn_defined (ran : List String) :
    madeIn (ran.map (Occurrence.defined (κ := κ))) = [] := by
  rw [madeIn, List.filterMap_map]
  exact List.filterMap_eq_nil_iff.2 fun _ _ => rfl

@[simp] theorem asked_made (capability : Capability) (inst : Instance)
    (trace : List (Occurrence κ)) : asked (.made capability inst :: trace) = asked trace := rfl

@[simp] theorem madeIn_made (capability : Capability) (inst : Instance)
    (trace : List (Occurrence κ)) :
    madeIn (.made capability inst :: trace) = (capability, inst) :: madeIn trace := rfl

/-- Every answer of the loader of a host was what `found` says. -/
def AnsweredBy (h : HostId) (found : String → Except LoadError Class)
    (trace : List (Occurrence κ)) : Prop :=
  ∀ path r, .answered h path r ∈ trace → r = found path

/-- The loader may answer so: a registry answers what is registered, code answers anything. -/
def Loader.MayAnswer (loader : Loader) (path : String) (r : Except LoadError Class) : Prop :=
  ∀ classes, loader = .registry classes → r = classes.load path

/-! ## What is done -/

/-- The class of a declaration is given, or the loader is asked for it. -/
inductive Declaration.Looked (h : HostId) (loader : Loader) (path : String → String) :
    Declaration → List (Occurrence κ) → Except LoadError Class → Prop
  | given (cls : Class) : Looked h loader path (.ofClass cls) [] (.ok cls)
  | answered (s : String) {r : Except LoadError Class} (answer : loader.MayAnswer (path s) r) :
      Looked h loader path (.ident s) [.loaded h (path s), .answered h (path s) r] r

/-- What is done to resolve the view model of a component, where instances are numbered from `n`
on. -/
inductive Component.ModelCourse (c : Component) (host : Host) (n : InstanceId) :
    List (Occurrence κ) → Except Error Model → Prop
  | unloaded {look : List (Occurrence κ)} {e : LoadError}
      (found : c.modelDeclaration.Looked c.host host.loader host.config.viewModelPath look
        (.error e)) :
      ModelCourse c host n look (.error (.resolution e))
  /-- The class is no view model. -/
  | unfit {look : List (Occurrence κ)} {cls : Class}
      (found : c.modelDeclaration.Looked c.host host.loader host.config.viewModelPath look
        (.ok cls))
      (lacks : cls.satisfies .viewModel = false) :
      ModelCourse c host n look (.error (.typeMismatch cls.name .viewModel))
  /-- The definer fails, or it gives no name. -/
  | unnamed {look : List (Occurrence κ)} {cls : Class} {e : ConfigurationError}
      (found : c.modelDeclaration.Looked c.host host.loader host.config.viewModelPath look
        (.ok cls))
      (fits : cls.satisfies .viewModel = true)
      (nameless : cls.buildModel.result = .error (.configuration e)) :
      ModelCourse c host n (look ++ cls.buildModel.ran.map .defined) (.error (.configuration e))
  | made {look : List (Occurrence κ)} {cls : Class} {name : String} {factory : Factory}
      (found : c.modelDeclaration.Looked c.host host.loader host.config.viewModelPath look
        (.ok cls))
      (fits : cls.satisfies .viewModel = true)
      (named : cls.buildModel.result = .ok name) (suits : cls.factory .viewModel = .ok factory) :
      ModelCourse c host n
        (look ++ cls.buildModel.ran.map .defined ++ [.made .viewModel ⟨n, factory⟩])
        (.ok ⟨name, n, factory⟩)

/-- What is done to resolve declared views, first to last and up to the first failure, where
instances are numbered from `n` on. -/
inductive ViewCourse (h : HostId) (host : Host) (model : Option Model) :
    InstanceId → List Declaration → List (Occurrence κ) → Except Error (List ResolvedView) → Prop
  | done {n : InstanceId} : ViewCourse h host model n [] [] (.ok [])
  | unloaded {n : InstanceId} {d : Declaration} {rest : List Declaration}
      {look : List (Occurrence κ)} {e : LoadError}
      (found : d.Looked h host.loader host.config.viewPath look (.error e)) :
      ViewCourse h host model n (d :: rest) look (.error (.resolution e))
  /-- The class is no view. -/
  | unfit {n : InstanceId} {d : Declaration} {rest : List Declaration}
      {look : List (Occurrence κ)} {cls : Class}
      (found : d.Looked h host.loader host.config.viewPath look (.ok cls))
      (lacks : cls.satisfies .view = false) :
      ViewCourse h host model n (d :: rest) look (.error (.typeMismatch cls.name .view))
  | made {n : InstanceId} {d : Declaration} {rest : List Declaration}
      {look more : List (Occurrence κ)} {cls : Class} {factory : Factory}
      {r : Except Error (List ResolvedView)}
      (found : d.Looked h host.loader host.config.viewPath look (.ok cls))
      (suits : cls.factory .view = .ok factory)
      (others : ViewCourse h host model (n + 1) rest more r) :
      ViewCourse h host model n (d :: rest) (look ++ .made .view ⟨n, factory⟩ :: more)
        (r.map (⟨d.label, ⟨n, factory⟩, model⟩ :: ·))

/-- What is done to resolve the views of a component for a node that has none stored. The node has
`stored` as its view model before, and gains `gained`. -/
inductive Component.Course (c : Component) (host : Host) (n : InstanceId) :
    (stored gained : Option Model) → List (Occurrence κ) → Except Error (List ResolvedView) → Prop
  /-- The view model that is stored is used. -/
  | stored {m : Model} {trace : List (Occurrence κ)} {r : Except Error (List ResolvedView)}
      (views : ViewCourse c.host host (some m) n (c.declarations host.config) trace r) :
      Course c host n (some m) none trace r
  /-- A view model is resolved. -/
  | resolved {m : Model} {first more : List (Occurrence κ)} {r : Except Error (List ResolvedView)}
      (model : c.ModelCourse host n first (.ok m))
      (views : ViewCourse c.host host (some m) (n + 1) (c.declarations host.config) more r) :
      Course c host n none (some m) (first ++ more) r
  /-- No view model could be loaded: there is none. -/
  | unloaded {e : LoadError} {first more : List (Occurrence κ)}
      {r : Except Error (List ResolvedView)}
      (model : c.ModelCourse host n first (.error (.resolution e)))
      (views : ViewCourse c.host host none n (c.declarations host.config) more r) :
      Course c host n none none (first ++ more) r
  /-- The view model is wrong, and nothing else is done. -/
  | refused {e : Error} {first : List (Occurrence κ)}
      (model : c.ModelCourse host n first (.error e)) (wrong : e.isResolution = false) :
      Course c host n none none first (.error e)

/-! ## What is asked for and what is made -/

section

variable {h : HostId} {host : Host} {n : InstanceId} {trace : List (Occurrence κ)}

namespace Declaration.Looked

variable {loader : Loader} {path : String → String} {d : Declaration}
  {r : Except LoadError Class}

/-- The loader is asked once for an identifier, and not for a class. -/
theorem asks (hl : d.Looked h loader path trace r) : asked trace = d.paths path := by
  cases hl with
  | given cls => rfl
  | answered s answer => rfl

theorem makes (hl : d.Looked h loader path trace r) : madeIn trace = [] := by
  cases hl with
  | given cls => rfl
  | answered s answer => rfl

/-- What is found is what the loader answers. -/
theorem classAnew (hl : d.Looked h loader path trace r) {found : String → Except LoadError Class}
    (hf : AnsweredBy h found trace) : d.classAnew found path = r.mapError .resolution := by
  cases hl with
  | given cls => rfl
  | answered s answer =>
    have hr : r = found (path s) := hf _ _ (List.mem_cons_of_mem _ List.mem_cons_self)
    rw [hr]
    rfl

end Declaration.Looked

namespace Component.ModelCourse

variable {c : Component} {r : Except Error Model}

/-- The loader is asked for the view model, and for nothing else. -/
theorem asks (hc : c.ModelCourse host n trace r) : asked trace = c.modelPaths host.config := by
  cases hc with
  | unloaded found => exact found.asks
  | unfit found lacks => exact found.asks
  | unnamed found fits nameless =>
    rw [asked_append, found.asks, asked_defined, List.append_nil]
    rfl
  | made found fits named suits =>
    rw [asked_append, asked_append, found.asks, asked_defined, List.append_nil]
    exact List.append_nil _

/-- A view model is made if it can be resolved, and nothing else is. -/
theorem makes (hc : c.ModelCourse host n trace r) :
    madeIn trace = r.toOption.toList.map fun m => (.viewModel, m.inst) := by
  cases hc with
  | unloaded found => exact found.makes
  | unfit found lacks => exact found.makes
  | unnamed found fits nameless =>
    rw [madeIn_append, found.makes, madeIn_defined]
    rfl
  | made found fits named suits =>
    rw [madeIn_append, madeIn_append, found.makes, madeIn_defined]
    rfl

theorem id_eq {m : Model} (hc : c.ModelCourse host n trace r) (hr : r = .ok m) : m.inst.id = n := by
  cases hc with
  | made found fits named suits =>
    cases hr
    rfl
  | _ => cases hr

end Component.ModelCourse

/-- The first `k` of the declarations are come to. Each gets one of the instances `made`, except
that a failure is that of the last one. -/
def ComesTo (ds : List Declaration) (k : Nat) (made : List Instance) :
    Except Error (List ResolvedView) → Prop
  | .ok views => k = ds.length ∧ made.length = k ∧ views.map ResolvedView.inst = made
  | .error _ => k ≤ ds.length ∧ made.length = k - 1

namespace ViewCourse

variable {model : Option Model} {ds : List Declaration} {r : Except Error (List ResolvedView)}

/-- The loader is asked once for each identifier among the declarations that are come to, and each
of them gets an instance with a number of its own, unless it fails. -/
theorem order (hc : ViewCourse h host model n ds trace r) :
    ∃ (k : Nat) (made : List Instance),
      asked trace = (ds.take k).flatMap (Declaration.paths host.config.viewPath) ∧
      madeIn trace = made.map (.view, ·) ∧ made.map Instance.id = List.range' n made.length ∧
      ComesTo ds k made r ∧ (r.isOk = false → 0 < k) := by
  induction hc with
  | done => exact ⟨0, [], rfl, rfl, rfl, ⟨rfl, rfl, rfl⟩, nofun⟩
  | unloaded found =>
    exact ⟨1, [], by simpa using found.asks, found.makes, rfl, ⟨Nat.succ_pos _, rfl⟩,
      fun _ => Nat.one_pos⟩
  | unfit found lacks =>
    exact ⟨1, [], by simpa using found.asks, found.makes, rfl, ⟨Nat.succ_pos _, rfl⟩,
      fun _ => Nat.one_pos⟩
  | @made n d rest look more cls factory r found _ others ih =>
    obtain ⟨k, made, hasked, hmade, hids, hcome, hpos⟩ := ih
    refine ⟨k + 1, ⟨n, factory⟩ :: made, ?_, ?_, ?_, ?_, fun _ => Nat.succ_pos k⟩
    · rw [asked_append, found.asks, asked_made, hasked, List.take_succ_cons, List.flatMap_cons]
    · rw [madeIn_append, found.makes, madeIn_made, hmade]
      rfl
    · simpa [List.range'_succ] using hids
    · cases r with
      | error e =>
        exact ⟨Nat.succ_le_succ hcome.1,
          (congrArg Nat.succ hcome.2).trans (Nat.succ_pred_eq_of_pos (hpos rfl))⟩
      | ok views =>
        obtain ⟨hk, hlength, hviews⟩ := hcome
        exact ⟨congrArg Nat.succ hk, congrArg Nat.succ hlength, congrArg (_ :: ·) hviews⟩

/-- Resolved views are labelled as they are declared, and bound to the view model. -/
theorem labels {views : List ResolvedView} (hc : ViewCourse h host model n ds trace (.ok views)) :
    views.map ResolvedView.label = ds.map Declaration.label ∧ ∀ x ∈ views, x.model = model := by
  generalize hr : (Except.ok views : Except Error (List ResolvedView)) = r at hc
  induction hc generalizing views with
  | done =>
    cases hr
    exact ⟨rfl, nofun⟩
  | unloaded found => cases hr
  | unfit found lacks => cases hr
  | @made n d rest look more cls factory r found _ others ih =>
    cases r with
    | error e => cases hr
    | ok others =>
      cases hr
      obtain ⟨hlabels, hmodel⟩ := ih rfl
      exact ⟨congrArg (_ :: ·) hlabels, List.forall_mem_cons.2 ⟨rfl, hmodel⟩⟩

end ViewCourse

namespace Component.Course

variable {c : Component} {stored gained : Option Model} {r : Except Error (List ResolvedView)}

/-- The loader is asked for the view model unless one is stored, then for the declared views that
are come to. A view model is made if the node gains one, then views are. -/
theorem order (hc : c.Course host n stored gained trace r) :
    ∃ (k : Nat) (made : List Instance),
      asked trace = (if stored = none then c.modelPaths host.config else []) ++
        ((c.declarations host.config).take k).flatMap (Declaration.paths host.config.viewPath) ∧
      madeIn trace = gained.toList.map (fun m => (.viewModel, m.inst)) ++ made.map (.view, ·) ∧
      (madeIn trace).map (fun x => x.2.id) = List.range' n (madeIn trace).length ∧
      ComesTo (c.declarations host.config) k made r := by
  cases hc with
  | stored views =>
    obtain ⟨k, made, hasked, hmade, hids, hcome, -⟩ := views.order
    refine ⟨k, made, hasked, hmade, ?_, hcome⟩
    rw [hmade, List.map_map, List.length_map]
    exact hids
  | @resolved m first more _ model views =>
    obtain ⟨k, made, hasked, hmade, hids, hcome, -⟩ := views.order
    have hall : madeIn (first ++ more) = (.viewModel, m.inst) :: made.map (.view, ·) := by
      rw [madeIn_append, model.makes, hmade]
      rfl
    refine ⟨k, made, ?_, hall, ?_, hcome⟩
    · rw [asked_append, model.asks, hasked, if_pos rfl]
    · rw [hall, List.map_cons, model.id_eq rfl, List.map_map, List.length_cons, List.length_map,
        List.range'_succ]
      exact congrArg (n :: ·) hids
  | @unloaded e first more _ model views =>
    obtain ⟨k, made, hasked, hmade, hids, hcome, -⟩ := views.order
    have hall : madeIn (first ++ more) = made.map (.view, ·) := by
      rw [madeIn_append, model.makes, hmade]
      rfl
    refine ⟨k, made, ?_, hall, ?_, hcome⟩
    · rw [asked_append, model.asks, hasked, if_pos rfl]
    · rw [hall, List.map_map, List.length_map]
      exact hids
  | refused model wrong =>
    refine ⟨0, [], ?_, model.makes, ?_, Nat.zero_le _, rfl⟩
    · rw [model.asks, if_pos rfl]
      exact (List.append_nil _).symm
    · rw [model.makes]
      rfl

/-- Resolved views are labelled as they are declared, and bound to the view model of the node. -/
theorem labels {views : List ResolvedView}
    (hc : c.Course host n stored gained trace (.ok views)) :
    views.map ResolvedView.label = (c.declarations host.config).map Declaration.label ∧
      ∀ x ∈ views, x.model = stored.or gained := by
  cases hc with
  | stored views => exact views.labels
  | resolved model views => exact views.labels
  | unloaded model views => exact views.labels

end Component.Course

/-! ## What comes of it -/

section

variable {found : String → Except LoadError Class}

theorem AnsweredBy.left {first more : List (Occurrence κ)}
    (hf : AnsweredBy h found (first ++ more)) : AnsweredBy h found first :=
  fun path r hmem => hf path r (List.mem_append_left _ hmem)

theorem AnsweredBy.right {first more : List (Occurrence κ)}
    (hf : AnsweredBy h found (first ++ more)) : AnsweredBy h found more :=
  fun path r hmem => hf path r (List.mem_append_right _ hmem)

theorem Class.ensure_of_satisfies {cls : Class} {capability : Capability}
    (h : cls.satisfies capability = true) : cls.ensure capability = .ok () := by
  rw [ensure, if_pos h]

/-- The view model that is resolved is the one that resolving anew gives. -/
theorem Component.ModelCourse.anew {c : Component} {r : Except Error Model}
    (hc : c.ModelCourse host n trace r) (hf : AnsweredBy c.host found trace) :
    r.map Model.anonymous = c.modelAnew host.config found := by
  unfold Component.modelAnew
  cases hc with
  | unloaded look =>
    rw [look.classAnew hf]
    rfl
  | @unfit cls _ look lacks =>
    rw [look.classAnew hf]
    show _ = Class.modelAnew _
    rw [Class.modelAnew, Class.ensure_eq_error_iff.2 ⟨lacks, rfl⟩]
    rfl
  | unnamed look fits nameless =>
    rw [look.classAnew hf.left]
    show _ = Class.modelAnew _
    rw [Class.modelAnew, Class.ensure_of_satisfies fits, nameless]
    rfl
  | made look fits named suits =>
    rw [look.classAnew hf.left.left]
    show _ = Class.modelAnew _
    rw [Class.modelAnew, Class.ensure_of_satisfies fits, named, Class.instanceAnew, suits]
    rfl

/-- The views that are resolved are those that resolving anew gives. -/
theorem ViewCourse.anew {model : Option Model} {ds : List Declaration}
    {r : Except Error (List ResolvedView)} (hc : ViewCourse h host model n ds trace r)
    (hf : AnsweredBy h found trace) :
    r.map (List.map ResolvedView.anonymous) =
      viewsAnew found host.config.viewPath (model.map Model.anonymous) ds := by
  induction hc with
  | done => rfl
  | unloaded look =>
    rw [viewsAnew_cons, look.classAnew hf]
    rfl
  | unfit look lacks =>
    rw [viewsAnew_cons, look.classAnew hf]
    show _ = Class.instanceAnew _ _ >>= _
    rw [Class.instanceAnew, Class.factory_eq_error_iff.2 ⟨lacks, rfl⟩]
    rfl
  | @made n d rest look more cls factory r looked suits others ih =>
    rw [viewsAnew_cons, looked.classAnew hf.left]
    show _ = Class.instanceAnew _ _ >>= _
    rw [Class.instanceAnew, suits, ← ih fun path r hmem =>
      hf.right path r (List.mem_cons_of_mem _ hmem)]
    cases r with
    | ok views => rfl
    | error e => rfl

/-- Two attempts at the same views fail in the same way. -/
theorem ViewCourse.same_error {model : Option Model} {ds : List Declaration} {e : Error}
    (hc : ViewCourse h host model n ds trace (.error e)) (hf : AnsweredBy h found trace)
    {n' : InstanceId} {trace' : List (Occurrence κ)} {r' : Except Error (List ResolvedView)}
    (hc' : ViewCourse h host model n' ds trace' r') (hf' : AnsweredBy h found trace') :
    r' = .error e := by
  have hsame : r'.map (List.map ResolvedView.anonymous) = .error e :=
    (hc'.anew hf').trans (hc.anew hf).symm
  cases r' with
  | ok views => cases hsame
  | error e' =>
    cases hsame
    rfl

/-- Two attempts at the view model have the same result, but for the instance. -/
theorem Component.ModelCourse.same {c : Component} {r : Except Error Model}
    (hc : c.ModelCourse host n trace r) (hf : AnsweredBy c.host found trace) {n' : InstanceId}
    {trace' : List (Occurrence κ)} {r' : Except Error Model}
    (hc' : c.ModelCourse host n' trace' r') (hf' : AnsweredBy c.host found trace') :
    r'.map Model.anonymous = r.map Model.anonymous :=
  (hc'.anew hf').trans (hc.anew hf).symm

/-- **The second attempt.** Where a resolution has failed, and the loader answers as before, the
next one fails in the same way, and gains nothing: the view model that the first one may have gained
is used. -/
theorem Component.Course.again {c : Component} {stored gained : Option Model} {e : Error}
    (hc : c.Course host n stored gained trace (.error e)) (hf : AnsweredBy c.host found trace)
    {n' : InstanceId} {gained' : Option Model} {trace' : List (Occurrence κ)}
    {r' : Except Error (List ResolvedView)}
    (hc' : c.Course host n' (stored.or gained) gained' trace' r')
    (hf' : AnsweredBy c.host found trace') : r' = .error e ∧ gained' = none := by
  cases hc with
  | stored views =>
    cases hc' with
    | stored views' => exact ⟨views.same_error hf views' hf', rfl⟩
  | resolved model views =>
    cases hc' with
    | stored views' => exact ⟨views.same_error hf.right views' hf', rfl⟩
  | unloaded model views =>
    cases hc' with
    | resolved model' views' => cases model.same hf.left model' hf'.left
    | unloaded model' views' => exact ⟨views.same_error hf.right views' hf'.right, rfl⟩
    | refused model' wrong =>
      cases model.same hf.left model' hf'
      cases wrong
  | refused model wrong =>
    cases hc' with
    | resolved model' views' => cases model.same hf model' hf'.left
    | unloaded model' views' =>
      cases model.same hf model' hf'.left
      cases wrong
    | refused model' wrong' =>
      cases model.same hf model' hf'
      exact ⟨rfl, rfl⟩

end

end

end LayeredViews
