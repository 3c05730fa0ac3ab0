import LayeredViews.Proofs.Passive

/-!
# Resolving anew

What a component is resolved to when nothing is stored for its node, as a function of what its
loader finds.

* `Component.modelAnew`, `Component.viewsAnew`, `Component.renderAnew`: the results; instances in
  them have no identity.
* `Component.modelPaths`, `Component.viewPaths`: the paths that they depend on.
* `Entry.UpToDate`: what is stored is what resolving anew gives, and all paths that it depends on
  are among the sources.
-/

namespace LayeredViews

variable {κ : Client}

/-! ## The results -/

/-- The class of a declaration, where `found` says what the loader finds. -/
def Declaration.classAnew (found : String → Except LoadError Class) (path : String → String) :
    Declaration → Except Error Class
  | .ofClass cls => .ok cls
  | .ident s => (found (path s)).mapError .resolution

/-- The paths consulted for a declaration. -/
def Declaration.paths (path : String → String) : Declaration → List String
  | .ofClass _ => []
  | .ident s => [path s]

namespace Class

/-- A new instance of a class. -/
def instanceAnew (cls : Class) (capability : Capability) : Except Error Instance :=
  (cls.factory capability).map fun factory => ⟨0, factory⟩

/-- A new view model of a class. -/
def modelAnew (cls : Class) : Except Error Model := do
  cls.ensure .viewModel
  let name ← cls.buildModel.result
  return ⟨name, ← cls.instanceAnew .viewModel⟩

end Class

/-- Declared views, first to last, with a view model bound to them. -/
def viewsAnew (found : String → Except LoadError Class) (path : String → String)
    (model : Option Model) : List Declaration → Except Error (List ResolvedView)
  | [] => .ok []
  | d :: rest => do
    let cls ← d.classAnew found path
    let inst ← cls.instanceAnew .view
    return ⟨d.label, inst, model⟩ :: (← viewsAnew found path model rest)

theorem viewsAnew_cons (found : String → Except LoadError Class) (path : String → String)
    (model : Option Model) (d : Declaration) (rest : List Declaration) :
    viewsAnew found path model (d :: rest) = do
      let cls ← d.classAnew found path
      let inst ← cls.instanceAnew .view
      return ⟨d.label, inst, model⟩ :: (← viewsAnew found path model rest) :=
  rfl

/-- The output of a list of views, and the pipe they leave, where `draw` says what each one
produces. -/
def composeAnew (draw : Factory → Frame → Option Markup × Pipe) (component : String)
    (attrs : Attrs) (pipe : Pipe) : List ResolvedView → Option Markup × Pipe
  | [] => (none, pipe)
  | v :: rest =>
    let (yielded, pipe) := composeAnew draw component attrs pipe rest
    draw v.inst.factory ⟨component, attrs, v.model, pipe, yielded⟩

namespace Component

variable (c : Component) (config : Config) (found : String → Except LoadError Class)

/-- The view model that is declared, or the one of the component's name. -/
def modelDeclaration : Declaration := c.metadata.viewModel.getD (.ident c.metadata.name)

/-- The view model of a component. -/
def modelAnew : Except Error Model := do
  (← c.modelDeclaration.classAnew found config.viewModelPath).modelAnew

/-- The view model that the views of a component are bound to. -/
def boundAnew : Except Error (Option Model) :=
  match c.modelAnew config found with
  | .ok m => .ok (some m)
  | .error e => if e.isResolution then .ok none else .error e

/-- The views of a component. -/
def viewsAnew : Except Error (List ResolvedView) := do
  LayeredViews.viewsAnew found config.viewPath (← c.boundAnew config found) (c.declarations config)

/-- The output of a component on a node with the given attributes, and the pipe it leaves. -/
def renderAnew (draw : Factory → Frame → Option Markup × Pipe) (attrs : Attrs) (pipe : Pipe) :
    Except Error (Option Markup) × Pipe :=
  match c.viewsAnew config found with
  | .error e => (.error e, pipe)
  | .ok views =>
    if views.isEmpty then
      if config.requireViews then (.error (.renderPrecondition c.metadata.name), pipe)
      else (.ok none, pipe)
    else
      let (output, pipe) := composeAnew draw c.metadata.name attrs pipe views
      (.ok output, pipe)

/-- The paths that the view model of a component depends on. -/
def modelPaths : List String := c.modelDeclaration.paths config.viewModelPath

/-- The paths that its views depend on, the view model apart. -/
def viewPaths : List String := (c.declarations config).flatMap (Declaration.paths config.viewPath)

end Component

/-! ## The paths that results depend on -/

section

variable {found found' : String → Except LoadError Class}

theorem Declaration.classAnew_congr {path : String → String} {d : Declaration}
    (h : ∀ p ∈ d.paths path, found p = found' p) :
    d.classAnew found path = d.classAnew found' path := by
  cases d with
  | ofClass cls => rfl
  | ident s =>
    have hs : found (path s) = found' (path s) := h _ List.mem_cons_self
    rw [classAnew, classAnew, hs]

theorem viewsAnew_congr {path : String → String} {model : Option Model} {ds : List Declaration}
    (h : ∀ p ∈ ds.flatMap (Declaration.paths path), found p = found' p) :
    viewsAnew found path model ds = viewsAnew found' path model ds := by
  induction ds with
  | nil => rfl
  | cons d rest ih =>
    rw [List.flatMap_cons] at h
    have hd := Declaration.classAnew_congr fun p hp => h p (List.mem_append_left _ hp)
    have hrest := ih fun p hp => h p (List.mem_append_right _ hp)
    rw [viewsAnew_cons, viewsAnew_cons, hd, hrest]

namespace Component

variable {c : Component} {config : Config}

/-- A view model depends on the paths consulted for it. -/
theorem modelAnew_congr (h : ∀ p ∈ c.modelPaths config, found p = found' p) :
    c.modelAnew config found = c.modelAnew config found' := by
  rw [modelAnew, modelAnew, Declaration.classAnew_congr h]

/-- Views depend on the paths consulted for them and for the view model, even if there is none. -/
theorem viewsAnew_congr (hm : ∀ p ∈ c.modelPaths config, found p = found' p)
    (hv : ∀ p ∈ c.viewPaths config, found p = found' p) :
    c.viewsAnew config found = c.viewsAnew config found' := by
  unfold viewsAnew boundAnew
  rw [modelAnew_congr hm]
  cases c.modelAnew config found' with
  | ok m => exact LayeredViews.viewsAnew_congr hv
  | error e =>
    dsimp only
    split
    · exact LayeredViews.viewsAnew_congr hv
    · rfl

end Component

end

/-! ## Entries -/

/-- What is stored is what resolving anew gives, and the paths that it depends on are among the
sources. -/
structure Entry.UpToDate (e : Entry) (c : Component) (config : Config)
    (found : String → Except LoadError Class) : Prop where
  model : ∀ m, e.model = some m → c.modelAnew config found = .ok m.anonymous ∧
    ∀ p ∈ c.modelPaths config, p ∈ e.sources
  views : ∀ l, e.views = some l →
    c.viewsAnew config found = .ok (l.views.map ResolvedView.anonymous) ∧
    (∀ p ∈ c.modelPaths config, p ∈ e.sources) ∧ ∀ p ∈ c.viewPaths config, p ∈ e.sources

namespace Entry.UpToDate

variable {e : Entry} {c : Component} {config : Config}
  {found found' : String → Except LoadError Class}

theorem empty : (∅ : Entry).UpToDate c config found where
  model _ h := by cases h
  views _ h := by cases h

/-- An entry stays up to date as long as nothing changes at its sources. -/
theorem congr (h : e.UpToDate c config found) (hf : ∀ p ∈ e.sources, found p = found' p) :
    e.UpToDate c config found' where
  model m hm := by
    obtain ⟨hr, hp⟩ := h.model m hm
    exact ⟨Component.modelAnew_congr (fun p hp' => hf p (hp p hp')) ▸ hr, hp⟩
  views l hl := by
    obtain ⟨hr, hp, hq⟩ := h.views l hl
    exact ⟨Component.viewsAnew_congr (fun p hp' => hf p (hp p hp'))
      (fun p hp' => hf p (hq p hp')) ▸ hr, hp, hq⟩

/-- Storing a view model. -/
theorem withModel (h : e.UpToDate c config found) {m : Model} {paths : List String}
    (hm : c.modelAnew config found = .ok m.anonymous)
    (hp : ∀ p ∈ c.modelPaths config, p ∈ paths) :
    (e.withModel m paths).UpToDate c config found where
  model m' hm' := by
    obtain rfl : m = m' := Option.some.inj hm'
    exact ⟨hm, fun p hp' => mem_sources_consult.2 (.inr (hp p hp'))⟩
  views l hl := by
    obtain ⟨hr, hp', hq⟩ := h.views l hl
    exact ⟨hr, fun p hp'' => mem_sources_consult.2 (.inl (hp' p hp'')),
      fun p hp'' => mem_sources_consult.2 (.inl (hq p hp''))⟩

/-- Storing views. -/
theorem withViews (h : e.UpToDate c config found) {l : ViewList} {paths : List String}
    (hl : c.viewsAnew config found = .ok (l.views.map ResolvedView.anonymous))
    (hp : ∀ p ∈ c.modelPaths config, p ∈ paths ∨ p ∈ e.sources)
    (hq : ∀ p ∈ c.viewPaths config, p ∈ paths) :
    (e.withViews l paths).UpToDate c config found where
  model m hm := by
    obtain ⟨hr, hp'⟩ := h.model m hm
    exact ⟨hr, fun p hp'' => mem_sources_consult.2 (.inl (hp' p hp''))⟩
  views l' hl' := by
    obtain rfl : l = l' := Option.some.inj hl'
    exact ⟨hl, fun p hp' => mem_sources_consult.2 (hp p hp').symm,
      fun p hp' => mem_sources_consult.2 (.inr (hq p hp'))⟩

end Entry.UpToDate

end LayeredViews
