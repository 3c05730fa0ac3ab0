import LayeredViews.Program
/-!
# Resolving a component

The views and the view model of a component are found by way of its declarations and stored for
its node.

* `Setting.resolveModel`, `Setting.resolveViews`: resolve anew. They give the paths that were
  consulted along with the result.
* `Setting.model`, `Setting.views`: give what is stored, and resolve and store what is not. A
  resolution that fails stores nothing. A view model that cannot be loaded does not keep the views
  from being resolved; one that is wrong does.

What a resolution made in vain it lets go, and so does an entry with what is replaced in it.
-/

namespace LayeredViews

variable {κ : Client} [Ownership κ]

namespace Act

/-- Makes an instance number. -/
def freshInstance (factory : Factory) : Act κ Instance := do
  let w ← get
  set { w with nextInstance := w.nextInstance + 1 }
  return ⟨w.nextInstance, factory⟩

/-- Makes a list of views with an identity of its own. -/
def freshList (views : List ResolvedView) : Act κ ViewList := do
  let w ← get
  set { w with nextList := w.nextList + 1 }
  return ⟨w.nextList, views⟩

/-- What is stored for a node; an empty entry when nothing is. -/
def entryOf (h : HostId) (node : NodeId) : Act κ Entry :=
  read (.entries h) fun w => w.entry h node

/-- Changes what is stored for a node. What is replaced is let go while the entries are in use. -/
def updateEntry (h : HostId) (node : NodeId) (f : Entry → Entry) : Act κ Unit :=
  lend (.entries h) .write do
    let w ← get
    let e := w.entry h node
    set (w.setCache h ((w.cache h).insert node (f e)))
    giveUp (e.replaced (f e))

end Act

open Act

namespace Setting

variable (env : Setting κ)

/-- What a loader answers for a path. -/
def ask (loader : Loader) (path : String) : Act κ (Except LoadError Class) :=
  match loader with
  | .registry classes => return classes.load path
  | .code key => env.user.load key path

/-- Asks the loader of a host for the class at a path. -/
def load (h : HostId) (path : String) : Act κ (Except LoadError Class) := do
  record (.loaded h path)
  let result ← env.ask (env.host h).loader path
  record (.answered h path result)
  return result

/-- A new instance, made by a factory. -/
def make (capability : Capability) (factory : Factory) : Act κ Instance := do
  let inst ← freshInstance factory
  record (.made capability inst)
  env.user.make inst
  return inst

/-- A new instance of a class, used for a capability. -/
def instantiate (cls : Class) (capability : Capability) : Act κ (Except Error Instance) :=
  match cls.factory capability with
  | .ok factory => .ok <$> env.make capability factory
  | .error e => return .error e

/-- The class of a declaration, and the paths consulted for it. `path` says where an identifier is
found. -/
def classOf (h : HostId) (path : String → String) :
    Declaration → Act κ (Except Error Class × List String)
  | .ofClass cls => return (.ok cls, [])
  | .ident ident => do
    match ← env.load h (path ident) with
    | .ok cls => return (.ok cls, [path ident])
    | .error e => return (.error (.resolution e), [path ident])

/-- A new view model of class `cls`. -/
def makeModel (cls : Class) : Act κ (Except Error Model) :=
  match cls.ensure .viewModel with
  | .error e => return .error e
  | .ok () => do
    cls.buildModel.ran.forM fun owner => record (.defined owner)
    match cls.buildModel.result with
    | .error e => return .error e
    | .ok name =>
      match ← env.instantiate cls .viewModel with
      | .error e => return .error e
      | .ok inst => return .ok ⟨name, inst⟩

/-- Resolves the view model of a component: the declared one, else the one that has the name of the
component. -/
def resolveModel (c : Component) : Act κ (Except Error Model × List String) := do
  let declared := c.metadata.viewModel.getD (.ident c.metadata.name)
  let (found, paths) ← env.classOf c.host (env.host c.host).config.viewModelPath declared
  match found with
  | .error e => return (.error e, paths)
  | .ok cls => return (← env.makeModel cls, paths)

/-- Resolves declared views, first to last, and binds the view model to them. It stops at the first
one that cannot be resolved, and gives those before it along with the error. -/
def resolveEach (h : HostId) (model : Option Model) :
    List Declaration → Act κ ((List ResolvedView × Option Error) × List String)
  | [] => return (([], none), [])
  | d :: rest => do
    let (found, paths) ← env.classOf h (env.host h).config.viewPath d
    match found with
    | .error e => return (([], some e), paths)
    | .ok cls =>
      match ← env.instantiate cls .view with
      | .error e => return (([], some e), paths)
      | .ok inst =>
        let ((views, error), more) ← resolveEach h model rest
        return ((⟨d.label, inst, model⟩ :: views, error), paths ++ more)

/-- Resolves declared views, all or none of them. -/
def resolveViews (h : HostId) (model : Option Model) (declared : List Declaration) :
    Act κ (Except Error (List ResolvedView) × List String) := do
  let ((views, error), paths) ← env.resolveEach h model declared
  match error with
  | none => return (.ok views, paths)
  | some e =>
    giveUp (views.flatMap ResolvedView.instances)
    return (.error e, paths)

/-- The view model of a component's node, and the paths consulted for it now. -/
def modelWithSources (id : ComponentId) (c : Component) :
    Act κ (Except Error Model × List String) := do
  let node ← nodeOf id c
  match (← entryOf c.host node.id).model with
  | some m =>
    record (.gave c.host node.id (.model m))
    return (.ok m, [])
  | none =>
    record (.resolving c.host node.id .model)
    let (model, paths) ← env.resolveModel c
    match model with
    | .error e =>
      record (.failed c.host node.id .model)
      return (.error e, paths)
    | .ok m =>
      updateEntry c.host node.id fun e => e.withModel m paths
      record (.stored c.host node.id (.model m))
      record (.gave c.host node.id (.model m))
      return (.ok m, paths)

/-- The view model of a component's node. It is looked up and stored in the entries of the host that
the component belongs to, and of no other. -/
def model (id : ComponentId) (c : Component) : Act κ (Except Error Model) := do
  return (← env.modelWithSources id c).1

/-- The views of a component's node, in the order of their declarations. They are looked up and
stored in the entries of the host that the component belongs to, and of no other. -/
def views (id : ComponentId) (c : Component) : Act κ (Except Error ViewList) := do
  let node ← nodeOf id c
  match (← entryOf c.host node.id).views with
  | some list =>
    record (.gave c.host node.id (.views list))
    return .ok list
  | none =>
    record (.resolving c.host node.id .views)
    let (model, paths) ← env.modelWithSources id c
    match model with
    | .error e => if e.isResolution then resolve node.id none paths else fail node.id e
    | .ok m =>
      let result ← resolve node.id (some m) paths
      giveUp [m.inst]
      return result
where
  /-- Gives up. -/
  fail (node : NodeId) (e : Error) : Act κ (Except Error ViewList) := do
    record (.failed c.host node .views)
    return .error e
  /-- Resolves the views once it is known which view model they get, and stores them for the
  node. -/
  resolve (node : NodeId) (model : Option Model) (paths : List String) :
      Act κ (Except Error ViewList) := do
    let declared := c.declarations (env.host c.host).config
    let (resolved, more) ← env.resolveViews c.host model declared
    match resolved with
    | .error e => fail node e
    | .ok views =>
      let list ← freshList views
      updateEntry c.host node fun e => e.withViews list (paths ++ more)
      record (.stored c.host node (.views list))
      record (.gave c.host node (.views list))
      return .ok list

end Setting

end LayeredViews
