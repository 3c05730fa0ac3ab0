import LayeredViews.Binding
/-!
# The life of a component

A host takes a component through these steps:

* `Setting.create`, `Setting.mount`: the metadata is built before there is a component; mounting
  binds the events as well.
* `Setting.init`, `Setting.beforeRemove`: bind and unbind the events.
* `Setting.update`: another node; what is stored for the one before is dropped when the identity
  changes.
* `Setting.remove`, `Setting.unmount`: drop what is stored for the node.
* `Act.reload`: drops stored entries so that components are resolved anew.
-/

namespace LayeredViews

variable {κ : Client} [Ownership κ]

namespace Act

/-- Changes a component that exists. -/
def updateComponent (id : ComponentId) (f : Component → Component) : Act κ Unit :=
  modify fun w =>
    match w.components.get? id with
    | some c => w.setComponent id (f c)
    | none => w

/-- Runs `body` on the subscriptions of a component, which are in use meanwhile. -/
def withSubscriptions {α : Type} (id : ComponentId) (c : Component)
    (body : Subscriptions → Act κ (α × Subscriptions)) : Act κ α :=
  lend (.subscriptions id) .write do
    let (a, s) ← body ((← get).current id c).subscriptions
    updateComponent id fun c => { c with subscriptions := s }
    return a

/-- Builds the metadata of a type. -/
def buildType (type : ComponentType) : Act κ (Except Error Metadata) := do
  type.build.ran.forM fun owner => record (.defined owner)
  return type.build.result

/-- A new component. -/
def freshComponent (c : Component) : Act κ ComponentId := do
  let w ← get
  set { w.setComponent w.nextComponent c with nextComponent := w.nextComponent + 1 }
  return w.nextComponent

/-- Makes a component on a node and puts it into a variable. -/
def create (h : HostId) (type : ComponentType) (node : Node) (as : Handle) :
    Act κ (Except Error ComponentId) := do
  match ← buildType type with
  | .error e => return .error e
  | .ok metadata =>
    let id ← freshComponent { type, metadata, host := h, node }
    bindHandle as id
    return .ok id

/-- Puts a component on another node; gives the one before. -/
def swapNode (id : ComponentId) (c : Component) (node : Node) : Act κ Node :=
  lend (.node id) .write do
    let w ← get
    updateComponent id fun c => { c with node }
    return (w.current id c).node

/-- Moves a component to a node; gives the identity of the node. -/
def update (id : ComponentId) (c : Component) (node : Node) : Act κ NodeId := do
  let previous ← swapNode id c node
  let current ← nodeOf id c
  if previous.id = current.id then return node.id
  else
    let _ ← discard c.host (.node previous.id) (.update id)
    return node.id

/-- Drops what is stored for the node of a component. -/
def remove (id : ComponentId) (c : Component) : Act κ Unit := do
  let node ← nodeOf id c
  let _ ← discard c.host (.node node.id) (.remove id)

/-- Drops the selected entries of a host; gives their number. -/
def reload (h : HostId) (selection : Cache.Selection) : Act κ Nat :=
  discard h selection (.reload selection)

end Act

open Act

namespace Setting

variable (env : Setting κ)

/-- Binds the events of a component. -/
def init (id : ComponentId) (c : Component) : Act κ (Except Error Unit) := do
  match ← withSubscriptions id c (env.bindAll c.host id c) with
  | .error e => return .error e
  | .ok () =>
    record (.initialized id)
    return .ok ()

/-- Unbinds the events of a component; gives the number of listeners removed. -/
def beforeRemove (id : ComponentId) (c : Component) : Act κ Nat := do
  let removed ← withSubscriptions id c (env.unbindAll c.host)
  record (.unbound id)
  return removed

/-- Unbinds the events of a component and drops what is stored for its node. -/
def unmount (id : ComponentId) (c : Component) : Act κ Unit := do
  let _ ← env.beforeRemove id c
  Act.remove id c
  record (.unmounted id)

/-- Makes a component on a node, binds its events, and puts it into a variable. A component whose
events cannot be bound is dropped. -/
def mount (h : HostId) (type : ComponentType) (node : Node) (as : Handle) :
    Act κ (Except Error ComponentId) := do
  match ← buildType type with
  | .error e => return .error e
  | .ok metadata =>
    let c : Component := { type, metadata, host := h, node }
    let id ← freshComponent c
    pinned id do
      match ← env.init id c with
      | .error e => return .error e
      | .ok () =>
        record (.mounted id)
        bindHandle as id
        return .ok id

end Setting

end LayeredViews
