import LayeredViews.Pipe
import LayeredViews.Cache
import LayeredViews.Config
import LayeredViews.Event
/-!
# The world

`World` is everything that changes while an application runs: the caches of the hosts, the event
targets, the components, who holds them, and the memory of the application's own code.

* `Act`: an action on the world. It ends with a value, or it stops the run.
* `Act.lend`: part of the world is in use while something runs; a use that would get in the way
  of another one stops the run.
* `Ownership`: what goes with an instance that is let go. Where nothing is said, instances own
  nothing.
* `Act.bindHandle`, `Act.release`, `Act.pinned`: handles of components. A component that nobody
  holds any more is dropped, and with it what is stored for its node.
-/

namespace LayeredViews

abbrev HostId := Nat
abbrev TargetId := Nat

/-- What the code of an application brings along: the memory it keeps, and the notes it writes
into the record of a run. -/
structure Client where
  Memory : Type
  Note : Type

/-- How a host finds the class at a path. -/
inductive Loader where
  /-- It looks into a registry that does not change. -/
  | registry (classes : ClassRegistry)
  /-- It runs code of the application. -/
  | code (key : Nat)

/-- The surroundings of components, as far as they do not change. -/
structure Host where
  config : Config := {}
  loader : Loader := .registry ∅
  /-- The target of global events; a host without one has no global events. -/
  target : Option TargetId := none

instance : Inhabited Host := ⟨{}⟩

/-- A component. -/
structure Component where
  type : ComponentType
  metadata : Metadata
  host : HostId
  node : Node
  subscriptions : Subscriptions := ∅

/-- The declarations to resolve: the name of a component without views stands for one, if the
configuration allows it. -/
def Component.declarations (c : Component) (config : Config) : List Declaration :=
  if c.metadata.views.isEmpty && config.fallbackToName then [.ident c.metadata.name]
  else c.metadata.views

/-- A variable of the application that holds a component. Variables of one name at different
levels are different. -/
structure Handle where
  level : Nat
  name : String
  deriving DecidableEq

instance : LT Handle := ⟨fun a b => a.level < b.level ∨ (a.level = b.level ∧ a.name < b.name)⟩

instance : DecidableLT Handle := fun a b =>
  inferInstanceAs (Decidable (a.level < b.level ∨ (a.level = b.level ∧ a.name < b.name)))

/-- A part of the world that can be in use. -/
inductive Cell where
  /-- The node of a component. -/
  | node (c : ComponentId)
  /-- The subscriptions of a component. -/
  | subscriptions (c : ComponentId)
  /-- The entries of a host. -/
  | entries (h : HostId)
  /-- The listeners of a target. -/
  | listeners (t : TargetId)
  deriving DecidableEq

/-- How a part of the world is used. -/
inductive Access where
  | read
  | write
  deriving DecidableEq

/-- What a view is given when it renders. -/
structure Frame where
  /-- The name of the component. -/
  component : String
  attrs : Attrs
  model : Option Model
  pipe : Pipe
  /-- What the view declared after this one produced. -/
  yielded : Option Markup

/-- Why an entry is dropped. -/
inductive Cause where
  /-- It was selected by a reload. -/
  | reload (selection : Cache.Selection)
  /-- The component was moved to another node. -/
  | update (c : ComponentId)
  /-- The component was removed. -/
  | remove (c : ComponentId)
  /-- Nobody held the component any more. -/
  | release (c : ComponentId)
  deriving DecidableEq

/-- Something recorded in a run. -/
inductive Occurrence (κ : Client) where
  /-- A definer was run. -/
  | defined (owner : String)
  /-- The loader of a host was asked for the class at a path. -/
  | loaded (host : HostId) (path : String)
  /-- The loader answered. -/
  | answered (host : HostId) (path : String) (result : Except LoadError Class)
  /-- An instance was made. -/
  | made (capability : Capability) (inst : Instance)
  /-- Something was not stored for a node, and is resolved from here on. -/
  | resolving (host : HostId) (node : NodeId) (aspect : Aspect)
  /-- What was resolved for a node is stored. -/
  | stored (host : HostId) (node : NodeId) (what : Resolved)
  /-- A resolution for a node has failed. -/
  | failed (host : HostId) (node : NodeId) (aspect : Aspect)
  /-- Views or a view model were given for a node; the node is the one that the component had when
  it was asked. -/
  | gave (host : HostId) (node : NodeId) (what : Resolved)
  /-- The entry of a node was dropped. -/
  | dropped (host : HostId) (node : NodeId) (cause : Cause)
  /-- A view was rendered. -/
  | rendered (inst : Instance) (frame : Frame)
  /-- A component was mounted. -/
  | mounted (component : ComponentId)
  /-- A component was unmounted. -/
  | unmounted (component : ComponentId)
  /-- A component was initialized: its events are bound if there were global events. -/
  | initialized (component : ComponentId)
  /-- A component was prepared for removal: its events are unbound if there were global events. -/
  | unbound (component : ComponentId)
  /-- A method of a component of the given name was called. -/
  | called (component : ComponentId) (name : String) (method : Method) (event : GlobalEvent)
  /-- A listener was registered. -/
  | added (target : TargetId) (subscription : Subscription)
  /-- A listener was to be removed. -/
  | removed (target : TargetId) (subscription : Subscription)
  /-- The application wrote a note. -/
  | noted (note : κ.Note)

/-- Everything that changes while an application runs. -/
structure World (κ : Client) where
  caches : Dict HostId Cache := ∅
  targets : Dict TargetId EventTarget := ∅
  /-- The components that exist. -/
  components : Dict ComponentId Component := ∅
  /-- The components held by the variables of the application. -/
  handles : Dict Handle ComponentId := ∅
  /-- The components held by operations under way, latest first. -/
  pins : List ComponentId := []
  /-- The parts of the world in use, latest first. -/
  loans : List (Cell × Access) := []
  nextNode : NodeId := 1
  nextComponent : ComponentId := 0
  nextInstance : InstanceId := 1
  nextList : Nat := 0
  nextListener : Nat := 0
  /-- What has happened, latest first. -/
  record : List (Occurrence κ) := []
  memory : κ.Memory

namespace World

variable {κ : Client}

/-- The entries of a host. -/
def cache (w : World κ) (h : HostId) : Cache := w.caches.getD h ∅

/-- What is stored for a node; an empty entry when nothing is. -/
def entry (w : World κ) (h : HostId) (id : NodeId) : Entry := (w.cache h).getD id ∅

/-- The event target of a given identity. -/
def target (w : World κ) (t : TargetId) : EventTarget := w.targets.getD t {}

/-- Whether somebody holds a component. -/
def holds (w : World κ) (c : ComponentId) : Bool :=
  w.handles.values.contains c || w.pins.contains c

/-- The present state of a component that was `c` when it was looked up. -/
def current (w : World κ) (id : ComponentId) (c : Component) : Component :=
  w.components.getD id c

/-- Whether a use gets in the way of one under way: one of the two writes to the same part. -/
def conflicts (w : World κ) (cell : Cell) (access : Access) : Bool :=
  w.loans.any fun l => l.1 == cell && (l.2 == .write || access == .write)

def setCache (w : World κ) (h : HostId) (c : Cache) : World κ :=
  { w with caches := w.caches.insert h c }

def setTarget (w : World κ) (t : TargetId) (target : EventTarget) : World κ :=
  { w with targets := w.targets.insert t target }

def setComponent (w : World κ) (id : ComponentId) (c : Component) : World κ :=
  { w with components := w.components.insert id c }

end World

/-- Why a run stops before its end. -/
inductive Halt where
  /-- A part of the world was used in two ways that exclude each other. -/
  | conflict (cell : Cell)
  /-- Calls were nested deeper than the run allows. -/
  | exhausted
  deriving DecidableEq

/-- An action on the world. It ends with a value, or the run stops: for a reason of its own, or
for none, when an onlooker has seen enough. -/
abbrev Act (κ : Client) := StateT (World κ) (Except (Option Halt))

/-- What goes with an instance. `giveUp` runs whenever something that holds the instance lets it go:
an entry that is dropped or stores something else, a resolution that fails or is done, a component
that has been rendered. It has nothing to do while the instance is held elsewhere; with the last
hold goes what the instance owns, for example the only handle of a component. -/
class Ownership (κ : Client) where
  giveUp : Instance → Act κ Unit

/-- If nothing else is said, instances own nothing. -/
instance (priority := low) Ownership.nothing {κ : Client} : Ownership κ where
  giveUp _ := return ()

namespace Act

variable {κ : Client} [Ownership κ] {α : Type}

/-- Records something. -/
def record (o : Occurrence κ) : Act κ Unit := modify fun w => { w with record := o :: w.record }

/-- Runs `body` while a part of the world is in use. -/
def lend (cell : Cell) (access : Access) (body : Act κ α) : Act κ α := do
  let w ← get
  if w.conflicts cell access then throw (some (.conflict cell))
  else
    set { w with loans := (cell, access) :: w.loans }
    let a ← body
    modify fun w => { w with loans := w.loans.tail }
    return a

/-- Reads a part of the world. -/
def read (cell : Cell) (f : World κ → α) : Act κ α := lend cell .read do return f (← get)

/-- Changes a part of the world. -/
def write (cell : Cell) (f : World κ → World κ) : Act κ Unit := lend cell .write (modify f)

/-- The node of a component at the moment; `c` is what the component was when it was looked up. -/
def nodeOf (id : ComponentId) (c : Component) : Act κ Node :=
  read (.node id) fun w => (w.current id c).node

/-- Lets instances go, one after the other. -/
def giveUp (instances : List Instance) : Act κ Unit := instances.forM Ownership.giveUp

/-- Takes the selected entries out of the cache of a host; gives their number and the instances that
they hold. -/
def takeOut (h : HostId) (selection : Cache.Selection) (cause : Cause) :
    Act κ (Nat × List Instance) :=
  lend (.entries h) .write do
    let w ← get
    let (gone, cache) := (w.cache h).reload selection
    set (w.setCache h cache)
    gone.forM fun node => record (.dropped h node cause)
    return (gone.length, (w.cache h).instances selection)

/-- Drops the selected entries of a host; gives their number. Their instances are let go once the
entries are no longer in use. -/
def discard (h : HostId) (selection : Cache.Selection) (cause : Cause) : Act κ Nat := do
  let (count, instances) ← takeOut h selection cause
  giveUp instances
  return count

/-- Drops a component that nobody holds, with the entry of its node. -/
def settle (c : ComponentId) : Act κ Unit := do
  let w ← get
  if w.holds c then return
  match w.components.get? c with
  | none => return
  | some comp =>
    set { w with components := w.components.erase c }
    let _ ← discard comp.host (.node comp.node.id) (.release c)

/-- Runs `body` while the operation holds a component. -/
def pinned (c : ComponentId) (body : Act κ α) : Act κ α := do
  modify fun w => { w with pins := c :: w.pins }
  let a ← body
  modify fun w => { w with pins := w.pins.tail }
  settle c
  return a

/-- Puts a component into a variable; what the variable held before is let go. -/
def bindHandle (as : Handle) (c : ComponentId) : Act κ Unit := do
  let w ← get
  set { w with handles := w.handles.insert as c }
  match w.handles.get? as with
  | some old => settle old
  | none => return

/-- Empties a variable; says whether it held a component. -/
def release (h : Handle) : Act κ Bool := do
  let w ← get
  match w.handles.get? h with
  | some old =>
    set { w with handles := w.handles.erase h }
    settle old
    return true
  | none => return false

/-- Runs `body` with a component that exists, and holds it meanwhile. -/
def withComponent (c : ComponentId) (body : Component → Act κ α) : Act κ (Option α) := do
  match (← get).components.get? c with
  | some comp => pinned c (some <$> body comp)
  | none => return none

end Act

end LayeredViews
