import LayeredViews.Markup.Basic
import LayeredViews.Config
import LayeredViews.Class
/-!
# Scripts

A script is an application written as data: classes, component types, hosts, and the steps to go
through. The code of the application is made of steps as well, so an operation can be asked for
while another one is under way.

* `Script.Step`: what can be asked for.
* `Script.Action`: what the body of a view does.
* `Script`: a whole script.
-/

namespace LayeredViews

namespace Script

/-- A definer as it is written: classes are named by their identifiers. -/
abbrev Calls := List (Call String)

/-- The node that a component is put on. -/
inductive Place where
  /-- The node in a slot. -/
  | slot (name : String)
  /-- A new node. -/
  | fresh (attrs : Attrs)

/-- The entries to drop from a cache. -/
inductive Target where
  | all
  | source (path : String)
  /-- The entry of the node in a slot. -/
  | node (slot : String)
  /-- The entry of a component's node. -/
  | component (slot : String)

/-- Something that a script asks for. `c`, `as` and `node` are names of slots. -/
inductive Step where
  | describeClass (id : String)
  | inspectClass (id : String)
  | ensure (id : String) (capability : Capability)
  | instantiate (id : String) (capability : Capability)
  | sameClass (a b : String)
  | compare (a b : Argument String)
  | evaluate (viewModel : Bool) (chain : List Calls)
  | build (label : String) (chain : List Calls) (handlers : List String)
  | buildType (type : String)
  | sameMetadata (a b : String)
  | buildModel (id : String)
  | describeType (type : String) (methods : List String)
  | node (as : String) (attrs : Attrs)
  | updateNode (node : String) (attrs : Attrs) (as : String)
  | nextId
  | register (host : Nat) (path id : String)
  | unregister (host : Nat) (path : String)
  | registry (host : Nat)
  | load (host : Nat) (path : String)
  | config (host : Nat)
  | inspectHost (host : Nat)
  | mount (host : Nat) (type as : String) (place : Place)
  | create (host : Nat) (type as : String) (place : Place)
  | reload (host : Nat) (target : Target)
  | cache (host : Nat)
  | dispatch (host : Nat) (event : String) (detail : Json)
  | listeners (host : Nat) (events : List String)
  | setGlobal (host : Nat) (on : Bool)
  | addListener (host : Nat) (event listener : String) (steps : List Step)
  | removeListener (host : Nat) (event listener : String) (steps : List Step)
  | bindSubscriptions (host : Nat) (c as : String)
  | unbindSubscriptions (host : Nat) (c as : String)
  | fireSubscriptions (c as event : String)
  | subscriptions (c as : String)
  | release (c : String)
  | hold (c as : String)
  | sameComponent (c b : String)
  | metadata (c : String)
  | info (c : String)
  | inspect (c : String)
  | views (c : String)
  | inspectViews (c : String)
  | model (c : String)
  | view (c : String)
  | renderWith (c pipe : String) (put : List (String × Json))
  /-- Composes the views from number `first` up to number `last`, which is left out. -/
  | compose (c name : String) (attrs : Attrs) (first : Nat) (last : Option Nat)
  | init (c : String)
  | created (c : String)
  | update (c : String) (place : Place)
  | beforeRemove (c : String)
  | remove (c : String)
  | unmount (c : String)

instance : Inhabited Step := ⟨.nextId⟩

/-- Something that the body of a view does. -/
inductive Action where
  /-- Puts an element around the output. -/
  | wrap (tag : String) (attrs : List (String × Json))
  /-- Replaces the output by a text. -/
  | text (text : String)
  | append (text : String)
  | prepend (text : String)
  /-- Sets an attribute of the output. -/
  | set (key : String) (value : Json)
  /-- Drops the output. -/
  | clear
  /-- Outputs a text if there is no output. -/
  | ifNone (text : String)
  /-- Stores a value in the pipe. -/
  | put (key : String) (value : Json)
  /-- Takes a value out of the pipe. -/
  | take (key : String)
  /-- Shows a value of the pipe. -/
  | get (key : String)
  /-- Shows an attribute of the node. -/
  | attr (key : String)
  /-- Shows the name of the component. -/
  | component
  /-- Shows the view model. -/
  | model
  /-- Adds to the view model, if it is a counter. -/
  | increase (amount : Int)
  /-- Shows the number of the instance and how often it was rendered. -/
  | self
  /-- Notes what the body was given. -/
  | inspect
  /-- Asks for steps. -/
  | steps (steps : List Step)

/-- The kinds of classes. -/
inductive ClassForm where
  | view (body : List Action)
  | greeting (text : String)
  | counter (start : Int)
  | plain
  | extend (base : String)
  /-- The very class that `base` is. -/
  | copy (base : String)

/-- A class of a script. -/
structure ClassEntry where
  id : String
  name : String
  form : ClassForm
  definer : Option Calls
  /-- What the factory asks for. -/
  onNew : List Step

/-- A component type of a script. -/
structure TypeEntry where
  id : String
  label : String
  base : Option String
  definer : Option Calls
  methods : List (String × List Step)

/-- How a host of a script finds classes. -/
inductive LoaderForm where
  /-- In the host's registry. -/
  | own
  /-- In a copy of the registry as it is at the start. -/
  | fixed
  /-- Nowhere. -/
  | missing
  /-- In the registry of the first host. -/
  | shared

/-- The runtime of a host of a script. -/
inductive RuntimeForm where
  | headless
  | windowed
  /-- The target is watched, and the runtime can be switched. -/
  | watched
  /-- The runtime of the first host. -/
  | shared

/-- A host of a script. -/
structure HostEntry where
  config : Config
  registry : List (String × String)
  loader : LoaderForm
  /-- Paths that cannot be loaded, with the reason. -/
  fail : List (String × String)
  /-- What the loader asks for when it is asked for a path. -/
  onLoad : List (String × List Step)
  runtime : RuntimeForm

end Script

/-- An application written as data. -/
structure Script where
  classes : List Script.ClassEntry
  types : List Script.TypeEntry
  hosts : List Script.HostEntry
  steps : List Script.Step

end LayeredViews
