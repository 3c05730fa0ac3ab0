import LayeredViews.Program
import LayeredViews.Script.Syntax
/-!
# What a script keeps and answers

* `Script.Memory`: the slots of a script and the state of the instances it made.
* `Script.Reply`: the answer to a step.
* `Script.Note`: what a script writes into the record of its run.
-/

namespace LayeredViews

namespace Script

/-- What a view model of a script holds. -/
inductive ModelState where
  | greeting (text : String)
  | counter (value : Int)

/-- The text of a greeting. -/
def ModelState.greeting? : ModelState → Option String
  | .greeting text => some text
  | .counter _ => none

/-- The value of a counter. -/
def ModelState.counter? : ModelState → Option Int
  | .greeting _ => none
  | .counter value => some value

/-- What the code of a script keeps. -/
structure Memory where
  /-- How many steps are under way around the present one. -/
  depth : Nat := 0
  nodes : Dict String Node := ∅
  pipes : Dict String Pipe := ∅
  listeners : Dict String Listener := ∅
  /-- What the listeners ask for. -/
  listenerSteps : Dict String (List Step) := ∅
  subscriptions : Dict String Subscriptions := ∅
  /-- The registries that can be changed. -/
  registries : Dict HostId ClassRegistry := ∅
  /-- How often the instances of views were rendered. -/
  renders : Dict InstanceId Nat := ∅
  /-- What the instances of view models hold. -/
  models : Dict InstanceId ModelState := ∅
  /-- The lists of views that were shown, in the order in which they first were. -/
  shownLists : List Nat := []
  /-- The view models that were shown, in the order in which they first were. -/
  shownModels : List InstanceId := []

/-- A view model as it is shown; `number` tells the shown ones apart. -/
structure ShownModel where
  number : Nat
  name : String
  state : Option ModelState

/-- A class as it is shown. -/
structure ShownClass where
  name : String
  capability : Option Capability
  isView : Bool
  isViewModel : Bool
  ancestors : List String
  parent : Option String
  hasDefiner : Bool

/-- A component type as it is shown. -/
structure ShownType where
  label : String
  parent : Option String
  ancestors : List String
  definers : Nat
  handlers : List Bool
  inspected : String

/-- A component as it is shown. -/
structure ShownComponent where
  name : String
  kind : String
  label : String
  node : Node
  bound : Bool
  declarations : List Declaration

/-- The answer to a step. -/
inductive Reply where
  | done
  | nothing
  | noComponent
  | noNode
  | failed (e : Error)
  | notLoaded (e : LoadError)
  | flag (b : Bool)
  | number (n : Nat)
  | text (s : String)
  | cls (c : ShownClass)
  | type (t : ShownType)
  | compared (a b : Declaration)
  | declared (d : Declarations)
  | metadata (m : Metadata)
  | named (name : String)
  /-- The name of a class. -/
  | found (name : String)
  | node (n : Node) (unchanged : Bool)
  | size (n : Nat)
  | config (c : Config)
  | mounted (name : String) (node : NodeId) (bound : Bool)
  | cache (size : Nat) (inspected : String)
  | listeners (counts : List Nat) (isEmpty : Bool) (inspected : String)
  | subscriptions (r : Reply) (s : Subscriptions)
  | component (c : ShownComponent)
  | model (m : ShownModel)
  /-- What a view model says of itself: its greeting, and whether it counts. -/
  | made (m : Option ModelState)
  | views (number : Nat) (views : List (String × Option ShownModel))
  | markup (out : Option Markup)
  | output (out : Option Markup)
  /-- What a render pass gave, and the pipe that it left. -/
  | rendered (out : Except Error (Option Markup)) (pipe : Pipe)

/-- What a script writes into the record. -/
inductive Note where
  /-- A definer was run. -/
  | defined (owner : String)
  /-- The failure kept after a call of a verb. -/
  | after (error : Option Error)
  /-- A value was stored in the pipe; what was there before is given. -/
  | put (key : String) (previous : Option Json)
  /-- A value was taken out of the pipe. -/
  | take (key : String) (previous : Option Json)
  /-- What a body was given. -/
  | inspected (text : String)
  /-- A listener of a slot was called. -/
  | heard (slot : String) (event : GlobalEvent)
  /-- A step asked for by code was done. -/
  | stepped (step : Step) (reply : Reply)
  /-- A step asked for by code was nested too deeply to be done. -/
  | tooDeep (step : Step)

/-- Scripts as applications. -/
abbrev client : Client := ⟨Memory, Note⟩

end Script

end LayeredViews
