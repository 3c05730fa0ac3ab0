import LayeredViews.ComponentType
import LayeredViews.Json.Basic
/-!
# Global events

* `EventTarget`: where listeners are registered, such as a window. A listener is removed by its
  identity, one registration at a time.
* `Subscriptions`: the listeners that a component has registered and keeps for removal.
-/

namespace LayeredViews

/-- The identity of a component. -/
abbrev ComponentId := Nat

/-- An event dispatched by a target. -/
structure GlobalEvent where
  name : String
  detail : Json := .null
  deriving DecidableEq

/-- What a listener does. -/
inductive Callback where
  /-- Calls a method of a component, as long as the component exists. -/
  | method (component : ComponentId) (method : Method)
  /-- Runs code of the application. -/
  | code (key : String)
  deriving DecidableEq

/-- A listener; `id` is its identity. -/
structure Listener where
  id : Nat
  callback : Callback
  deriving DecidableEq

/-- A listener registered under the name of an event. -/
structure Subscription where
  event : String
  listener : Listener
  deriving DecidableEq

/-- A target of global events. -/
structure EventTarget where
  /-- The registrations, oldest first. -/
  listeners : List Subscription := []
  /-- Whether the runtime of the target has global events at the moment. -/
  present : Bool := true
  /-- Whether the runtime can gain and lose its global events. -/
  switchable : Bool := false

namespace EventTarget

instance : Inhabited EventTarget := ⟨{}⟩

/-- Registers a listener. -/
def add (t : EventTarget) (s : Subscription) : EventTarget :=
  { t with listeners := t.listeners ++ [s] }

/-- Removes the oldest registration of a listener under the name of an event. -/
def remove (t : EventTarget) (s : Subscription) : EventTarget :=
  { t with listeners := t.listeners.eraseP fun r =>
      r.event == s.event && r.listener.id == s.listener.id }

/-- The listeners registered for an event, oldest registration first. -/
def listening (t : EventTarget) (event : String) : List Listener :=
  (t.listeners.filter fun r => r.event == event).map Subscription.listener

/-- How many listeners are registered for an event. -/
def count (t : EventTarget) (event : String) : Nat :=
  (t.listeners.filter fun r => r.event == event).length

/-- Gives or takes the global events of a runtime that can be switched. -/
def switch (t : EventTarget) (on : Bool) : EventTarget :=
  if t.switchable then { t with present := on } else t

end EventTarget

/-- The subscriptions of one component. -/
structure Subscriptions where
  bound : Bool := false
  entries : List Subscription := []
  deriving DecidableEq

instance : EmptyCollection Subscriptions := ⟨{}⟩

end LayeredViews
