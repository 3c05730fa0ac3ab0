import LayeredViews.Program
/-!
# Binding and dispatching events

* `Setting.bindAll`: registers a listener for each event that a component declares on the target of
  a host. Subscriptions that are bound already are refused.
* `Setting.unbindAll`: removes what was registered.
* `Setting.invoke`: calls a listener. One that belongs to a component does nothing once the
  component is gone.
* `Setting.dispatch`: calls the listeners that were registered for an event when it came.
-/

namespace LayeredViews

variable {κ : Client} [Ownership κ]

namespace Act

/-- A new listener. -/
def freshListener (callback : Callback) : Act κ Listener := do
  let w ← get
  set { w with nextListener := w.nextListener + 1 }
  return ⟨w.nextListener, callback⟩

/-- Changes an event target. -/
def updateTarget (t : TargetId) (f : EventTarget → EventTarget) : Act κ Unit :=
  write (.listeners t) fun w => w.setTarget t (f (w.target t))

/-- Registers a listener on a target. -/
def addListener (t : TargetId) (s : Subscription) : Act κ Unit := do
  updateTarget t fun target => target.add s
  record (.added t s)

/-- Removes a listener from a target. -/
def removeListener (t : TargetId) (s : Subscription) : Act κ Unit := do
  updateTarget t fun target => target.remove s
  record (.removed t s)

/-- The listeners of a target for an event. -/
def listening (t : TargetId) (event : String) : Act κ (List Listener) :=
  read (.listeners t) fun w => (w.target t).listening event

/-- Registers listeners for declared events, in order. An event whose handler the type lacks is
passed over. -/
def subscribe (t : TargetId) (id : ComponentId) (type : ComponentType) :
    List EventBinding → Act κ (List Subscription)
  | [] => return []
  | b :: rest => do
    match type.findMethod b.handler with
    | none => subscribe t id type rest
    | some method =>
      let s : Subscription := ⟨b.event, ← freshListener (.method id method)⟩
      addListener t s
      return s :: (← subscribe t id type rest)

end Act

open Act

namespace Setting

variable (env : Setting κ)

/-- The target of a host, if the runtime has global events at the moment. -/
def presentTarget (h : HostId) : Act κ (Option TargetId) := do
  match (env.host h).target with
  | none => return none
  | some t => return if ((← get).target t).present then some t else none

/-- Binds the events of a component on the target of a host. Without global events nothing
happens. -/
def bindAll (h : HostId) (id : ComponentId) (c : Component) (s : Subscriptions) :
    Act κ (Except Error Unit × Subscriptions) := do
  match ← env.presentTarget h with
  | none => return (.ok (), s)
  | some t =>
    if s.bound then return (.error (.alreadyBound c.metadata.name), s)
    else
      let added ← subscribe t id c.type c.metadata.events
      return (.ok (), ⟨true, s.entries ++ added⟩)

/-- Removes the listeners of subscriptions from the target of a host; gives their number. Without
global events nothing happens. -/
def unbindAll (h : HostId) (s : Subscriptions) : Act κ (Nat × Subscriptions) := do
  match ← env.presentTarget h with
  | none => return (0, s)
  | some t =>
    s.entries.forM (removeListener t)
    return (s.entries.length, ∅)

/-- Calls a listener. -/
def invoke (listener : Listener) (event : GlobalEvent) : Act κ Unit := do
  match listener.callback with
  | .code key => env.user.listen key event
  | .method id method =>
    let _ ← withComponent id fun c => do
      record (.called id c.metadata.name method event)
      env.user.handle method id event

/-- Calls the listeners for an event, oldest registration first; gives their number. A listener
registered or removed meanwhile makes no difference. -/
def dispatch (t : TargetId) (event : GlobalEvent) : Act κ Nat := do
  let listeners ← listening t event.name
  listeners.forM fun listener => env.invoke listener event
  return listeners.length

end Setting

end LayeredViews
