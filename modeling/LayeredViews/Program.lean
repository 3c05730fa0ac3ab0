import LayeredViews.World
/-!
# Programs

The code of an application (its loaders, factories, view bodies, methods and listeners) may do
anything with the library while the library is at work. A `Program` is such code: it computes,
looks at the world, keeps its own memory, and calls operations.

* `Op`: the operations, with `Op.Reply` for what each of them answers.
* `Program`: a program, as the tree of everything it may do.
* `Callbacks`: the code that an application brings, as programs or as actions.
-/

namespace LayeredViews

/-- An operation that a program can call. Components are named by their identity; an operation on
one that does not exist answers nothing. -/
inductive Op where
  /-- A new identity for a node. -/
  | freshNode
  /-- Makes a component on a node and puts it into a variable, without running a hook. -/
  | create (host : HostId) (type : ComponentType) (node : Node) (as : Handle)
  /-- Makes a component, binds its events, and puts it into a variable. -/
  | mount (host : HostId) (type : ComponentType) (node : Node) (as : Handle)
  /-- Binds the events of a component. -/
  | init (c : ComponentId)
  /-- Moves a component to a node. -/
  | update (c : ComponentId) (node : Node)
  /-- Unbinds the events of a component. -/
  | beforeRemove (c : ComponentId)
  /-- Drops the entry of the component's node. -/
  | remove (c : ComponentId)
  /-- Unbinds the events of a component and drops the entry of its node. -/
  | unmount (c : ComponentId)
  /-- Puts a component into a further variable. -/
  | hold (c : ComponentId) (as : Handle)
  /-- Empties a variable. -/
  | release (h : Handle)
  /-- The resolved views of a component. -/
  | views (c : ComponentId)
  /-- The resolved view model of a component. -/
  | model (c : ComponentId)
  /-- Renders a component. -/
  | render (c : ComponentId) (pipe : Pipe)
  /-- Renders resolved views around each other. -/
  | compose (views : List ResolvedView) (component : String) (attrs : Attrs) (pipe : Pipe)
  /-- Makes an instance of a class. -/
  | instantiate (cls : Class) (capability : Capability)
  /-- Asks the loader of a host. -/
  | load (host : HostId) (path : String)
  /-- Drops entries of a host. -/
  | reload (host : HostId) (selection : Cache.Selection)
  /-- Calls the listeners that a target has for an event. -/
  | dispatch (target : TargetId) (event : GlobalEvent)
  /-- A new listener that runs code of the application. -/
  | listener (key : String)
  /-- Registers a listener. -/
  | add (target : TargetId) (s : Subscription)
  /-- Removes a listener. -/
  | removeListener (target : TargetId) (s : Subscription)
  /-- Gives or takes the global events of a target's runtime. -/
  | switch (target : TargetId) (on : Bool)
  /-- Binds the events of a component to subscriptions kept by the application, on the target of
  any host. -/
  | bindTo (c : ComponentId) (host : HostId) (s : Subscriptions)
  /-- Unbinds subscriptions kept by the application from the target of any host. -/
  | unbindFrom (c : ComponentId) (host : HostId) (s : Subscriptions)
  /-- Calls a listener. -/
  | invoke (listener : Listener) (event : GlobalEvent)

/-- What an operation answers. -/
def Op.Reply : Op → Type
  | .freshNode => NodeId
  | .create _ _ _ _ => Except Error ComponentId
  | .mount _ _ _ _ => Except Error ComponentId
  | .init _ => Option (Except Error Unit)
  | .update _ _ => Option NodeId
  | .beforeRemove _ => Option Nat
  | .remove _ => Option Unit
  | .unmount _ => Option Unit
  | .hold _ _ => Bool
  | .release _ => Bool
  | .views _ => Option (Except Error ViewList)
  | .model _ => Option (Except Error Model)
  | .render _ _ => Option (Except Error (Option Markup) × Pipe)
  | .compose _ _ _ _ => Option Markup × Pipe
  | .instantiate _ _ => Except Error Instance
  | .load _ _ => Except LoadError Class
  | .reload _ _ => Nat
  | .dispatch _ _ => Nat
  | .listener _ => Listener
  | .add _ _ => Unit
  | .removeListener _ _ => Unit
  | .switch _ _ => Unit
  | .bindTo _ _ _ => Option (Except Error Unit × Subscriptions)
  | .unbindFrom _ _ _ => Option (Nat × Subscriptions)
  | .invoke _ _ => Unit

/-- A program that ends with an `α`. -/
inductive Program (κ : Client) (α : Type) : Type where
  /-- The end. -/
  | done (a : α)
  /-- Looks at the world. -/
  | look (k : World κ → Program κ α)
  /-- Replaces the memory of the application. -/
  | store (m : κ.Memory) (next : Program κ α)
  /-- Writes a note. -/
  | note (n : κ.Note) (next : Program κ α)
  /-- Calls an operation and goes on with its answer. -/
  | call (op : Op) (k : op.Reply → Program κ α)

namespace Program

variable {κ : Client} {α β : Type}

/-- Goes on with `f` where `p` ends. -/
def bind (p : Program κ α) (f : α → Program κ β) : Program κ β :=
  match p with
  | .done a => f a
  | .look k => .look fun w => (k w).bind f
  | .store m next => .store m (next.bind f)
  | .note n next => .note n (next.bind f)
  | .call op k => .call op fun r => (k r).bind f

instance : Monad (Program κ) where
  pure := .done
  bind := bind

/-- Calls an operation. -/
def perform (op : Op) : Program κ op.Reply := .call op .done

/-- The world as it is. -/
def world : Program κ (World κ) := .look .done

/-- The memory of the application. -/
def memory : Program κ κ.Memory := .look fun w => .done w.memory

/-- Changes the memory of the application. -/
def remember (f : κ.Memory → κ.Memory) : Program κ Unit :=
  .look fun w => .store (f w.memory) (.done ())

/-- Writes a note. -/
def write (n : κ.Note) : Program κ Unit := .note n (.done ())

/-- Runs a program, where `op` performs its operations. -/
def run (perform : (op : Op) → Act κ op.Reply) : Program κ α → Act κ α
  | .done a => return a
  | .look k => do run perform (k (← get))
  | .store m next => do
    modify fun w => { w with memory := m }
    run perform next
  | .note n next => do
    Act.record (.noted n)
    run perform next
  | .call op k => do run perform (k (← perform op))

/-- Running a program that goes on is running both parts. -/
theorem run_bind (perform : (op : Op) → Act κ op.Reply) (p : Program κ α)
    (f : α → Program κ β) :
    (p.bind f).run perform = p.run perform >>= fun a => (f a).run perform := by
  induction p with
  | done a => simp only [bind, run, pure_bind]
  | look k ih => simp only [bind, run, ih, bind_assoc]
  | store m next ih => simp only [bind, run, ih, bind_assoc]
  | note n next ih => simp only [bind, run, ih, bind_assoc]
  | call op k ih => simp only [bind, run, ih, bind_assoc]

end Program

/-- The code that an application brings. `m` says what code is: programs when it is written,
actions when it is run. -/
structure Callbacks (m : Type → Type) where
  /-- The loader with a given key, asked for the class at a path. -/
  load : Nat → String → m (Except LoadError Class)
  /-- The factory of an instance. -/
  make : Instance → m Unit
  /-- The body of a view: its output and the pipe it leaves. -/
  render : Instance → Frame → m (Option Markup × Pipe)
  /-- A method of a component type. -/
  handle : Method → ComponentId → GlobalEvent → m Unit
  /-- The code of a listener. -/
  listen : String → GlobalEvent → m Unit

/-- The code of an application, run by `run`. -/
def Callbacks.under {κ : Client} (code : Callbacks (Program κ))
    (run : {α : Type} → Program κ α → Act κ α) : Callbacks (Act κ) where
  load key path := run (code.load key path)
  make inst := run (code.make inst)
  render inst frame := run (code.render inst frame)
  handle method c event := run (code.handle method c event)
  listen key event := run (code.listen key event)

/-- An application: its hosts and its code. -/
structure Application (κ : Client) where
  host : HostId → Host
  code : Callbacks (Program κ)

/-- What operations need to know of the application they are part of. -/
structure Setting (κ : Client) where
  host : HostId → Host
  user : Callbacks (Act κ)

end LayeredViews
