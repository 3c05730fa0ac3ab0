import LayeredViews.Script.Answer
/-!
# The code of a script

What the loaders, factories, views, methods and listeners of a script do. All of them may ask for
steps; a step that is nested too deeply is noted and not done.
-/

namespace LayeredViews

namespace Script

open Program

/-- How many steps can be under way around another one. -/
def maxDepth : Nat := 5

/-- Does a step that code asked for. -/
def nestedStep (s : Script) (step : Step) : Code Unit := do
  let depth := (← memory).depth
  if maxDepth ≤ depth then write (.tooDeep step)
  else
    remember fun m => { m with depth := depth + 1 }
    let reply ← answer s step
    remember fun m => { m with depth := depth }
    write (.stepped step reply)

/-- Does the steps that code asked for. -/
def nested (s : Script) (steps : List Step) : Code Unit := steps.forM (nestedStep s)

/-- Asks a loader: its steps are done first. -/
def load (s : Script) (h : Nat) (path : String) : Code (Except LoadError Class) := do
  match s.hosts[h]? with
  | none => return .error (.notFound path)
  | some e =>
    nested s ((e.onLoad.lookup path).getD [])
    match e.fail.lookup path with
    | some reason => return .error (.construct path reason)
    | none => return (← registry s h).load path

/-- A counter after an addition; counters have 64 bits and wrap around. -/
def increased (n amount : Int) : Int := Int.bmod (n + amount) 0x10000000000000000

/-- Keeps the state of a view model. -/
def setState (id : InstanceId) (state : ModelState) : Code Unit :=
  remember fun m => { m with models := m.models.insert id state }

/-- Makes an instance: what the class asks for is done before a view model has its state. -/
def make (s : Script) (inst : Instance) : Code Unit := do
  match s.classes[inst.factory.key]? with
  | none => return
  | some e =>
    nested s e.onNew
    match e.form with
    | .greeting text => setState inst.id (.greeting text)
    | .counter start => setState inst.id (.counter start)
    | _ => return

/-- How far a body has come: the output so far and the pipe. -/
structure Progress where
  output : Option Markup
  pipe : Pipe

/-- A text or nothing. -/
def optionalText : Option String → Json
  | none => .null
  | some s => .str s

/-- The state of the view model that a body was given. -/
def modelState (frame : Frame) : Code (Option ModelState) := do
  match frame.model with
  | none => return none
  | some m => return (← memory).models.get? m.inst.id

/-- The element that shows a view model. -/
def showState (bound : Bool) (state : Option ModelState) : Markup :=
  let greeting := state.bind ModelState.greeting?
  let counter := state.bind ModelState.counter?
  ((((Markup.tagged "vm").attr "bound" (.bool bound)).attr "is_greeting"
    (.bool greeting.isSome)).attr "greeting" (optionalText greeting)).attr "counter"
      (match counter with | none => .null | some n => .int n)

/-- Does an action of a body. -/
def act (s : Script) (inst : Instance) (frame : Frame) (p : Progress) : Action → Code Progress
  | .wrap tag attrs =>
    return around p (attrs.foldl (fun m a => m.attr a.1 a.2) (Markup.tagged tag))
  | .text t => return { p with output := some (.text t) }
  | .append t => return { p with output := some (match p.output with
      | none => .text t
      | some m => m.child (.text t)) }
  | .prepend t => return around p (.fragment [.text t])
  | .set key value => return { p with output := p.output.map fun m => m.attr key value }
  | .clear => return { p with output := none }
  | .ifNone t => return { p with output := some (p.output.getD (.text t)) }
  | .put key value => do
    let (old, pipe) := p.pipe.insert key value
    write (.put key old)
    return { p with pipe }
  | .take key => do
    let (old, pipe) := p.pipe.remove key
    write (.take key old)
    return { p with pipe }
  | .get key =>
    return around p ((Markup.tagged "get").attr "value" ((p.pipe.get? key).getD .null))
  | .attr key =>
    let shown := (Markup.tagged "attr").attr "key" (.str key)
    let shown := match frame.attrs.get? key with
      | none => shown
      | some value => shown.attr "value" value
    return around p (shown.attr "count" (.int frame.attrs.size))
  | .component =>
    return around p ((Markup.tagged "component").attr "name" (.str frame.component))
  | .model => do return around p (showState frame.model.isSome (← modelState frame))
  | .increase amount => do
    match frame.model, ← modelState frame with
    | some m, some (.counter n) =>
      setState m.inst.id (.counter (increased n amount))
      return p
    | _, _ => return p
  | .self => do
    let renders := (← memory).renders.getD inst.id 0
    return around p (((Markup.tagged "instance").attr "id" (.int inst.id)).attr "renders"
      (.int renders))
  | .inspect => do
    write (.inspected ({ frame with pipe := p.pipe } : Frame).inspect)
    return p
  | .steps steps => do
    nested s steps
    return p
where
  /-- Puts markup around the output. -/
  around (p : Progress) (m : Markup) : Progress := { p with output := some (m.childOpt p.output) }

/-- The body of a class; a class that is no view has none. -/
def ClassEntry.body (e : ClassEntry) : List Action :=
  match e.form with
  | .view body => body
  | _ => []

/-- Renders a view: its body starts with what was yielded to it. -/
def render (s : Script) (inst : Instance) (frame : Frame) : Code (Option Markup × Pipe) := do
  match s.classes[inst.factory.key]? with
  | none => return (frame.yielded, frame.pipe)
  | some e =>
    remember fun m =>
      { m with renders := m.renders.insert inst.id (m.renders.getD inst.id 0 + 1) }
    let p ← e.body.foldlM (act s inst frame) ⟨frame.yielded, frame.pipe⟩
    return (p.output, p.pipe)

/-- What a method asks for; of several with one name the last counts. -/
def methodSteps (s : Script) (method : Method) : List Step :=
  match s.types[method.owner]? with
  | none => []
  | some e => (e.methods.reverse.lookup method.name).getD []

/-- Runs `body` while the slot `self` holds a component; afterwards the slot holds what it held
before. -/
def withSelf (id : ComponentId) (body : Code Unit) : Code Unit := do
  let w ← world
  let kept : Handle := ⟨w.memory.depth + 1, "self"⟩
  match w.handles.get? (slot "self") with
  | none =>
    let _ ← perform (.hold id (slot "self"))
    body
    let _ ← perform (.release (slot "self"))
  | some before =>
    let _ ← perform (.hold before kept)
    let _ ← perform (.hold id (slot "self"))
    body
    let _ ← perform (.hold before (slot "self"))
    let _ ← perform (.release kept)

/-- Calls a method of a component. -/
def handle (s : Script) (method : Method) (id : ComponentId) (_event : GlobalEvent) : Code Unit :=
  withSelf id (nested s (methodSteps s method))

/-- Calls the listener of a slot. -/
def listen (s : Script) (name : String) (event : GlobalEvent) : Code Unit := do
  write (.heard name event)
  nested s ((← memory).listenerSteps.getD name [])

/-- A script as an application. -/
def application (s : Script) : Application client where
  host := host s
  code :=
    { load := load s
      make := make s
      render := render s
      handle := handle s
      listen := listen s }

end Script

end LayeredViews
