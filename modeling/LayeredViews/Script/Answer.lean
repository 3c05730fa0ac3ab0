import LayeredViews.Build
import LayeredViews.Inspect
import LayeredViews.Script.Setup
/-!
# Answering steps

`Script.answer` is the program that does a step. A step on the component in a slot holds the
component until its answer has been made.
-/

namespace LayeredViews

namespace Script

open Program

/-- The code of a script. -/
abbrev Code := Program client

/-- The variable of a slot. -/
def slot (name : String) : Handle := ⟨0, name⟩

/-! ## Components and nodes -/

/-- Runs `body` with the component in a slot. -/
def withSlot (c : String) (body : ComponentId → Code Reply) : Code Reply := do
  let w ← world
  match w.handles.get? (slot c) with
  | none => return .noComponent
  | some id =>
    let own : Handle := ⟨w.memory.depth + 1, "step"⟩
    let _ ← perform (.hold id own)
    let reply ← body id
    let _ ← perform (.release own)
    return reply

/-- The answer read off a component. -/
def describe (id : ComponentId) (f : Component → Reply) : Code Reply := do
  match (← world).components.get? id with
  | some c => return f c
  | none => return .noComponent

/-- Runs `body` with the node at a place. -/
def withPlace (place : Place) (body : Node → Code Reply) : Code Reply := do
  match place with
  | .slot name =>
    match (← memory).nodes.get? name with
    | some node => body node
    | none => return .noNode
  | .fresh attrs => body ⟨← perform .freshNode, attrs⟩

/-- The answer after a component has been put on a node. -/
def mounted : Except Error ComponentId → Code Reply
  | .error e => return .failed e
  | .ok id => describe id fun c => .mounted c.metadata.name c.node.id c.subscriptions.bound

/-- The answer of an operation that has none of its own. -/
def doneOr : Option (Except Error Unit) → Reply
  | none => .noComponent
  | some (.error e) => .failed e
  | some (.ok ()) => .done

/-! ## Showing what was resolved -/

/-- The view model as it is shown; one that was not shown before gets the next number. -/
def showModel (m : Model) : Code ShownModel := do
  let mem ← memory
  let shown := mem.shownModels
  let shown := if m.inst.id ∈ shown then shown else shown ++ [m.inst.id]
  remember fun mem => { mem with shownModels := shown }
  return ⟨shown.idxOf m.inst.id, m.name, mem.models.get? m.inst.id⟩

/-- The views as they are shown, first to last. -/
def showViews : List ResolvedView → Code (List (String × Option ShownModel))
  | [] => return []
  | v :: rest => do
    let model ← match v.model with
      | none => pure none
      | some m => some <$> showModel m
    return (v.label, model) :: (← showViews rest)

/-- A list of views as it is shown; it gets its number before its view models do. -/
def showList (l : ViewList) : Code Reply := do
  let shown := (← memory).shownLists
  let shown := if l.id ∈ shown then shown else shown ++ [l.id]
  remember fun mem => { mem with shownLists := shown }
  return .views (shown.idxOf l.id) (← showViews l.views)

/-! ## Classes and types -/

/-- A class as it is shown. -/
def showClass (c : Class) : ShownClass :=
  { name := c.name
    capability := c.capability
    isView := c.satisfies .view
    isViewModel := c.satisfies .viewModel
    ancestors := c.ancestors
    parent := c.parent?.map Class.name
    hasDefiner := c.definer.isSome }

/-- Notes the definers that were run for a result, and gives the result. -/
def built {α : Type} (b : Built α) : Code (Except Error α) := do
  b.ran.forM fun owner => write (.defined owner)
  return b.result

/-- The answer of a build of metadata. -/
def metadataReply : Except Error Metadata → Reply
  | .error e => .failed e
  | .ok m => .metadata m

/-- Whether two builds have the same result. -/
def sameResult : Except Error Metadata → Except Error Metadata → Bool
  | .ok a, .ok b => a == b
  | .error a, .error b => a == b
  | _, _ => false

/-- A chain of definers, each owned by its number. -/
def chainOf (s : Script) (chain : List Calls) : List Definer :=
  chain.zipIdx.map fun (calls, n) => (classTable s).definer (toString n) calls

/-- Runs a chain of definers and notes what is kept after each call. -/
def evaluate (v : Vocabulary) (chain : List Definer) : Code Reply := do
  let run := v.run chain
  run.reached.forM fun (d, definer) => do
    write (.defined definer.owner)
    (v.errorsAfter d definer).forM fun e => write (.after e)
  match run.result with
  | .error e => return .failed e
  | .ok d => return .declared d

/-- Makes an instance and shows what it does on its own. -/
def instantiate (cls : Class) (capability : Capability) : Code Reply := do
  match ← perform (.instantiate cls capability) with
  | .error e => return .failed e
  | .ok inst =>
    match capability with
    | .view =>
      let (out, _) ← perform (.compose [⟨cls.name, inst, none⟩] "direct" ∅ ∅)
      return .markup out
    | .viewModel => return .made ((← memory).models.get? inst.id)

/-! ## Hosts and events -/

/-- The registry of a host. -/
def registry (s : Script) (h : Nat) : Code ClassRegistry := do
  return (← memory).registries.getD (registryHost s h) ∅

/-- Changes the registry of a host. -/
def setRegistry (s : Script) (h : Nat) (r : ClassRegistry) : Code Unit :=
  remember fun m => { m with registries := m.registries.insert (registryHost s h) r }

/-- The answer that names the class found at a path. -/
def previous : Option Class → Reply
  | none => .nothing
  | some c => .text c.name

/-- Whether a host has global events at the moment. -/
def hasGlobalEvents (s : Script) (h : Nat) : Code Bool := do
  match targetOf s h with
  | none => return false
  | some t => return ((← world).target t).present

/-- The listener of a slot, which is made when it is used first. -/
def listenerOf (name : String) (steps : List Step) : Code Listener := do
  match (← memory).listeners.get? name with
  | some listener => return listener
  | none =>
    let listener ← perform (.listener name)
    remember fun m =>
      { m with
        listeners := m.listeners.insert name listener
        listenerSteps := m.listenerSteps.insert name steps }
    return listener

/-- The subscriptions of a slot. -/
def subscriptionsOf (name : String) : Code Subscriptions := do
  return (← memory).subscriptions.getD name ∅

/-- The answer of a step on the subscriptions of a slot. -/
def subscriptionsReply (name : String) (r : Reply) : Code Reply := do
  return .subscriptions r (← subscriptionsOf name)

/-- Keeps subscriptions in a slot. -/
def keepSubscriptions (name : String) (s : Subscriptions) : Code Unit :=
  remember fun m => { m with subscriptions := m.subscriptions.insert name s }

/-! ## Rendering -/

/-- Renders a component on the pipe in a slot, which is empty meanwhile. -/
def renderWith (id : ComponentId) (name : String) (put : List (String × Json)) : Code Reply := do
  let pipe := put.foldl (fun p v => (p.insert v.1 v.2).2) ((← memory).pipes.getD name ∅)
  remember fun m => { m with pipes := m.pipes.erase name }
  match ← perform (.render id pipe) with
  | none => return .noComponent
  | some (out, pipe) =>
    remember fun m => { m with pipes := m.pipes.insert name pipe }
    return .rendered out pipe

/-- Composes a part of a component's views on an empty pipe. -/
def composePart (id : ComponentId) (name : String) (attrs : Attrs) (first : Nat)
    (last : Option Nat) : Code Reply := do
  match ← perform (.views id) with
  | none => return .noComponent
  | some (.error e) => return .failed e
  | some (.ok l) =>
    let views := (l.views.take (last.getD l.views.length)).drop first
    let (out, pipe) ← perform (.compose views name attrs ∅)
    return .rendered (.ok out) pipe

/-- Does a step. -/
def answer (s : Script) : Step → Code Reply
  | .describeClass id => return .cls (showClass ((classTable s).find id))
  | .inspectClass id => return .text ((classTable s).find id).inspect
  | .ensure id capability =>
    match ((classTable s).find id).ensure capability with
    | .ok () => return .done
    | .error e => return .failed e
  | .instantiate id capability => instantiate ((classTable s).find id) capability
  | .sameClass a b => return .flag (((classTable s).find a).same ((classTable s).find b))
  | .compare a b =>
    let declaration := fun x => Declaration.ofArgument ((classTable s).argument x)
    return .compared (declaration a) (declaration b)
  | .evaluate viewModel chain =>
    evaluate (if viewModel then .viewModel else .component) (chainOf s chain)
  | .build label chain handlers => do
    return metadataReply (← built (Metadata.build label (chainOf s chain) handlers.contains))
  | .buildType type => do return metadataReply (← built ((typeTable s).find type).build)
  | .sameMetadata a b => do
    let first ← built ((typeTable s).find a).build
    let second ← built ((typeTable s).find b).build
    return .flag (sameResult first second)
  | .buildModel id => do
    match ← built ((classTable s).find id).buildModel with
    | .error e => return .failed e
    | .ok name => return .named name
  | .describeType type methods =>
    let t := (typeTable s).find type
    return .type
      { label := t.label
        parent := t.parentLabel?
        ancestors := t.ancestors
        definers := t.chain.length
        handlers := methods.map t.hasHandler
        inspected := t.inspect }
  | .node as attrs => do
    let id ← perform .freshNode
    remember fun m => { m with nodes := m.nodes.insert as ⟨id, attrs⟩ }
    return .number id
  | .updateNode node attrs as => do
    match (← memory).nodes.get? node with
    | none => return .noNode
    | some old =>
      remember fun m => { m with nodes := m.nodes.insert as (old.updated attrs) }
      return .node (old.updated attrs) (old.updated attrs = old)
  | .nextId => do return .number (← perform .freshNode)
  | .register h path id => do
    let (old, r) := (← registry s h).register path ((classTable s).find id)
    setRegistry s h r
    return previous old
  | .unregister h path => do
    let (old, r) := (← registry s h).unregister path
    setRegistry s h r
    return previous old
  | .registry h => do return .size (← registry s h).size
  | .load h path => do
    match ← perform (.load h path) with
    | .error e => return .notLoaded e
    | .ok cls => return .found cls.name
  | .config h => return .config (host s h).config
  | .inspectHost h => do
    return .text ((host s h).inspect (← hasGlobalEvents s h) ((← world).cache h))
  | .mount h type as place => withPlace place fun node => do
    mounted (← perform (.mount h ((typeTable s).find type) node (slot as)))
  | .create h type as place => withPlace place fun node => do
    mounted (← perform (.create h ((typeTable s).find type) node (slot as)))
  | .reload h target => do
    match target with
    | .all => return .number (← perform (.reload h .all))
    | .source path => return .number (← perform (.reload h (.source path)))
    | .node name =>
      match (← memory).nodes.get? name with
      | none => return .noNode
      | some node => return .number (← perform (.reload h (.node node.id)))
    | .component c => withSlot c fun id => do
      match (← world).components.get? id with
      | none => return .noComponent
      | some c => return .number (← perform (.reload h (.node c.node.id)))
  | .cache h => do
    let cache := (← world).cache h
    return .cache cache.size cache.inspect
  | .dispatch h event detail => do
    match targetOf s h with
    | none => return .nothing
    | some t => return .number (← perform (.dispatch t ⟨event, detail⟩))
  | .listeners h events => do
    match targetOf s h with
    | none => return .nothing
    | some t =>
      let target := (← world).target t
      return .listeners (events.map target.count) target.listeners.isEmpty target.inspect
  | .setGlobal h on => do
    match targetOf s h with
    | none => return .flag false
    | some t =>
      perform (.switch t on)
      return .flag (← hasGlobalEvents s h)
  | .addListener h event name steps => do
    let listener ← listenerOf name steps
    match targetOf s h with
    | none => return .done
    | some t =>
      perform (.add t ⟨event, listener⟩)
      return .done
  | .removeListener h event name steps => do
    let listener ← listenerOf name steps
    match targetOf s h with
    | none => return .done
    | some t =>
      perform (.removeListener t ⟨event, listener⟩)
      return .done
  | .bindSubscriptions h c as => withSlot c fun id => do
    match ← perform (.bindTo id h (← subscriptionsOf as)) with
    | none => return .noComponent
    | some (r, subs) =>
      keepSubscriptions as subs
      subscriptionsReply as (doneOr (some r))
  | .unbindSubscriptions h c as => withSlot c fun id => do
    match ← perform (.unbindFrom id h (← subscriptionsOf as)) with
    | none => return .noComponent
    | some (n, subs) =>
      keepSubscriptions as subs
      subscriptionsReply as (.number n)
  | .fireSubscriptions c as event => withSlot c fun _ => do
    (← subscriptionsOf as).entries.forM fun sub => perform (.invoke sub.listener ⟨event, .null⟩)
    subscriptionsReply as .nothing
  | .subscriptions c as => withSlot c fun _ => subscriptionsReply as .nothing
  | .release c => do return .flag (← perform (.release (slot c)))
  | .hold c as => withSlot c fun id => do
    let _ ← perform (.hold id (slot as))
    return .done
  | .sameComponent c b => withSlot c fun id => withSlot b fun id' => return .flag (id == id')
  | .metadata c => withSlot c fun id => describe id fun c => .metadata c.metadata
  | .info c => withSlot c fun id => describe id fun c => .component
      { name := c.metadata.name
        kind := (host s c.host).config.kind
        label := c.type.label
        node := c.node
        bound := c.subscriptions.bound
        declarations := c.declarations (host s c.host).config }
  | .inspect c => withSlot c fun id => describe id fun c => .text c.inspect
  | .views c => withSlot c fun id => do
    match ← perform (.views id) with
    | none => return .noComponent
    | some (.error e) => return .failed e
    | some (.ok l) => showList l
  | .inspectViews c => withSlot c fun id => do
    match ← perform (.views id) with
    | none => return .noComponent
    | some (.error e) => return .failed e
    | some (.ok l) => return .text l.inspect
  | .model c => withSlot c fun id => do
    match ← perform (.model id) with
    | none => return .noComponent
    | some (.error e) => return .failed e
    | some (.ok m) => return .model (← showModel m)
  | .view c => withSlot c fun id => do
    match ← perform (.render id ∅) with
    | none => return .noComponent
    | some (.error e, _) => return .failed e
    | some (.ok out, _) => return .output out
  | .renderWith c pipe put => withSlot c fun id => renderWith id pipe put
  | .compose c name attrs first last => withSlot c fun id => composePart id name attrs first last
  | .init c => withSlot c fun id => do return doneOr (← perform (.init id))
  | .created c => withSlot c fun _ => return .done
  | .update c place => withSlot c fun id => withPlace place fun node => do
    match ← perform (.update id node) with
    | none => return .noComponent
    | some node => return .number node
  | .beforeRemove c => withSlot c fun id => do
    match ← perform (.beforeRemove id) with
    | none => return .noComponent
    | some n => return .number n
  | .remove c => withSlot c fun id => do
    let _ ← perform (.remove id)
    return .done
  | .unmount c => withSlot c fun id => do
    let _ ← perform (.unmount id)
    return .done

end Script

end LayeredViews
