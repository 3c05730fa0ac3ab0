import LayeredViews.Proofs.Follow

/-!
# Operations that keep every reasonable contract

Most operations look after components and entries and otherwise run code. They keep a contract if
the few steps that they are made of do.

* `Occurrence.Idle`: something recorded that is not about the entries of a host.
* `Contract.Lenient`: what is in use does not matter.
* `Contract.Holding`, `Contract.Running`: the steps of holding a component, and those of running
  code for one; `Contract.Running.render` and the lemmas near it are about the operations made of
  them.
* `Contract.Dropping`, `Contract.Tended`: the steps of looking after entries and components.
* `Contract.Registering`, `Contract.Subscribing`, `Contract.Binding`: those of binding events.
* `Contract.Crafting`, `Contract.Modelling`, `Contract.Filing`: those of making instances, of
  resolving view models, and of storing views as well; `Contract.Making` and `Contract.Storing` add
  those of running code. `Contract.Resolving` and `Contract.Answering` are about the operations made
  of them.
* `Contract.Serving`: the steps of the operations that do not look after components
  (`Contract.Serving.perform`), `Contract.Steady`: those of the operations that neither resolve nor
  move a component (`Contract.Steady.perform`), and `Contract.Working`: those of all operations
  (`Contract.Working.perform`).
-/

namespace LayeredViews

variable {κ : Client} {α β : Type}

/-- The occurrence is not part of a resolution. -/
def Occurrence.Plain : Occurrence κ → Prop
  | .resolving _ _ _ | .stored _ _ _ | .failed _ _ _ | .gave _ _ _ => False
  | _ => True

/-- The occurrence is part of a resolution. -/
def Occurrence.Resolves : Occurrence κ → Prop
  | .resolving _ _ _ | .stored _ _ _ | .failed _ _ _ | .gave _ _ _ => True
  | _ => False

/-- The occurrence is not about what is stored for a node. -/
def Occurrence.Idle : Occurrence κ → Prop
  | .dropped _ _ _ => False
  | o => o.Plain

/-- The occurrence is neither about what is stored for a node nor about binding events. -/
def Occurrence.Routine : Occurrence κ → Prop
  | .dropped _ _ _ | .initialized _ | .unbound _ => False
  | o => o.Plain

/-- The occurrence is not that an entry was dropped. -/
def Occurrence.Spares : Occurrence κ → Prop
  | .dropped _ _ _ => False
  | _ => True

theorem Occurrence.Idle.plain {o : Occurrence κ} (ho : o.Idle) : o.Plain := by
  cases o with
  | dropped => exact ho.elim
  | _ => exact ho

theorem Occurrence.Resolves.spares {o : Occurrence κ} (ho : o.Resolves) : o.Spares := by
  cases o with
  | dropped => exact ho
  | _ => trivial

theorem Occurrence.Routine.idle {o : Occurrence κ} (ho : o.Routine) : o.Idle := by
  cases o with
  | dropped => exact ho.elim
  | initialized => exact ho.elim
  | unbound => exact ho.elim
  | _ => exact ho

/-- The operation looks after components: it makes, moves or removes one, takes or lets go of one,
or drops entries. -/
def Op.Tends : Op → Prop
  | .create _ _ _ _ | .mount _ _ _ _ | .update _ _ | .remove _ | .unmount _ | .hold _ _
  | .release _ | .reload _ _ => True
  | _ => False

/-- The operation resolves something. -/
def Op.Resolves : Op → Prop
  | .views _ | .model _ | .render _ _ | .instantiate _ _ => True
  | _ => False

/-- The operation registers or removes listeners that the application keeps itself. -/
def Op.Registers : Op → Prop
  | .add _ _ | .removeListener _ _ | .bindTo _ _ _ | .unbindFrom _ _ _ => True
  | _ => False

namespace Contract

variable (C : Contract κ)

/-- The contract does not tell what is in use. -/
structure Lenient : Prop where
  loans : ∀ {w}, C.inv w → ∀ loans, C.inv { w with loans } ∧ C.step w { w with loans }
  conflict : ∀ cell, C.stops (some (.conflict cell))

/-- An operation may hold a component and let it go. -/
structure Holding : Prop where
  settle : ∀ c, C.Kept (Act.settle c)
  pin : ∀ {w}, C.inv w → ∀ c, C.inv (w.pin c)
  unpin : ∀ {w w' c}, C.inv w → C.inv w' → C.step (w.pin c) w' → C.inv w'.unpin ∧ C.step w w'.unpin

/-- Routine occurrences may be recorded. -/
structure Telling : Prop where
  routine : ∀ {o}, o.Routine → C.Kept (Act.record o)

/-- The steps that running code for components is made of keep the contract, as long as nothing
that is not routine is recorded. -/
structure Attending : Prop extends C.Telling where
  read : ∀ {α : Type} cell (f : World κ → α), C.Kept (Act.read cell f)
  /-- Code may run while the node of a component is read. -/
  lendNode : ∀ {α : Type} id {body : Act κ α}, C.Kept body →
    C.Kept (Act.lend (.node id) .read body)
  /-- Code may run while an operation holds a component. -/
  withComponent : ∀ {α : Type} c {body : Component → Act κ α}, (∀ comp, C.Kept (body comp)) →
    C.Kept (Act.withComponent c body)

/-- The steps that running code for components is made of keep the contract. -/
structure Running : Prop extends C.Attending where
  idle : ∀ {o}, o.Idle → C.Kept (Act.record o)
  routine := fun ho => idle ho.idle

variable {C}

theorem presentTarget {host : HostId → Host} {user : Callbacks (Act κ)} (h : HostId) :
    C.Kept (Setting.presentTarget ⟨host, user⟩ h) := by
  unfold Setting.presentTarget
  cases (host h).target with
  | none => exact .pure _
  | some t => exact .get_bind fun w => .pure _

namespace Lenient

variable (hL : C.Lenient)
include hL

theorem lend (cell : Cell) (access : Access) {body : Act κ α} (h : C.Kept body) :
    C.Kept (Act.lend cell access body) := by
  intro w hw
  rw [Act.wp_lend]
  split
  · exact hL.conflict cell
  · obtain ⟨hlent, hlend⟩ := hL.loans hw ((cell, access) :: w.loans)
    refine (h _ hlent).mono fun x w' ⟨hw', hstep⟩ => ?_
    obtain ⟨hback, hreturn⟩ := hL.loans hw' w'.loans.tail
    exact ⟨hback, C.trans hlend (C.trans hstep hreturn)⟩

theorem read (cell : Cell) (f : World κ → α) : C.Kept (Act.read cell f) :=
  hL.lend _ _ (.get_bind fun w => .pure (f w))

end Lenient

namespace Holding

/-- The contract does not tell what operations hold. -/
theorem of_pins (settle : ∀ c, C.Kept (Act.settle c))
    (pins : ∀ {w}, C.inv w → ∀ pins, C.inv { w with pins } ∧ C.step w { w with pins }) :
    C.Holding where
  settle := settle
  pin hw _ := (pins hw _).1
  unpin hw hw' hstep :=
    ⟨(pins hw' _).1, C.trans (pins hw _).2 (C.trans hstep (pins hw' _).2)⟩

variable (hH : C.Holding)
include hH

/-- `body` is run from the world in which the component is held. -/
theorem pinned_from {c : ComponentId} {body : Act κ α} {w : World κ} (hw : C.inv w)
    (h : C.inv (w.pin c) → C.KeptFrom (w.pin c) body) : C.KeptFrom w (Act.pinned c body) := by
  refine (Act.wp_pinned ..).2 ?_
  refine (h (hH.pin hw c)).mono fun x w' ⟨hw', hstep⟩ => ?_
  exact (hH.settle c).after (hH.unpin hw hw' hstep)

theorem pinned (c : ComponentId) {body : Act κ α} (h : C.Kept body) : C.Kept (Act.pinned c body) :=
  fun _ hw => hH.pinned_from hw fun hpin => h _ hpin

/-- An operation on a component is run on the one that there is. -/
theorem withComponent_at {c : ComponentId} {body : Component → Act κ α} {w : World κ}
    (hw : C.inv w)
    (h : ∀ comp, w.components.get? c = some comp → C.inv (w.pin c) →
      C.KeptFrom (w.pin c) (body comp)) : C.KeptFrom w (Act.withComponent c body) := by
  unfold KeptFrom
  rw [Act.wp_withComponent]
  cases hc : w.components.get? c with
  | none => exact ⟨hw, C.refl w⟩
  | some comp => exact hH.pinned_from hw fun hpin => (Act.wp_map _ _).2 (h comp hc hpin)

/-- An operation on a component that exists, and is held meanwhile. -/
theorem withComponent_from (c : ComponentId) {body : Component → Act κ α}
    (h : ∀ comp w, C.inv w → w.components.get? c = some comp → c ∈ w.pins →
      C.KeptFrom w (body comp)) :
    C.Kept (Act.withComponent c body) := fun _ hw =>
  hH.withComponent_at hw fun comp hc hpin => h comp _ hpin hc List.mem_cons_self

theorem keptWithComponent (c : ComponentId) {body : Component → Act κ α}
    (h : ∀ comp, C.Kept (body comp)) : C.Kept (Act.withComponent c body) :=
  hH.withComponent_from c fun comp w hw _ _ => h comp w hw

end Holding

namespace Telling

variable (hT : C.Telling)
include hT

theorem buildType (type : ComponentType) : C.Kept (Act.buildType type) :=
  Kept.bind (.forM fun _ => hT.routine trivial) fun _ => .pure _

variable {host : HostId → Host} {user : Callbacks (Act κ)} (hu : C.KeptBy user)
include hu

theorem load (h : HostId) (path : String) : C.Kept (Setting.load ⟨host, user⟩ h path) := by
  refine Kept.bind (hT.routine trivial) fun _ => Kept.bind ?_ fun result =>
    Kept.bind (hT.routine trivial) fun _ => .pure result
  unfold Setting.ask
  cases (host h).loader with
  | registry classes => exact .pure _
  | code key => exact hu.load key path

theorem classOf (h : HostId) (path : String → String) (d : Declaration) :
    C.Kept (Setting.classOf ⟨host, user⟩ h path d) := by
  cases d with
  | ofClass cls => exact .pure _
  | ident ident =>
    refine (hT.load hu h _).bind fun result => ?_
    cases result with
    | ok cls => exact .pure _
    | error e => exact .pure _

theorem resolveViews (hinst : ∀ cls, C.Kept (Setting.instantiate ⟨host, user⟩ cls .view))
    (h : HostId) (model : Option Model) (ds : List Declaration) :
    C.Kept (Setting.resolveViews ⟨host, user⟩ h model ds) := by
  induction ds with
  | nil => exact .pure _
  | cons d rest ih =>
    rw [Setting.resolveViews_cons]
    refine (hT.classOf hu h _ d).bind fun ⟨found, paths⟩ => ?_
    cases found with
    | error e => exact .pure _
    | ok cls =>
      refine (hinst cls).bind fun made => ?_
      cases made with
      | error e => exact .pure _
      | ok inst => exact ih.bind fun _ => .pure _

theorem compose (component : String) (attrs : Attrs) (pipe : Pipe) (vs : List ResolvedView) :
    C.Kept (Setting.compose ⟨host, user⟩ component attrs pipe vs) := by
  induction vs with
  | nil => exact .pure _
  | cons v rest ih =>
    exact ih.bind fun ⟨yielded, pipe⟩ => Kept.bind (hT.routine trivial) fun _ => hu.render v.inst _

end Telling

namespace Attending

variable {host : HostId → Host} {user : Callbacks (Act κ)} (hA : C.Attending)
  (hu : C.KeptBy user)
include hA hu

/-- Once the views of a component are resolved, they are composed. -/
theorem render_from {id : ComponentId} {c : Component} (pipe : Pipe) {w : World κ}
    (hviews : C.KeptFrom w (Setting.views ⟨host, user⟩ id c)) :
    C.KeptFrom w (Setting.render ⟨host, user⟩ id c pipe) := by
  rw [Setting.render_eq]
  refine hviews.bind fun found w' hw' => ?_
  refine Kept.after ?_ hw'
  cases found with
  | error e => exact .pure _
  | ok list =>
    unfold Setting.render.composeAll
    by_cases hl : list.views.isEmpty = true
    · simp only [hl, if_true]
      split
      · exact .pure _
      · exact .pure _
    · simp only [hl]
      exact hA.lendNode id (.get_bind fun w => (hA.compose hu _ _ _ _).bind fun _ => .pure _)

theorem render (id : ComponentId) (c : Component) (pipe : Pipe)
    (hviews : C.Kept (Setting.views ⟨host, user⟩ id c)) :
    C.Kept (Setting.render ⟨host, user⟩ id c pipe) := fun w hw =>
  hA.render_from hu pipe (hviews w hw)

theorem invoke (listener : Listener) (event : GlobalEvent) :
    C.Kept (Setting.invoke ⟨host, user⟩ listener event) := by
  unfold Setting.invoke
  cases listener.callback with
  | code key => exact hu.listen key event
  | method id method =>
    exact Kept.bind (hA.withComponent id fun c => Kept.bind (hA.routine trivial) fun _ =>
      hu.handle method id event) fun _ => .pure ()

theorem dispatch (t : TargetId) (event : GlobalEvent) :
    C.Kept (Setting.dispatch ⟨host, user⟩ t event) :=
  (hA.read _ _).bind fun listeners =>
    (Kept.forM fun listener => hA.invoke hu listener event).bind fun _ => .pure listeners.length

end Attending

/-- Putting a component that exists into a variable. -/
theorem hold_of {id : ComponentId} {as : Handle} (h : C.Kept (Act.bindHandle as id)) :
    C.Kept (do
      if (← get).components.contains id then
        Act.bindHandle as id
        return true
      else return false) := by
  refine .get_bind fun w => ?_
  by_cases hc : w.components.contains id = true
  · simp only [hc, if_true]
    exact h.bind fun _ => .pure true
  · simp only [hc]
    exact .pure false

variable (C) in
/-- Entries may be dropped as well. -/
structure Clearing : Prop extends C.Attending where
  discard : ∀ h selection cause, C.Kept (Act.discard h selection cause)

variable (C) in
/-- Entries may be dropped while code runs for components. -/
structure Dropping : Prop extends C.Running, C.Clearing

namespace Clearing

variable (hD : C.Clearing)
include hD

theorem remove (id : ComponentId) (c : Component) : C.Kept (Act.remove id c) :=
  Kept.bind (hD.read _ _) fun _ => Kept.bind (hD.discard _ _ _) fun _ => .pure ()

theorem update (id : ComponentId) (c : Component) (node : Node)
    (hswap : C.Kept (Act.swapNode id c node)) : C.Kept (Act.update id c node) := by
  refine hswap.bind fun previous => Kept.bind (hD.read _ _) fun current => ?_
  by_cases hc : previous.id = current.id
  · simp only [hc, if_true]
    exact .pure _
  · simp only [hc, if_false]
    exact (hD.discard _ _ _).bind fun _ => .pure _

theorem unmount_of {host : HostId → Host} {user : Callbacks (Act κ)} (id : ComponentId)
    (c : Component) (hbefore : C.Kept (Setting.beforeRemove ⟨host, user⟩ id c)) :
    C.Kept (Setting.unmount ⟨host, user⟩ id c) :=
  hbefore.bind fun _ => (hD.remove id c).bind fun _ => hD.routine trivial

end Clearing

variable (C) in
/-- Variables may take and let go of components. -/
structure Handling : Prop extends C.Holding where
  handles : ∀ {w}, C.inv w → ∀ handles, C.inv { w with handles } ∧ C.step w { w with handles }

namespace Handling

variable (hT : C.Handling)
include hT

theorem bindHandle (as : Handle) (c : ComponentId) : C.Kept (Act.bindHandle as c) := by
  intro w hw
  have hbound := hT.handles hw (w.handles.insert as c)
  rw [Act.wp_bindHandle]
  cases w.handles.get? as with
  | none => exact hbound
  | some old => exact (hT.settle old).after hbound

theorem release (h : Handle) : C.Kept (Act.release h) := by
  intro w hw
  have hreleased := hT.handles hw (w.handles.erase h)
  rw [Act.wp_release]
  cases w.handles.get? h with
  | none => exact ⟨hw, C.refl w⟩
  | some old => exact (hT.settle old).after hreleased

end Handling

variable (C) in
/-- The steps that operations on components and entries are made of keep the contract. -/
structure Tended : Prop extends C.Handling, C.Dropping where
  withComponent := Holding.keptWithComponent ⟨settle, pin, unpin⟩

/-! ## Events -/

variable (C) in
/-- The steps that registering and removing listeners is made of keep the contract. -/
structure Registering : Prop where
  idle : ∀ {o}, o.Idle → C.Kept (Act.record o)
  updateTarget : ∀ t f, C.Kept (Act.updateTarget t f)
  freshListener : ∀ callback, C.Kept (Act.freshListener callback)

variable (C) in
/-- Subscriptions may be changed as well. -/
structure Subscribing : Prop extends C.Registering where
  withSubscriptions : ∀ {α : Type} id c {body : Subscriptions → Act κ (α × Subscriptions)},
    (∀ s, C.Kept (body s)) → C.Kept (Act.withSubscriptions id c body)

variable (C) in
/-- The steps that the life of a component is made of keep the contract. -/
structure Living : Prop extends C.Tended where
  freshComponent : ∀ c, C.Kept (Act.freshComponent c)

variable (C) in
/-- The steps that the life of a component with events is made of keep the contract. -/
structure Binding : Prop extends C.Living, C.Subscribing

variable {host : HostId → Host} {user : Callbacks (Act κ)}

namespace Registering

variable (hE : C.Registering)
include hE

theorem addListener (t : TargetId) (s : Subscription) : C.Kept (Act.addListener t s) :=
  (hE.updateTarget t _).bind fun _ => hE.idle trivial

theorem removeListener (t : TargetId) (s : Subscription) : C.Kept (Act.removeListener t s) :=
  (hE.updateTarget t _).bind fun _ => hE.idle trivial

theorem subscribe (t : TargetId) (id : ComponentId) (type : ComponentType)
    (events : List EventBinding) : C.Kept (Act.subscribe t id type events) := by
  induction events with
  | nil => exact .pure []
  | cons b rest ih =>
    unfold Act.subscribe
    cases type.findMethod b.handler with
    | none => exact ih
    | some method =>
      exact (hE.freshListener _).bind fun l => (hE.addListener t ⟨b.event, l⟩).bind fun _ =>
        ih.bind fun added => .pure (⟨b.event, l⟩ :: added)

theorem bindAll (h : HostId) (id : ComponentId) (c : Component) (s : Subscriptions) :
    C.Kept (Setting.bindAll ⟨host, user⟩ h id c s) := by
  refine (presentTarget h).bind fun present => ?_
  cases present with
  | none => exact .pure _
  | some t =>
    cases hb : s.bound with
    | true => exact .pure _
    | false => exact (hE.subscribe t id _ _).bind fun _ => .pure _

theorem unbindAll (h : HostId) (s : Subscriptions) :
    C.Kept (Setting.unbindAll ⟨host, user⟩ h s) := by
  refine (presentTarget h).bind fun present => ?_
  cases present with
  | none => exact .pure _
  | some t => exact Kept.bind (.forM fun s => hE.removeListener t s) fun _ => .pure _

theorem init_of (id : ComponentId) (c : Component)
    (h : C.Kept (Act.withSubscriptions id c (Setting.bindAll ⟨host, user⟩ c.host id c))) :
    C.Kept (Setting.init ⟨host, user⟩ id c) := by
  refine h.bind fun bound => ?_
  cases bound with
  | error e => exact .pure _
  | ok _ => exact Kept.bind (hE.idle trivial) fun _ => .pure _

theorem beforeRemove_of (id : ComponentId) (c : Component)
    (h : C.Kept (Act.withSubscriptions id c (Setting.unbindAll ⟨host, user⟩ c.host))) :
    C.Kept (Setting.beforeRemove ⟨host, user⟩ id c) :=
  h.bind fun removed => Kept.bind (hE.idle trivial) fun _ => .pure removed

end Registering

namespace Subscribing

variable (hS : C.Subscribing)
include hS

theorem init (id : ComponentId) (c : Component) : C.Kept (Setting.init ⟨host, user⟩ id c) :=
  hS.init_of id c (hS.withSubscriptions id c fun s => hS.bindAll c.host id c s)

theorem beforeRemove (id : ComponentId) (c : Component) :
    C.Kept (Setting.beforeRemove ⟨host, user⟩ id c) :=
  hS.beforeRemove_of id c (hS.withSubscriptions id c fun s => hS.unbindAll c.host s)

end Subscribing

namespace Living

variable (hL : C.Living)
include hL

theorem create (h : HostId) (type : ComponentType) (node : Node) (as : Handle) :
    C.Kept (Act.create h type node as) := by
  refine (hL.buildType type).bind fun built => ?_
  cases built with
  | error e => exact .pure _
  | ok metadata =>
    exact (hL.freshComponent _).bind fun id => (hL.bindHandle as id).bind fun _ => .pure _

theorem mount_of (h : HostId) (type : ComponentType) (node : Node) (as : Handle)
    (hinit : ∀ id c, C.Kept (Setting.init ⟨host, user⟩ id c)) :
    C.Kept (Setting.mount ⟨host, user⟩ h type node as) := by
  refine (hL.buildType type).bind fun built => ?_
  cases built with
  | error e => exact .pure _
  | ok metadata =>
    refine (hL.freshComponent _).bind fun id => hL.pinned id ?_
    refine (hinit id _).bind fun bound => ?_
    cases bound with
    | error e => exact .pure _
    | ok _ =>
      exact Kept.bind (hL.idle trivial) fun _ => (hL.bindHandle as id).bind fun _ => .pure _

end Living

namespace Binding

variable (hB : C.Binding)
include hB

theorem unmount (id : ComponentId) (c : Component) :
    C.Kept (Setting.unmount ⟨host, user⟩ id c) :=
  hB.unmount_of id c (hB.beforeRemove id c)

theorem mount (h : HostId) (type : ComponentType) (node : Node) (as : Handle) :
    C.Kept (Setting.mount ⟨host, user⟩ h type node as) :=
  hB.mount_of h type node as hB.init

end Binding

/-! ## Resolutions -/

variable (C) in
/-- The steps that making instances is made of keep the contract. -/
structure Crafting : Prop extends C.Telling where
  freshInstance : ∀ factory, C.Kept (Act.freshInstance factory)

variable (C) in
/-- The steps that resolving view models is made of keep the contract, as long as nothing is
recorded but them and what is routine. -/
structure Modelling : Prop extends C.Attending, C.Crafting where
  told : ∀ {o}, o.Resolves → (∀ h n l, o ≠ .stored h n (.views l)) → C.Kept (Act.record o)
  updateEntry : ∀ h n f, C.Kept (Act.updateEntry h n f)

variable (C) in
/-- The steps that resolutions are made of keep the contract, as long as nothing is recorded but
them and what is routine. -/
structure Filing : Prop extends C.Modelling where
  filed : ∀ {o}, o.Resolves → C.Kept (Act.record o)
  freshList : ∀ views, C.Kept (Act.freshList views)
  told := fun ho _ => filed ho

variable (C) in
/-- The steps that making instances is made of keep the contract as well. -/
structure Making : Prop extends C.Running, C.Crafting

variable (C) in
/-- The steps that resolutions are made of keep the contract as well. -/
structure Storing : Prop extends C.Making, C.Filing where
  record : ∀ {o}, o.Spares → C.Kept (Act.record o)
  filed := fun ho => record ho.spares

variable (hu : C.KeptBy user)

namespace Crafting

variable (hM : C.Crafting)
include hM hu

theorem instantiate (cls : Class) (capability : Capability) :
    C.Kept (Setting.instantiate ⟨host, user⟩ cls capability) := by
  unfold Setting.instantiate
  cases cls.factory capability with
  | error e => exact .pure _
  | ok factory =>
    refine Kept.map ((hM.freshInstance factory).bind fun inst => ?_)
    exact Kept.bind (hM.routine trivial) fun _ => (hu.make inst).bind fun _ => .pure inst

theorem makeModel (cls : Class) : C.Kept (Setting.makeModel ⟨host, user⟩ cls) := by
  unfold Setting.makeModel
  cases cls.ensure .viewModel with
  | error e => exact .pure _
  | ok _ =>
    refine Kept.bind (.forM fun owner => hM.routine trivial) fun _ => ?_
    cases cls.buildModel.result with
    | error e => exact .pure _
    | ok name =>
      refine (hM.instantiate hu cls .viewModel).bind fun made => ?_
      cases made with
      | error e => exact .pure _
      | ok inst => exact .pure _

theorem resolveModel (c : Component) : C.Kept (Setting.resolveModel ⟨host, user⟩ c) := by
  refine (hM.classOf hu c.host _ _).bind fun ⟨found, paths⟩ => ?_
  cases found with
  | error e => exact .pure _
  | ok cls => exact (hM.makeModel hu cls).bind fun _ => .pure _

end Crafting

include hu in
theorem Modelling.modelWithSources (hS : C.Modelling) (id : ComponentId) (c : Component) :
    C.Kept (Setting.modelWithSources ⟨host, user⟩ id c) := by
  refine Kept.bind (hS.read _ _) fun node => Kept.bind (hS.read _ _) fun e => ?_
  cases e.model with
  | some m => exact Kept.bind (hS.told trivial nofun) fun _ => .pure _
  | none =>
    refine Kept.bind (hS.told trivial nofun) fun _ =>
      (hS.resolveModel hu c).bind fun ⟨model, paths⟩ => ?_
    cases model with
    | error e => exact Kept.bind (hS.told trivial nofun) fun _ => .pure _
    | ok m =>
      exact (hS.updateEntry _ _ _).bind fun _ => Kept.bind (hS.told trivial nofun) fun _ =>
        Kept.bind (hS.told trivial nofun) fun _ => .pure _

namespace Filing

variable (hS : C.Filing)
include hS hu

theorem views (id : ComponentId) (c : Component) :
    C.Kept (Setting.views ⟨host, user⟩ id c) := by
  have fail : ∀ n e, C.Kept (Setting.views.fail c n e) := fun n e =>
    Kept.bind (hS.filed trivial) fun _ => .pure _
  have resolve : ∀ n model paths, C.Kept (Setting.views.resolve ⟨host, user⟩ c n model paths) := by
    intro n model paths
    refine (hS.resolveViews hu (fun cls => hS.instantiate hu cls .view) c.host model _).bind
      fun ⟨resolved, more⟩ => ?_
    cases resolved with
    | error e => exact fail n e
    | ok list =>
      exact (hS.freshList list).bind fun l => (hS.updateEntry _ _ _).bind fun _ =>
        Kept.bind (hS.filed trivial) fun _ => Kept.bind (hS.filed trivial) fun _ => .pure _
  rw [Setting.views_eq]
  refine Kept.bind (hS.read _ _) fun node => Kept.bind (hS.read _ _) fun e => ?_
  cases e.views with
  | some l => exact Kept.bind (hS.filed trivial) fun _ => .pure _
  | none =>
    refine Kept.bind (hS.filed trivial) fun _ =>
      (hS.modelWithSources hu id c).bind fun ⟨model, paths⟩ => ?_
    cases model with
    | ok m => exact resolve _ _ _
    | error e =>
      by_cases he : e.isResolution = true
      · simp only [he, if_true]
        exact resolve _ _ _
      · simp only [he]
        exact fail _ _

end Filing

/-! ## Operations -/

variable (C) in
/-- The operations that resolve keep the contract where the code that they call does. -/
structure Resolving (host : HostId → Host) : Prop where
  instantiate : ∀ {user}, C.KeptBy user → ∀ cls capability,
    C.Kept (Setting.instantiate ⟨host, user⟩ cls capability)
  modelWithSources : ∀ {user}, C.KeptBy user → ∀ id c,
    C.Kept (Setting.modelWithSources ⟨host, user⟩ id c)
  views : ∀ {user}, C.KeptBy user → ∀ id c, C.Kept (Setting.views ⟨host, user⟩ id c)

theorem Filing.resolving (hS : C.Filing) : C.Resolving host where
  instantiate hu := hS.instantiate hu
  modelWithSources hu := hS.modelWithSources hu
  views hu := hS.views hu

variable (C) in
/-- The operations that give what is resolved keep the contract where the code that they call
does. -/
structure Answering (host : HostId → Host) : Prop where
  instantiate : ∀ {user}, C.KeptBy user → ∀ cls capability,
    C.Kept (Setting.instantiate ⟨host, user⟩ cls capability)
  model : ∀ {user}, C.KeptBy user → ∀ id,
    C.Kept (Act.withComponent id fun c => Setting.model ⟨host, user⟩ id c)
  views : ∀ {user}, C.KeptBy user → ∀ id,
    C.Kept (Act.withComponent id fun c => Setting.views ⟨host, user⟩ id c)
  render : ∀ {user}, C.KeptBy user → ∀ id pipe,
    C.Kept (Act.withComponent id fun c => Setting.render ⟨host, user⟩ id c pipe)

theorem Resolving.answering (hA : C.Resolving host) (hR : C.Attending) : C.Answering host where
  instantiate := hA.instantiate
  model hu id := hR.withComponent id fun c => (hA.modelWithSources hu id c).bind fun _ => .pure _
  views hu id := hR.withComponent id fun c => hA.views hu id c
  render hu id pipe := hR.withComponent id fun c => hR.render hu id c pipe (hA.views hu id c)

/-- An operation that resolves. -/
theorem Answering.perform (hA : C.Answering host) {user : Callbacks (Act κ)} (hu : C.KeptBy user)
    {op : Op} (hop : op.Resolves) : C.Kept (Setting.perform ⟨host, user⟩ op) := by
  cases op with
  | views id => exact hA.views hu id
  | model id => exact hA.model hu id
  | render id pipe => exact hA.render hu id pipe
  | instantiate cls capability => exact hA.instantiate hu cls capability
  | _ => exact hop.elim

/-- An operation on listeners that the application keeps. -/
theorem Registering.perform (hE : C.Registering) (hA : C.Attending) {op : Op}
    (hop : op.Registers) : C.Kept (Setting.perform ⟨host, user⟩ op) := by
  cases op with
  | add t s => exact hE.addListener t s
  | removeListener t s => exact hE.removeListener t s
  | bindTo id h s => exact hA.withComponent id fun c => hE.bindAll h id c s
  | unbindFrom id h s => exact hA.withComponent id fun c => hE.unbindAll h s
  | _ => exact hop.elim

variable (C) in
/-- The steps of the operations that neither look after components nor resolve keep the contract,
where it is left to components to register listeners. -/
structure Minding (host : HostId → Host) : Prop extends C.Attending where
  freshListener : ∀ callback, C.Kept (Act.freshListener callback)
  bind : ∀ {user} id, C.Kept (Act.withComponent id fun c => Setting.init ⟨host, user⟩ id c)
  unbind : ∀ {user} id,
    C.Kept (Act.withComponent id fun c => Setting.beforeRemove ⟨host, user⟩ id c)
  placed : ∀ {w}, C.inv w → C.inv { w with nextNode := w.nextNode + 1 } ∧
    C.step w { w with nextNode := w.nextNode + 1 }
  switched : ∀ {w}, C.inv w → ∀ t on, C.inv (w.setTarget t ((w.target t).switch on)) ∧
    C.step w (w.setTarget t ((w.target t).switch on))

theorem Minding.perform (hM : C.Minding host) {user : Callbacks (Act κ)} (hu : C.KeptBy user)
    {op : Op} (ht : ¬op.Tends) (hr : ¬op.Resolves) (hg : ¬op.Registers) :
    C.Kept (Setting.perform ⟨host, user⟩ op) := by
  cases op with
  | freshNode => exact fun w hw => hM.placed hw
  | init id => exact hM.bind id
  | beforeRemove id => exact hM.unbind id
  | views | model | render | instantiate => exact absurd trivial hr
  | compose vs component attrs pipe => exact hM.compose hu component attrs pipe vs
  | load h path => exact hM.load hu h path
  | dispatch t event => exact hM.dispatch hu t event
  | listener key => exact hM.freshListener _
  | add | removeListener | bindTo | unbindFrom => exact absurd trivial hg
  | switch t on => exact fun w hw => hM.switched hw t on
  | invoke listener event => exact hM.invoke hu listener event
  | _ => exact absurd trivial ht

variable (C) in
/-- The steps of the operations that do not look after components keep the contract. -/
structure Serving (host : HostId → Host) : Prop
    extends C.Running, C.Registering, C.Answering host where
  init : ∀ {user} id c, C.Kept (Setting.init ⟨host, user⟩ id c)
  beforeRemove : ∀ {user} id c, C.Kept (Setting.beforeRemove ⟨host, user⟩ id c)
  placed : ∀ {w}, C.inv w → C.inv { w with nextNode := w.nextNode + 1 } ∧
    C.step w { w with nextNode := w.nextNode + 1 }
  switched : ∀ {w}, C.inv w → ∀ t on, C.inv (w.setTarget t ((w.target t).switch on)) ∧
    C.step w (w.setTarget t ((w.target t).switch on))

theorem Serving.minding (hS : C.Serving host) : C.Minding host where
  toAttending := hS.toAttending
  freshListener := hS.freshListener
  bind id := hS.withComponent id fun c => hS.init id c
  unbind id := hS.withComponent id fun c => hS.beforeRemove id c
  placed := hS.placed
  switched := hS.switched

/-- An operation that does not look after components. -/
theorem Serving.perform (hS : C.Serving host) {user : Callbacks (Act κ)} (hu : C.KeptBy user)
    {op : Op} (hop : ¬op.Tends) : C.Kept (Setting.perform ⟨host, user⟩ op) := by
  by_cases hr : op.Resolves
  · exact hS.toAnswering.perform hu hr
  · by_cases hg : op.Registers
    · exact hS.toRegistering.perform hS.toAttending hg
    · exact hS.minding.perform hu hop hr hg

variable (C) in
/-- The steps of all operations but those that resolve or move a component keep the contract,
where it is left to components to register listeners. -/
structure Steady (host : HostId → Host) : Prop extends C.Minding host, C.Clearing where
  create : ∀ h type node as, C.Kept (Act.create h type node as)
  mount : ∀ {user} h type node as, C.Kept (Setting.mount ⟨host, user⟩ h type node as)
  unmount : ∀ {user} id, C.Kept (Act.withComponent id fun c => Setting.unmount ⟨host, user⟩ id c)
  bindHandle : ∀ as c, C.Kept (Act.bindHandle as c)
  release : ∀ h, C.Kept (Act.release h)

theorem Steady.perform (hS : C.Steady host) {user : Callbacks (Act κ)} (hu : C.KeptBy user)
    {op : Op} (hr : ¬op.Resolves) (hg : ¬op.Registers) (hop : ∀ id node, op ≠ .update id node) :
    C.Kept (Setting.perform ⟨host, user⟩ op) := by
  cases op with
  | create h type node as => exact hS.create h type node as
  | mount h type node as => exact hS.mount h type node as
  | update id node => exact absurd rfl (hop id node)
  | remove id => exact hS.withComponent id fun c => hS.remove id c
  | unmount id => exact hS.unmount id
  | hold id as => exact hold_of (hS.bindHandle as id)
  | release h => exact hS.release h
  | reload h selection => exact hS.discard h selection _
  | _ => exact hS.toMinding.perform hu id hr hg

variable (C) in
/-- The steps of all operations keep the contract, except perhaps for moving a component. -/
structure Working (host : HostId → Host) : Prop extends C.Serving host, C.Dropping where
  create : ∀ h type node as, C.Kept (Act.create h type node as)
  mount : ∀ {user} h type node as, C.Kept (Setting.mount ⟨host, user⟩ h type node as)
  bindHandle : ∀ as c, C.Kept (Act.bindHandle as c)
  release : ∀ h, C.Kept (Act.release h)

theorem Working.steady (hW : C.Working host) : C.Steady host where
  toMinding := hW.minding
  discard := hW.discard
  create := hW.create
  mount := hW.mount
  unmount id := hW.withComponent id fun c => hW.unmount_of id c (hW.beforeRemove id c)
  bindHandle := hW.bindHandle
  release := hW.release

theorem Living.working (hL : C.Living) (hS : C.Serving host) : C.Working host where
  toServing := hS
  discard := hL.discard
  create := hL.create
  mount h type node as := hL.mount_of h type node as hS.init
  bindHandle := hL.bindHandle
  release := hL.release

/-- An operation that does not move a component. -/
theorem Working.perform (hW : C.Working host) {user : Callbacks (Act κ)} (hu : C.KeptBy user)
    {op : Op} (hop : ∀ id node, op ≠ .update id node) :
    C.Kept (Setting.perform ⟨host, user⟩ op) := by
  by_cases hr : op.Resolves
  · exact hW.toAnswering.perform hu hr
  · by_cases hg : op.Registers
    · exact hW.toRegistering.perform hW.toAttending hg
    · exact hW.steady.perform hu hr hg hop

end Contract

end LayeredViews
