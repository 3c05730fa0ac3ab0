import LayeredViews.Proofs.Calm

/-!
# Components that stay where they are

Binding events, making instances and writing notes leave every component on its node, and leave it
with whoever holds it.

* `World.location`: the host and the node of a component that exists.
* `World.Stays`: the steps that leave entries and components alone.
* `Contract.Aloof`: such steps keep the contract. Then so do the operations on events, and all that
  do not look after components if those that resolve do (`Contract.Aloof.serving`).
* `stays`: as a contract, that nothing else happens.
-/

namespace LayeredViews

variable {κ : Client} {α : Type}

namespace World

/-- The host of a component, and the identity of the node that it is on. -/
def location (w : World κ) (i : ComponentId) : Option (HostId × NodeId) :=
  (w.components.get? i).map fun c => (c.host, c.node.id)

/-- The components that exist have been numbered. -/
def Numbered (w : World κ) : Prop := ∀ i p, w.location i = some p → i < w.nextComponent

section

variable {w w' : World κ} {i : ComponentId} {c : Component}

theorem location_of_get? (hc : w.components.get? i = some c) :
    w.location i = some (c.host, c.node.id) := by
  rw [location, hc, Option.map_some]

theorem current_node_id {p : HostId × NodeId} (hi : w.location i = some p) :
    (w.current i c).node.id = p.2 := by
  rw [location, Option.map_eq_some_iff] at hi
  obtain ⟨c', hc', rfl⟩ := hi
  rw [current_of_get? hc']

theorem location_setComponent (w : World κ) (i j : ComponentId) (c : Component) :
    (w.setComponent i c).location j =
      if j = i then some (c.host, c.node.id) else w.location j := by
  unfold location setComponent
  rw [Dict.get?_insert]
  split <;> rfl

theorem location_withoutComponent (w : World κ) (i j : ComponentId) :
    (w.withoutComponent i).location j = if j = i then none else w.location j := by
  unfold location withoutComponent
  rw [Dict.get?_erase]
  split <;> rfl

theorem location_of_withoutComponent {j : ComponentId} {p : HostId × NodeId}
    (hj : (w.withoutComponent i).location j = some p) : w.location j = some p := by
  rw [location_withoutComponent] at hj
  split at hj
  · cases hj
  · exact hj

/-- The world with a component more. -/
def withComponent (w : World κ) (c : Component) : World κ :=
  { w.setComponent w.nextComponent c with nextComponent := w.nextComponent + 1 }

theorem location_withComponent (w : World κ) (c : Component) (j : ComponentId) :
    (w.withComponent c).location j =
      if j = w.nextComponent then some (c.host, c.node.id) else w.location j :=
  w.location_setComponent w.nextComponent j c

/-- A component that exists is not the next one. -/
theorem Numbered.ne_next (hw : w.Numbered) {p : HostId × NodeId} (hi : w.location i = some p) :
    i ≠ w.nextComponent := Nat.ne_of_lt (hw i p hi)

theorem Numbered.of_location (hw : w.Numbered) (hn : w'.nextComponent = w.nextComponent)
    (hl : ∀ i p, w'.location i = some p → ∃ p', w.location i = some p') : w'.Numbered := by
  intro i p hi
  obtain ⟨p', hi'⟩ := hl i p hi
  exact hn ▸ hw i p' hi'

theorem Numbered.setComponent (hw : w.Numbered) (hc : w.components.get? i = some c)
    (c' : Component) : (w.setComponent i c').Numbered := by
  refine hw.of_location rfl fun j p hj => ?_
  rw [location_setComponent] at hj
  split at hj
  · next he => exact ⟨_, he ▸ location_of_get? hc⟩
  · exact ⟨p, hj⟩

theorem Numbered.withComponent (hw : w.Numbered) (c : Component) :
    (w.withComponent c).Numbered := by
  intro i p hi
  rw [location_withComponent] at hi
  split at hi
  · next he => exact he ▸ Nat.lt_succ_self _
  · exact Nat.lt_succ_of_lt (hw i p hi)

end

/-- The entries are left alone, the components stay on their nodes, and the same variables and
operations hold them. -/
structure Stays (w w' : World κ) : Prop extends w.Calm w' where
  location : ∀ i, w'.location i = w.location i
  handles : w'.handles = w.handles
  pins : w'.pins = w.pins
  nextComponent : w'.nextComponent = w.nextComponent

namespace Stays

variable {w w' w'' : World κ}

theorem of_components (h : w.Calm w') (hc : w'.components = w.components)
    (hh : w'.handles = w.handles) (hp : w'.pins = w.pins)
    (hn : w'.nextComponent = w.nextComponent) : w.Stays w' where
  toCalm := h
  location i := by rw [World.location, World.location, hc]
  handles := hh
  pins := hp
  nextComponent := hn

theorem of_eq (hca : w'.caches = w.caches) (hr : w'.record = w.record)
    (hi : w'.nextInstance = w.nextInstance) (hl : w'.nextList = w.nextList)
    (hno : w'.nextNode = w.nextNode) (hc : w'.components = w.components)
    (hh : w'.handles = w.handles) (hp : w'.pins = w.pins)
    (hn : w'.nextComponent = w.nextComponent) : w.Stays w' :=
  .of_components (.of_eq hca hr hi hl hno) hc hh hp hn

theorem of_record (new : List (Occurrence κ)) (hn : ∀ o ∈ new, o.Idle) :
    w.Stays { w with record := new ++ w.record } :=
  .of_components (.of_record new hn) rfl rfl rfl rfl

theorem of_idle {o : Occurrence κ} (ho : o.Idle) : w.Stays { w with record := o :: w.record } :=
  .of_record [o] (by simpa using ho)

/-- The parts of a description were run. -/
theorem of_ran (ran : List String) :
    w.Stays { w with record := (ran.map .defined).reverse ++ w.record } :=
  .of_record _ fun o ho => by
    obtain ⟨_, -, rfl⟩ := List.mem_map.1 (List.mem_reverse.1 ho)
    trivial

theorem refl (w : World κ) : w.Stays w := .of_eq rfl rfl rfl rfl rfl rfl rfl rfl rfl

theorem trans (h : w.Stays w') (h' : w'.Stays w'') : w.Stays w'' where
  toCalm := h.toCalm.trans h'.toCalm
  location i := (h'.location i).trans (h.location i)
  handles := h'.handles.trans h.handles
  pins := h'.pins.trans h.pins
  nextComponent := h'.nextComponent.trans h.nextComponent

theorem numbered (h : w.Stays w') (hw : w.Numbered) : w'.Numbered :=
  hw.of_location h.nextComponent fun i p hi => ⟨p, h.location i ▸ hi⟩

end Stays

end World

namespace Contract

variable (C : Contract κ)

/-- The contract is about entries, and about where components are and who holds them. -/
structure Aloof : Prop where
  stays : ∀ {w w'}, C.inv w → w.Stays w' → C.inv w' ∧ C.step w w'
  stops : ∀ e, C.stops (some e)

variable {C}

namespace Aloof

variable (hA : C.Aloof)
include hA

theorem of_stays {a : Act κ α} (h : ∀ w, a.Wp C.stops (fun _ w' => w.Stays w') w) : C.Kept a :=
  fun w hw => (h w).mono fun _ _ hs => hA.stays hw hs

theorem idle {o : Occurrence κ} (ho : o.Idle) : C.Kept (Act.record o) :=
  hA.of_stays fun _ => .of_idle ho

theorem lenient : C.Lenient where
  loans hw _ := hA.stays hw (.of_eq rfl rfl rfl rfl rfl rfl rfl rfl rfl)
  conflict _ := hA.stops _

/-- Whatever holds a component while code runs for it, such code can be run. -/
theorem running (h : ∀ {α : Type} c {body : Component → Act κ α}, (∀ comp, C.Kept (body comp)) →
    C.Kept (Act.withComponent c body)) : C.Running where
  read := hA.lenient.read
  lendNode _ _ hb := hA.lenient.lend _ _ hb
  withComponent := h
  idle := hA.idle

theorem toOpen : C.Open where
  exhausted := hA.stops _
  memory hw _ := hA.stays hw (.of_eq rfl rfl rfl rfl rfl rfl rfl rfl rfl)
  note hw n := hA.stays hw (.of_idle (o := .noted n) trivial)

theorem freshInstance (factory : Factory) : C.Kept (Act.freshInstance factory) :=
  hA.of_stays fun w => .of_components (.counted w) rfl rfl rfl rfl

theorem freshList (views : List ResolvedView) : C.Kept (Act.freshList views) :=
  hA.of_stays fun w => .of_components (.listed w) rfl rfl rfl rfl

/-- Other subscriptions do not move a component. -/
theorem setSubscriptions (id : ComponentId) (s : Subscriptions) :
    C.Kept (Act.updateComponent id fun c => { c with subscriptions := s }) := by
  refine hA.of_stays fun w => ?_
  rw [Act.updateComponent, Act.wp_modify]
  cases hc : w.components.get? id with
  | none => exact .refl w
  | some c =>
    refine ⟨.of_eq rfl rfl rfl rfl rfl, fun i => ?_, rfl, rfl, rfl⟩
    dsimp only
    rw [World.location_setComponent]
    split
    · next he => rw [he, World.location_of_get? hc]
    · rfl

theorem subscribing : C.Subscribing where
  idle := hA.idle
  updateTarget _ _ :=
    hA.lenient.lend _ _ (hA.of_stays fun _ => .of_eq rfl rfl rfl rfl rfl rfl rfl rfl rfl)
  freshListener _ := hA.of_stays fun _ => .of_eq rfl rfl rfl rfl rfl rfl rfl rfl rfl
  withSubscriptions id _ _ h :=
    hA.lenient.lend _ _ (.get_bind fun _ => (h _).bind fun ⟨a, s⟩ =>
      (hA.setSubscriptions id s).bind fun _ => .pure a)

theorem serving {host : HostId → Host} (hR : C.Running) (hans : C.Answering host) :
    C.Serving host :=
  { hR, hA.subscribing, hans with
    init := hA.subscribing.init
    beforeRemove := hA.subscribing.beforeRemove
    placed := fun {w} hw => hA.stays hw (.of_components (.placed w) rfl rfl rfl rfl)
    switched := fun hw _ _ => hA.stays hw (.of_eq rfl rfl rfl rfl rfl rfl rfl rfl rfl) }

end Aloof

end Contract

/-- Nothing happens but that entries and components are left alone. -/
def stays : Contract κ where
  inv _ := True
  step := World.Stays
  refl := World.Stays.refl
  trans := World.Stays.trans

theorem stays_aloof : stays.Aloof (κ := κ) where
  stays _ h := ⟨trivial, h⟩
  stops := Option.some_ne_none

end LayeredViews
