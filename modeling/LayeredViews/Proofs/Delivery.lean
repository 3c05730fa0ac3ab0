import LayeredViews.Proofs.Alongside

/-!
# What a dispatch delivers

Where the application's code is quiet, a dispatch calls methods of components and does nothing else
to the world.

* `Received`: a call of a method that a component receives; `World.received` are the calls in the
  latest part of the record.
* `Listener.delivers`: what a listener calls.
* `Setting.run_dispatch`: the calls of a dispatch.
* `World.Paired.delivered`: the components of two alike shares receive alike calls, in one order.
-/

namespace LayeredViews

variable {κ : Client} {S : Type} {inner : Inner κ S} {host : HostId → Host}
  {mine : Handle → Bool} {s : Share} {T : Ties} {w v u w' : World κ} {user : Callbacks (Act κ)}

/-- A component, of a given name, has received a call of a method. -/
structure Received where
  component : ComponentId
  name : String
  method : Method
  event : GlobalEvent
  deriving DecidableEq

/-- The call that was recorded, if one was. -/
def Occurrence.received : Occurrence κ → Option Received
  | .called component name method event => some ⟨component, name, method, event⟩
  | _ => none

/-- The calls recorded since the record had the given length, earliest first. -/
def World.received (w : World κ) (length : Nat) : List Received :=
  ((w.record.take (w.record.length - length)).filterMap Occurrence.received).reverse

/-- Whether one of the variables holds the component. -/
def World.belongs (w : World κ) (mine : Handle → Bool) (i : ComponentId) : Bool :=
  w.handles.keys.any fun x => mine x && w.handles.get? x == some i

/-- What a listener calls for an event: a method, as long as the component exists. -/
def Listener.delivers (w : World κ) (event : GlobalEvent) (l : Listener) : Option Received :=
  match l.callback with
  | .method i m => (w.components.get? i).map fun c => ⟨i, c.metadata.name, m, event⟩
  | .code _ => none

/-! ## Calls of listeners -/

namespace World

/-- Methods of components were called, in this order; nothing else has happened. -/
structure Delivered (inner : Inner κ S) (calls : List Received) (w v : World κ) : Prop where
  rest : v = { w with memory := v.memory, record := v.record }
  states : inner.state v.memory = inner.state w.memory
  record : ∃ new, v.record = new ++ w.record ∧ new.filterMap Occurrence.received = calls.reverse

namespace Delivered

variable {calls calls' : List Received}

theorem refl (w : World κ) : w.Delivered inner [] w := ⟨rfl, rfl, [], rfl, rfl⟩

theorem trans (h : w.Delivered inner calls v) (h' : v.Delivered inner calls' u) :
    w.Delivered inner (calls ++ calls') u where
  rest := by rw [h'.rest, h.rest]
  states := h'.states.trans h.states
  record := by
    obtain ⟨new, hr, hcalls⟩ := h.record
    obtain ⟨new', hr', hcalls'⟩ := h'.record
    refine ⟨new' ++ new, by rw [hr', hr, List.append_assoc], ?_⟩
    rw [List.filterMap_append, hcalls, hcalls', List.reverse_append]

/-- Quiet code was run. -/
theorem noted (h : w.Noted v) (hs : inner.state v.memory = inner.state w.memory) :
    w.Delivered inner [] v := by
  obtain ⟨notes, hv⟩ := h
  refine ⟨by rw [hv], hs, notes.map .noted, by rw [hv], ?_⟩
  rw [List.filterMap_map]
  exact List.filterMap_eq_nil_iff.2 fun _ _ => rfl

theorem called (w : World κ) (i : ComponentId) (name : String) (m : Method)
    (event : GlobalEvent) : w.Delivered inner [⟨i, name, m, event⟩]
      { w with record := .called i name m event :: w.record } :=
  ⟨rfl, rfl, [.called i name m event], rfl, rfl⟩

variable (h : w.Delivered inner calls v)
include h

theorem components : v.components = w.components := by rw [h.rest]

theorem asHeld : w.AsHeld v := by
  rw [h.rest]
  exact ⟨rfl, rfl⟩

theorem atRest (hw : w.AtRest host) : v.AtRest host where
  accounted := hw.accounted.still
    (.of_eq h.components (by rw [h.rest]) (by rw [h.rest]) (by rw [h.rest])
      (Nat.le_of_eq (by rw [h.rest])))
  tenure := hw.tenure.keep (by rw [h.rest]) (by rw [h.rest]) (by rw [h.rest]) fun i p hp =>
    ⟨p, by rwa [World.location, h.components] at hp⟩
  loans := by rw [h.rest, hw.loans]
  pins := by rw [h.rest, hw.pins]

/-- What was recorded since are the calls. -/
theorem received_eq : v.received w.record.length = calls := by
  obtain ⟨new, hr, hcalls⟩ := h.record
  have hlength : v.record.length - w.record.length = new.length := by
    rw [hr, List.length_append, Nat.add_sub_cancel]
  rw [World.received, hlength, hr, List.take_left, hcalls, List.reverse_reverse]

theorem delivers_eq (event : GlobalEvent) :
    Listener.delivers v event = Listener.delivers w event := by
  funext l
  rw [Listener.delivers, Listener.delivers, h.components]

theorem belongs_eq : v.belongs mine = w.belongs mine := by
  funext i
  have hhandles : v.handles = w.handles := by rw [h.rest]
  rw [World.belongs, World.belongs, hhandles]

theorem beside (hw : w.Divided host mine s) : w.Beside inner host mine s v := by
  refine .of_eq hw ?_ ?_ ?_ ?_ ?_ (Nat.le_of_eq ?_) (Nat.le_of_eq ?_) ?_ fun i _ => by rw [h.states]
  all_goals rw [h.rest]

end Delivered

end World

namespace Setting

variable (hu : inner.Serves user)
include hu

theorem run_invoke (hw : w.AtRest host) (l : Listener) (event : GlobalEvent) :
    ∃ v, (invoke ⟨host, user⟩ l event).run w = .ok ((), v) ∧
      w.Delivered inner (l.delivers w event).toList v := by
  unfold invoke Listener.delivers
  cases l.callback with
  | code key =>
    obtain ⟨_, v, hr, hs, hv⟩ := (hu.listen (fun _ => False) key event w).run_eq
    exact ⟨v, hr, .noted hv hs⟩
  | method i m =>
    dsimp only
    cases hc : w.components.get? i with
    | none =>
      refine ⟨w, Act.run_of_wp ?_, .refl w⟩
      rw [Act.wp_bind, Act.wp_withComponent, hc]
      exact ⟨rfl, rfl⟩
    | some c =>
      obtain ⟨_, v, hr, hs, hv⟩ := (hu.handle (fun _ => False) m i event
        { w.pin i with record := .called i c.metadata.name m event :: w.record }).run_eq
      -- the component is held by a variable, so it is not dropped afterwards
      have hquiet : World.Delivered inner []
          { w with record := .called i c.metadata.name m event :: w.record } v.unpin := by
        refine .noted ?_ hs
        obtain ⟨notes, hv⟩ := hv
        rw [hv]
        exact ⟨notes, rfl⟩
      have hend := (World.Delivered.called w i c.metadata.name m event).trans hquiet
      have hsettled : v.unpin.settled i = v.unpin :=
        if_pos ((hend.atRest hw).holds (hend.components.symm ▸ hc))
      refine ⟨v.unpin, ?_, hend⟩
      have hbody : (do
          Act.record (.called i c.metadata.name m event)
          user.handle m i event : Act κ Unit).run (w.pin i) = .ok ((), v) :=
        (Act.run_bind_of rfl).trans hr
      have hloans : v.loans = [] := (hend.atRest hw).loans
      refine (Act.run_bind_of (Act.run_withComponent hc hbody hloans)).trans ?_
      rw [hsettled]
      rfl

/-- The listeners are called one after the other. -/
theorem run_invokes (hw : w.AtRest host) (ls : List Listener) (event : GlobalEvent) :
    ∃ v, (ls.forM fun l => invoke ⟨host, user⟩ l event).run w = .ok ((), v) ∧
      w.Delivered inner (ls.filterMap (Listener.delivers w event)) v := by
  induction ls generalizing w with
  | nil => exact ⟨w, rfl, .refl w⟩
  | cons l rest ih =>
    obtain ⟨u, hr, hu'⟩ := run_invoke hu hw l event
    obtain ⟨v, hr', hv⟩ := ih (hu'.atRest hw)
    refine ⟨v, (Act.run_bind_of hr).trans hr', ?_⟩
    rw [hu'.delivers_eq] at hv
    have hall := hu'.trans hv
    rw [List.filterMap_cons]
    cases hl : l.delivers w event with
    | none =>
      rw [hl] at hall
      exact hall
    | some call =>
      rw [hl] at hall
      exact hall

/-- A dispatch calls what the listeners for the event call, oldest registration first. -/
theorem run_dispatch (hw : w.AtRest host) (t : TargetId) (event : GlobalEvent) :
    ∃ n v, (dispatch ⟨host, user⟩ t event).run w = .ok (n, v) ∧ w.Delivered inner
      (((w.target t).listening event.name).filterMap (Listener.delivers w event)) v := by
  obtain ⟨v, hr, hv⟩ := run_invokes hu hw ((w.target t).listening event.name) event
  refine ⟨((w.target t).listening event.name).length, v, ?_, hv⟩
  rw [hw.accounted.toSubscribed.dispatch_run]
  exact (Act.run_bind_of hr).trans rfl

end Setting

/-! ## What a share receives -/

/-- Calls that components received that are tied. -/
structure Received.Alike (T : Ties) (p q : Received) : Prop where
  component : T.component p.component q.component
  name : p.name = q.name
  method : p.method = q.method
  event : p.event = q.event

theorem Received.Alike.grow {U : Ties} (h : T.Grows U) {p q : Received} (hpq : p.Alike T q) :
    p.Alike U q := { hpq with component := h.component _ _ hpq.component }

namespace World

/-- The variables hold the components of their share. -/
theorem Divided.belongs_iff (hdiv : w.Divided host mine s) (hw : w.AtRest host) {i : ComponentId}
    {c : Component} (hc : w.components.get? i = some c) :
    w.belongs mine i = true ↔ s.component i := by
  simp only [belongs, List.any_eq_true, Bool.and_eq_true, beq_iff_eq]
  constructor
  · rintro ⟨x, -, hx, hi⟩
    exact (hdiv.held x i hi).2.1 hx
  · intro hs
    obtain ⟨x, hx⟩ := (hw.tenure.held i _ (World.location_of_get? hc) (fun h => by cases h)).resolve_right
      (by simp [hw.pins])
    exact ⟨x, Dict.mem_keys.2 ⟨i, hx⟩, (hdiv.held x i hx).2.2 hs, hx⟩

open Classical in
theorem Divided.filter_delivers (hdiv : w.Divided host mine s) (hw : w.AtRest host)
    (event : GlobalEvent) (r : Subscription) :
    (r.listener.delivers w event).filter (fun p => w.belongs mine p.component) =
      if s.Hears r then r.listener.delivers w event else none := by
  unfold Listener.delivers
  cases hcall : r.listener.callback with
  | code key => simp
  | method i m =>
    dsimp only
    cases hc : w.components.get? i with
    | none => simp
    | some c =>
      have hears : s.Hears r ↔ w.belongs mine i = true :=
        (Share.hears_of_isOf (Subscription.isOf_iff.2 ⟨m, hcall⟩)).trans
          (hdiv.belongs_iff hw hc).symm
      simp [Option.filter, hears]

/-- What the components of a share receive is what their listeners call. -/
theorem Divided.received_eq (hdiv : w.Divided host mine s) (hw : w.AtRest host) (t : TargetId)
    (event : GlobalEvent) :
    (((w.target t).listening event.name).filterMap (Listener.delivers w event)).filter
        (fun p => w.belongs mine p.component) =
      ((s.heard (w.target t)).filter fun r => r.event == event.name).filterMap
        fun r => r.listener.delivers w event := by
  rw [EventTarget.listening, Share.heard, Share.among, List.filterMap_map, List.filter_filterMap,
    List.filter_filter, List.filterMap_filter, List.filterMap_filter]
  refine List.filterMap_congr fun r _ => ?_
  rw [Function.comp_apply, hdiv.filter_delivers hw]
  by_cases hears : s.Hears r
  · simp [hears]
  · simp [hears]

/-- The components of alike shares receive alike calls. -/
theorem Paired.delivered (h : Paired inner host mine T w w') (hw : w.AtRest host)
    (hw' : w'.AtRest host) (t : TargetId) (event : GlobalEvent) :
    List.Forall₂ (Received.Alike T)
      ((((w.target t).listening event.name).filterMap (Listener.delivers w event)).filter
        fun p => w.belongs mine p.component)
      ((((w'.target t).listening event.name).filterMap (Listener.delivers w' event)).filter
        fun p => w'.belongs mine p.component) := by
  rw [h.left.received_eq hw, h.right.received_eq hw']
  refine List.rel_filterMap (fun r q hrq => ?_)
    (List.rel_filter (fun r q hrq => ?_) (h.alike.heard t))
  · obtain ⟨i, j, m, hi, hj, hij⟩ := hrq.callback
    have hcomp := h.alike.components i j hij
    rw [Listener.delivers, Listener.delivers, hi, hj]
    dsimp only
    generalize w.components.get? i = o, w'.components.get? j = o' at hcomp
    cases hcomp with
    | none => exact .none
    | some hcd => exact .some ⟨hij, congrArg Metadata.name hcd.metadata, rfl, rfl⟩
  · change (r.event == event.name) = true ↔ (q.event == event.name) = true
    rw [hrq.event]

end World

end LayeredViews
