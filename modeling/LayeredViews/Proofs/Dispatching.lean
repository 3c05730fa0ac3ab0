import LayeredViews.Proofs.Building
import LayeredViews.Proofs.Delivery
import LayeredViews.Proofs.Holders
import LayeredViews.Proofs.LeftBehind
import LayeredViews.Proofs.Roll
import LayeredViews.Proofs.Silence
import LayeredViews.Proofs.Wrapping

/-!
# What a dispatch calls

A dispatch calls the handlers of the components that are bound, whatever they do, as long as no
component loses those who hold it.

* `Setting.deliver`: one call of a method, during which the component is held.
* `Setting.Heedful`: none of the calls takes a component out of all variables.
* `World.Roster`: the calls that are due for an event: one row for each bound component, in the
  order in which these were bound.
* `World.Since`: a dispatch is under way that began in a given world. The components that existed
  then still do, and no others of theirs (`World.Since.delivers_eq`).
* `dispatch_reaches_bound`: a dispatch makes the calls on the roster and does nothing else.
-/

namespace LayeredViews

variable {κ : Client} {α : Type} {host : HostId → Host} {v u w w' : World κ} {i : ComponentId}
  {t : TargetId} {event : GlobalEvent}

/-! ## Calls -/

/-- Calls a method of a component, which is held meanwhile. -/
def Setting.deliver (env : Setting κ) (x : Received) : Act κ Unit :=
  Act.pinned x.component do
    Act.record (.called x.component x.name x.method x.event)
    env.user.handle x.method x.component x.event

/-- Made one after the other, the calls leave every component in a variable that was in one. -/
def Setting.Heedful (env : Setting κ) : List Received → World κ → Prop
  | [], _ => True
  | x :: rest, w => (env.deliver x).Wp (fun _ => True)
      (fun _ w' => (∀ i, w.InVariable i → w'.InVariable i) ∧ env.Heedful rest w') w

/-- The component is one that exists and is bound to the target. -/
def World.boundOn (w : World κ) (host : HostId → Host) (t : TargetId) (i : ComponentId) : Bool :=
  match w.components.get? i with
  | some c => c.subscriptions.bound && (host c.host).target == some t
  | none => false

/-- The listeners for an event whose components are gone. -/
def World.leftBehind (w : World κ) (t : TargetId) (event : String) : List Subscription :=
  (w.target t).listeners.filter fun r => r.event == event && !w.live r

/-- The calls that are due for an event that a target dispatches. -/
structure World.Roster (host : HostId → Host) (w : World κ) (t : TargetId) (event : GlobalEvent)
    (ids : List ComponentId) (rows : List (List Received)) : Prop where
  nodup : ids.Nodup
  /-- The components are those that somebody holds and that are bound to the target. -/
  members : ∀ i, i ∈ ids ↔ w.holds i = true ∧ ∃ c, w.components.get? i = some c ∧
    c.subscriptions.bound = true ∧ (host c.host).target = some t
  /-- They are in the order in which they were last bound. -/
  ordered : ids.Pairwise (BoundBefore w.record)
  /-- Each is called once for each of its declarations of the event, in order: the method of the
  nearest layer that has the handler. -/
  rows : List.Forall₂ (fun i row => ∃ c, w.components.get? i = some c ∧
    List.Forall₂ (fun b x => ∃ method, c.type.Nearest b.handler method ∧
        x = ⟨i, c.metadata.name, method, event⟩)
      (c.metadata.events.filter fun b => b.event == event.name) row) ids rows

/-! ## The calls that are due -/

/-- Every declared event whose handler was found has a call. -/
theorem EventBinding.forall₂_calls {type : ComponentType} {events : List EventBinding}
    (h : ∀ b ∈ events, type.hasHandler b.handler = true) :
    List.Forall₂ (fun b x => ∃ method, type.Nearest b.handler method ∧
      x = (b.event, .method i method)) events (EventBinding.calls i type events) := by
  induction events with
  | nil => exact .nil
  | cons b rest ih =>
    obtain ⟨method, hm⟩ := Option.isSome_iff_exists.1 (h b List.mem_cons_self)
    have hrest := ih fun b' hb' => h b' (List.mem_cons_of_mem _ hb')
    unfold calls
    rw [List.filterMap_cons, hm]
    exact .cons ⟨method, ComponentType.findMethod_eq_some_iff.1 hm, rfl⟩ hrest

theorem World.boundOn_iff : w.boundOn host t i = true ↔ ∃ c, w.components.get? i = some c ∧
    c.subscriptions.bound = true ∧ (host c.host).target = some t := by
  unfold boundOn
  cases w.components.get? i with
  | none => simp
  | some c => simp

theorem Listener.isSome_delivers (r : Subscription) :
    (r.listener.delivers w event).isSome = w.live r := by
  unfold delivers World.live Dict.contains
  cases r.listener.callback with
  | code key => rfl
  | method i m => simp

namespace Enrolled

variable (hw : Enrolled host w)
include hw

theorem roll_eq_nil (h : w.boundOn host t i = false) : w.roll host t i = [] := by
  cases hc : w.components.get? i with
  | none => exact World.roll_of_none hc
  | some c =>
    rw [World.roll_of_get? hc]
    split
    · next ht =>
      have hb : c.subscriptions.bound = false := by
        simpa [World.boundOn, hc, ht] using h
      exact (hw.consistent i c hc).unbound hb
    · rfl

/-- What the listeners of a bound component call. -/
theorem forall₂_roll {c : Component} (hc : w.components.get? i = some c)
    (hb : c.subscriptions.bound = true) (ht : (host c.host).target = some t)
    (event : GlobalEvent) :
    List.Forall₂ (fun b x => ∃ method, c.type.Nearest b.handler method ∧
        x = ⟨i, c.metadata.name, method, event⟩)
      (c.metadata.events.filter fun b => b.event == event.name)
      (((w.roll host t i).filter fun r => r.event == event.name).filterMap
        fun r => r.listener.delivers w event) := by
  have hentries : List.Forall₂ (fun b (r : Subscription) => ∃ method,
      c.type.Nearest b.handler method ∧ r.call = (b.event, .method i method))
      c.metadata.events (w.roll host t i) := by
    have hcalls := EventBinding.forall₂_calls (i := i)
      (Metadata.hasHandler_of_build (hw.consistent i c hc).built)
    rw [World.roll_of_get? hc, if_pos ht]
    rw [← Component.calls, ← (hw.bound i c hc hb).2] at hcalls
    exact (List.forall₂_map_right_iff (f := Subscription.call)).1 hcalls
  rw [← List.filterMap_some (l := c.metadata.events.filter _)]
  refine List.rel_filterMap (fun b r hbr => ?_) (List.rel_filter (fun b r hbr => ?_) hentries)
  · obtain ⟨m, hm, hr⟩ := hbr
    have hcall : r.listener.callback = .method i m := congrArg Prod.snd hr
    rw [Listener.delivers, hcall]
    dsimp only
    rw [hc]
    exact .some ⟨m, hm, rfl⟩
  · obtain ⟨m, -, hr⟩ := hbr
    change (b.event == event.name) = true ↔ (r.event == event.name) = true
    rw [show r.event = b.event from congrArg Prod.fst hr]

/-- The calls of a dispatch, one row for each bound component. -/
theorem filterMap_delivers (t : TargetId) (event : GlobalEvent) :
    ((w.target t).listening event.name).filterMap (Listener.delivers w event) =
      (((bindOrder w.record).filter (w.boundOn host t)).map fun i =>
        ((w.roll host t i).filter fun r => r.event == event.name).filterMap
          fun r => r.listener.delivers w event).flatten := by
  have hlive : ((w.target t).listening event.name).filterMap (Listener.delivers w event) =
      (((w.target t).listeners.filter w.live).filter fun r => r.event == event.name).filterMap
        fun r => r.listener.delivers w event := by
    rw [EventTarget.listening, List.filterMap_map, List.filterMap_filter, List.filterMap_filter,
      List.filterMap_filter]
    refine List.filterMap_congr fun r _ => ?_
    cases hr : w.live r with
    | true => simp
    | false =>
      have hnone : r.listener.delivers w event = none := by
        rw [← Option.isNone_iff_eq_none, ← Option.not_isSome, Listener.isSome_delivers, hr]
        rfl
      simp [hnone]
  rw [hlive, hw.listed t, List.filter_flatMap, List.filterMap_flatMap, ← List.flatMap_def]
  exact (flatMap_filter_of fun i hi => by rw [hw.roll_eq_nil hi]; rfl).symm

/-- What exists on the target is called, in the order in which it was bound. -/
theorem roster (hheld : ∀ i p, w.location i = some p → w.holds i = true) (t : TargetId)
    (event : GlobalEvent) :
    ∃ ids rows, w.Roster host t event ids rows ∧
      ((w.target t).listening event.name).filterMap (Listener.delivers w event) = rows.flatten := by
  refine ⟨_, _, ⟨(nodup_bindOrder w.record).filter (w.boundOn host t), fun i => ⟨fun hi => ?_,
    fun ⟨_, hbound⟩ => ?_⟩, (pairwise_bindOrder w.record).filter _, ?_⟩, hw.filterMap_delivers t event⟩
  · obtain ⟨c, hc, hb, ht⟩ := World.boundOn_iff.1 (List.mem_filter.1 hi).2
    exact ⟨hheld i _ (World.location_of_get? hc), c, hc, hb, ht⟩
  · have hon : w.boundOn host t i = true := World.boundOn_iff.2 hbound
    obtain ⟨c, hc, hb, -⟩ := hbound
    exact List.mem_filter.2 ⟨mem_bindOrder.2 (hw.bound i c hc hb).1, hon⟩
  · refine List.forall₂_map_right_iff.2 (List.forall₂_same.2 fun i hi => ?_)
    obtain ⟨c, hc, hb, ht⟩ := World.boundOn_iff.1 (List.mem_filter.1 hi).2
    exact ⟨c, hc, hw.forall₂_roll hc hb ht event⟩

end Enrolled

/-- A listener for an event has a call, or its component is gone. -/
theorem World.length_listening (w : World κ) (t : TargetId) (event : GlobalEvent) :
    ((w.target t).listening event.name).length =
      (((w.target t).listening event.name).filterMap (Listener.delivers w event)).length +
        (w.leftBehind t event.name).length := by
  have hcalls : (((w.target t).listening event.name).filterMap (Listener.delivers w event)).length =
      (((w.target t).listeners.filter fun r => r.event == event.name).filter w.live).length := by
    rw [EventTarget.listening, List.filterMap_map, List.length_filterMap_eq_countP,
      ← List.countP_eq_length_filter]
    exact List.countP_congr fun r _ => by rw [Function.comp_apply, Listener.isSome_delivers]
  have hleft : w.leftBehind t event.name =
      ((w.target t).listeners.filter fun r => r.event == event.name).filter (!w.live ·) := by
    rw [leftBehind, List.filter_filter]
    exact List.filter_congr fun r _ => Bool.and_comm _ _
  rw [hcalls, hleft, ← List.length_eq_length_filter_add, EventTarget.listening, List.length_map]

/-! ## While a dispatch is under way -/

/-- Since `v`, components may have come and gone, and no component has taken the place of another
one. -/
structure Outlasted (host : HostId → Host) (v w : World κ) : Prop extends Subscribed host w where
  nextComponent : v.nextComponent ≤ w.nextComponent
  kin : ∀ i, i < v.nextComponent → ∀ c', w.components.get? i = some c' →
    ∃ c, v.components.get? i = some c ∧ c.Kin c'

theorem Outlasted.refl (hv : Subscribed host v) : Outlasted host v v :=
  ⟨hv, Nat.le_refl _, fun _ _ c hc => ⟨c, hc, .refl c⟩⟩

/-- A component has other subscriptions. -/
theorem Outlasted.setSubscriptions {id : ComponentId} {c : Component} {s : Subscriptions}
    (hw : Outlasted host v w) (hc : w.components.get? id = some c)
    (hsub : Subscribed host w') (hn : w'.nextComponent = w.nextComponent)
    (hcomponents : w'.components = (w.setSubscriptions id c s).components) :
    Outlasted host v w' where
  toSubscribed := hsub
  nextComponent := hn ▸ hw.nextComponent
  kin i hi c' hc' := by
    rcases get?_setSubscriptions (hcomponents ▸ hc') with ⟨rfl, rfl⟩ | ⟨-, hc'⟩
    · obtain ⟨d, hd, hk⟩ := hw.kin i hi c hc
      exact ⟨d, hd, hk.trans ⟨rfl, rfl, rfl⟩⟩
    · exact hw.kin i hi c' hc'

theorem outlasted_managing (host : HostId → Host) (v : World κ) :
    World.Managing host (Outlasted host v) where
  spared hw h := {
    toSubscribed := hw.toSubscribed.still h.toStill
    nextComponent := Nat.le_trans hw.nextComponent h.nextComponent
    kin := fun i hi c' hc' => by
      obtain ⟨c, node, hc, rfl⟩ := h.components i c' hc'
      obtain ⟨d, hd, hk⟩ := hw.kin i hi c hc
      exact ⟨d, hd, hk.trans ⟨rfl, rfl, rfl⟩⟩ }
  lent hw id := { hw with toSubscribed := (subscribed_managing host).lent hw.toSubscribed id }
  back hw hw' :=
    { hw' with toSubscribed := (subscribed_managing host).back hw.toSubscribed hw'.toSubscribed }
  subscribed hw := hw.toSubscribed
  added {w c} hw hb hs := {
    toSubscribed := hw.toSubscribed.added hb hs
    nextComponent := Nat.le_succ_of_le hw.nextComponent
    kin := fun i hi c' hc' => by
      have hne : i ≠ w.nextComponent := Nat.ne_of_lt (Nat.lt_of_lt_of_le hi hw.nextComponent)
      rw [World.setComponent, Dict.get?_insert_of_ne _ _ hne] at hc'
      exact hw.kin i hi c' hc' }
  initialized hw hc h := by
    have hsub := (h.subscribed hw.toSubscribed hc).1
    cases h with
    | absent hp => exact { hw with toSubscribed := hsub }
    | refused t hp hb => exact hw
    | bound t hp hb added w₁ hr =>
      exact hw.setSubscriptions hc hsub hr.nextComponent
        (by rw [World.setSubscriptions, World.setComponent, hr.components]; rfl)
  unbound hw hc h := by
    have hsub := (h.subscribed hw.toSubscribed hc).1
    cases h with
    | absent hp => exact { hw with toSubscribed := hsub }
    | removed t hp w₁ hr =>
      exact hw.setSubscriptions hc hsub
        (show w₁.nextComponent = _ by rw [hr.rest])
        (show (w₁.setSubscriptions _ _ _).components = _ by rw [hr.rest]; rfl)
  switched hw t on :=
    { hw with toSubscribed := (subscribed_managing host).switched hw.toSubscribed t on }

/-- A dispatch is under way that began in `v`: whoever held a component still does. -/
structure World.Since (host : HostId → Host) (v w : World κ) : Prop where
  tenure : Tenure none w
  rooted : w.Rooted
  outlasted : Outlasted host v w
  pins : w.pins = v.pins
  kept : ∀ i, v.InVariable i → w.InVariable i

namespace World.Since

/-- The components that existed still do, and there are no others with their identities. -/
theorem delivers_eq (h : v.Since host u) (hv : Tenure none v) {l : Listener} {m : Method}
    (hl : l.callback = .method i m) (hi : i < v.nextComponent) :
    l.delivers u event = l.delivers v event := by
  rw [Listener.delivers, Listener.delivers, hl]
  dsimp only
  cases hc : v.components.get? i with
  | none =>
    cases hc' : u.components.get? i with
    | none => rfl
    | some c' =>
      obtain ⟨d, hd, -⟩ := h.outlasted.kin i hi c' hc'
      cases hc.symm.trans hd
  | some c =>
    have hheld : u.InVariable i ∨ i ∈ u.pins :=
      (hv.held i _ (World.location_of_get? hc) fun he => by cases he).imp (h.kept i)
        (h.pins.symm ▸ ·)
    obtain ⟨p, hp⟩ := h.rooted i hheld
    obtain ⟨c', hc', -⟩ := Option.map_eq_some_iff.1 hp
    obtain ⟨d, hd, hk⟩ := h.outlasted.kin i hi c' hc'
    obtain rfl := Option.some.inj (hc.symm.trans hd)
    rw [hc', Option.map_some, Option.map_some, hk.metadata]

/-- A listener was called. -/
theorem invoked {app : Application κ} {depth : Nat} {l : Listener} (h : v.Since app.host u)
    (hcode : app.code.Uses Op.Managed)
    (hrun : (Setting.invoke (app.setting depth) l event).run u = .ok ((), w))
    (hkept : ∀ i, u.InVariable i → w.InVariable i) : v.Since app.host w := by
  have hany : app.code.Uses fun _ => True := Callbacks.uses_of_forall (fun _ => trivial) app.code
  have htenure : LayeredViews.tenure.Kept (Setting.invoke (app.setting depth) l event) :=
    Act.tenure_running.invoke (.under hany ((tenure_sound app.host).exec hany depth)) l event
  have hrooted : LayeredViews.rooted.Kept (Setting.invoke (app.setting depth) l event) :=
    Act.rooted_running.invoke (.under hany ((rooted_sound app.host).exec hany depth)) l event
  have hmanaging := outlasted_managing app.host v
  have houtlasted : (Contract.leaving (Outlasted app.host v) World.loans).Kept
      (Setting.invoke (app.setting depth) l event) :=
    hmanaging.attending.invoke (.under hcode (hmanaging.sound.exec hcode depth)) l event
  obtain ⟨hw, hpins⟩ := (htenure u h.tenure).of_run hrun
  exact {
    tenure := hw
    rooted := ((hrooted u h.rooted).of_run hrun).1
    outlasted := ((houtlasted u h.outlasted).of_run hrun).1
    pins := hpins.trans h.pins
    kept := fun i hi => hkept i (h.kept i hi) }

end World.Since

namespace Setting

variable {env : Setting κ}

/-- Calling a listener whose component exists is one call of a method. -/
theorem run_invoke_some {l : Listener} {x : Received} (hx : l.delivers w event = some x) :
    (invoke env l event).run w = (env.deliver x).run w := by
  unfold Listener.delivers at hx
  unfold invoke
  cases hl : l.callback with
  | code key => simp [hl] at hx
  | method i m =>
    simp only [hl] at hx ⊢
    obtain ⟨c, hc, rfl⟩ := Option.map_eq_some_iff.1 hx
    unfold Act.withComponent deliver Act.pinned
    simp [hc]

/-- Calling a listener whose component is gone does nothing. -/
theorem run_invoke_none {l : Listener} {m : Method} (hl : l.callback = .method i m)
    (hx : l.delivers w event = none) : (invoke env l event).run w = .ok ((), w) := by
  simp only [Listener.delivers, hl, Option.map_eq_none_iff] at hx
  simp only [invoke, hl, Act.withComponent]
  simp [hx]
  rfl

/-- The listeners for an event are called one after the other: those whose components existed when
the dispatch began. -/
theorem run_forM_invoke {app : Application κ} {depth : Nat} (hcode : app.code.Uses Op.Managed)
    (hv : Tenure none v) {ls : List Listener}
    (hls : ∀ l ∈ ls, ∃ i m, l.callback = .method i m ∧ i < v.nextComponent)
    (hu : v.Since app.host u)
    (heed : (app.setting depth).Heedful (ls.filterMap (Listener.delivers v event)) u) :
    (ls.forM fun l => invoke (app.setting depth) l event).run u =
      ((ls.filterMap (Listener.delivers v event)).forM (app.setting depth).deliver).run u := by
  -- by induction on the listeners, for every world since `v`: each call ends in another of these
  induction ls generalizing u with
  | nil => rfl
  | cons l rest ih =>
    obtain ⟨i, m, hl, hi⟩ := hls l List.mem_cons_self
    have hrest := fun l' hl' => hls l' (List.mem_cons_of_mem l hl')
    have hsame : l.delivers u event = l.delivers v event := hu.delivers_eq hv hl hi
    rw [List.filterMap_cons] at heed ⊢
    change (do
      invoke (app.setting depth) l event
      rest.forM fun l => invoke (app.setting depth) l event : Act κ PUnit).run u = _
    rw [StateT.run_bind]
    cases hx : l.delivers v event with
    | none =>
      rw [hx] at heed
      rw [run_invoke_none hl (hsame.trans hx)]
      exact ih hrest hu heed
    | some x =>
      rw [hx] at heed
      change _ = (do
        (app.setting depth).deliver x
        (rest.filterMap (Listener.delivers v event)).forM (app.setting depth).deliver
          : Act κ PUnit).run u
      have hcall : (invoke (app.setting depth) l event).run u =
          ((app.setting depth).deliver x).run u := run_invoke_some (hsame.trans hx)
      rw [StateT.run_bind, hcall]
      cases hrun : ((app.setting depth).deliver x).run u with
      | error e => rfl
      | ok p =>
        obtain ⟨hkept, heeded⟩ := heed.of_run hrun
        exact ih hrest (hu.invoked hcode (hcall.trans hrun) hkept) heeded

end Setting

/-- Code that leaves the variables alone takes no component out of them. -/
theorem Setting.heedful_of_handles {env : Setting κ}
    (h : ∀ method i event w, (env.user.handle method i event).Wp (fun _ => True)
      (fun _ w' => w'.handles = w.handles) w) (calls : List Received) (w : World κ) :
    env.Heedful calls w := by
  induction calls generalizing w with
  | nil => trivial
  | cons x rest ih =>
    refine Act.Wp.mono (Q := fun _ w' => w'.handles = w.handles) ?_ fun _ w' hw' =>
      ⟨fun i ⟨y, hy⟩ => ⟨y, hw' ▸ hy⟩, ih w'⟩
    unfold deliver
    rw [Act.wp_pinned, Act.wp_bind, Act.wp_record]
    exact (h ..).mono fun _ w' hw' => .settle (fun _ => trivial) hw' fun _ _ _ => hw'

/-- **What a dispatch calls.** On runtimes that have global events, and where components register
all listeners: wherever a run has come to, with components mounted, bound, bound anew, unbound, moved
and dropped in any order, by any hosts that share a target. A dispatch of an event by that target
calls, for each component that is held and bound to the target, and for each of its declarations
of the event, the method of the nearest layer that has the handler, once and with this component and
this event. Components come in the order in which they were last bound, and the calls of one in the
order of its declarations. It does nothing else, as long as none of the calls takes a component out of
all variables, and gives the number of these calls and of the listeners for the event that are left
of components that were dropped while they were bound. -/
theorem dispatch_reaches_bound (app : Application κ) (prog : Program κ α)
    {targets : Dict TargetId EventTarget} (memory : κ.Memory) (hf : Fresh targets)
    (hcode : app.code.Uses Op.Managed) (hprog : prog.Uses Op.Managed)
    (hv : app.Reaches prog (World.start targets memory) v) (t : TargetId) (event : GlobalEvent) :
    ∃ ids rows, v.Roster app.host t event ids rows ∧
      (∀ r ∈ v.leftBehind t event.name, ∃ i m, r.listener.callback = .method i m ∧
        v.Deserted i) ∧
      ∀ depth, (app.setting depth).Heedful rows.flatten v →
        (Setting.dispatch (app.setting depth) t event).run v =
          (do
            rows.flatten.forM (app.setting depth).deliver
            return rows.flatten.length + (v.leftBehind t event.name).length : Act κ Nat).run v := by
  have henrolled : Enrolled app.host v := Contract.inv_of_reaches
    (enrolled_managing app.host).sound (fun hs => hs rfl) hcode hprog (enrolled_start hf memory) hv
  have hattributed : ∀ i, Attributed app.host False i v := fun i => Contract.inv_of_reaches
    (attributed_managing app.host False i).sound (fun hs => hs rfl) hcode hprog
    (attributed_start hf memory) hv
  have htenure : Tenure none v := tenure_of_reaches app prog targets memory hv
  have hsince : v.Since app.host v := {
    tenure := htenure
    rooted := rooted_of_reaches app prog targets memory hv
    outlasted := .refl henrolled.toSubscribed
    pins := rfl
    kept := fun _ => id }
  have hheld : ∀ i p, v.location i = some p → v.holds i = true := fun i p hp =>
    (htenure.held i p hp nofun).elim World.holds_of_inVariable fun hpin => by
      simp [World.holds, hpin]
  have hmethod : ∀ r ∈ (v.target t).listeners, ∃ i m, r.listener.callback = .method i m ∧
      i < v.nextComponent := fun r hr => by
    obtain ⟨i, m, hm⟩ := (hattributed 0).named.resolve_left id t r hr
    exact ⟨i, m, hm, ((hattributed i).owned t r hr m hm).1⟩
  obtain ⟨ids, rows, hroster, hcalls⟩ := henrolled.roster hheld t event
  refine ⟨ids, rows, hroster, fun r hr => ?_, fun depth heed => ?_⟩
  · obtain ⟨hmem, hkind⟩ := List.mem_filter.1 hr
    obtain ⟨i, m, hm, hlt⟩ := hmethod r hmem
    have hgone : v.live r = false := by simpa using (Bool.and_eq_true_iff.1 hkind).2
    rw [World.live_of_method hm, Dict.contains, Option.isSome_eq_false_iff,
      Option.isNone_iff_eq_none] at hgone
    exact ⟨i, m, hm, hlt, hgone, ((hattributed i).owned t r hmem m hm).2.1⟩
  · have hls : ∀ l ∈ (v.target t).listening event.name, ∃ i m, l.callback = .method i m ∧
        i < v.nextComponent := fun l hl => by
      obtain ⟨r, hr, rfl⟩ := List.mem_map.1 hl
      exact hmethod r (List.mem_filter.1 hr).1
    rw [← hcalls] at heed ⊢
    have hrun := Setting.run_forM_invoke hcode htenure hls hsince heed
    refine (henrolled.toSubscribed.dispatch_run t event).trans ?_
    rw [StateT.run_bind, StateT.run_bind, ← v.length_listening t event]
    exact congrArg (· >>= _) hrun

namespace Chorus

/-- A component type that declares an event twice, derived from by one with another method for the
first declaration. -/
def type : ComponentType where
  own := { label := "Loud", methods := Dict.ofList [("onTick", ⟨1, "onTick"⟩)] }
  bases :=
    [{ label := "Singer"
       definer := some ⟨"Singer",
        [⟨"name", [.text "singer"]⟩, ⟨"event", [.text "tick", .text "onTick"]⟩,
          ⟨"event", [.text "tick", .text "onTock"]⟩]⟩
       methods := Dict.ofList [("onTick", ⟨0, "onTick"⟩), ("onTock", ⟨0, "onTock"⟩)] }]

/-- Mounts three components on two hosts; binds the first one anew and lets go of the third one. -/
def program : Program ⟨Unit, Empty⟩ Unit :=
  .call (.mount 0 type ⟨1, ∅⟩ ⟨0, "first"⟩) fun _ =>
  .call (.mount 1 type ⟨2, ∅⟩ ⟨0, "second"⟩) fun _ =>
  .call (.mount 0 type ⟨3, ∅⟩ ⟨0, "third"⟩) fun _ =>
  .call (.beforeRemove 0) fun _ => .call (.init 0) fun _ =>
  .call (.release ⟨0, "third"⟩) fun _ => .done ()

end Chorus

/-- Of three components that were bound, the two that are left are called; the third one has left
its two listeners behind. -/
theorem dispatch_reaches_bound_chorus :
    ∃ (v : World ⟨Unit, Empty⟩) (ids : List ComponentId) (rows : List (List Received)),
      Fresh ∅ ∧ Ticker.application.code.Uses Op.Managed ∧ Chorus.program.Uses Op.Managed ∧
      Ticker.application.Reaches Chorus.program (World.start ∅ ()) v ∧
      v.Roster Ticker.application.host 0 ⟨"tick", .null⟩ ids rows ∧
      0 ∈ ids ∧ 1 ∈ ids ∧ 2 ∉ ids ∧ (v.leftBehind 0 "tick").length = 2 ∧
      (Ticker.application.setting 0).Heedful rows.flatten v ∧
      (Setting.dispatch (Ticker.application.setting 0) 0 ⟨"tick", .null⟩).run v =
        (do
          rows.flatten.forM (Ticker.application.setting 0).deliver
          return rows.flatten.length + 2 : Act ⟨Unit, Empty⟩ Nat).run v := by
  let v : World ⟨Unit, Empty⟩ := Ticker.application.worldAfter 1 Chorus.program (World.start ∅ ())
  have hrun : (Ticker.application.exec 1 Chorus.program).run (World.start ∅ ()) = .ok ((), v) :=
    Application.run_eq_worldAfter (by decide +kernel)
  have hheld : v.holds 0 = true ∧ v.holds 1 = true := by decide +kernel
  have hbound : v.boundOn Ticker.application.host 0 0 = true ∧
      v.boundOn Ticker.application.host 0 1 = true ∧
      v.boundOn Ticker.application.host 0 2 = false := by decide +kernel
  have hleft : (v.leftBehind 0 "tick").length = 2 := by decide +kernel
  have hf : Fresh ∅ := fun _ _ h => by cases h
  have hprog : Chorus.program.Uses Op.Managed :=
    ⟨trivial, fun _ => ⟨trivial, fun _ => ⟨trivial, fun _ => ⟨trivial, fun _ => ⟨trivial, fun _ =>
      ⟨trivial, fun _ => trivial⟩⟩⟩⟩⟩⟩
  have hv : Ticker.application.Reaches Chorus.program (World.start ∅ ()) v :=
    Application.reaches_of_exec hrun
  clear_value v
  obtain ⟨ids, rows, hroster, -, hdispatch⟩ := dispatch_reaches_bound Ticker.application
    Chorus.program () hf Quitter.code_uses hprog hv 0 ⟨"tick", .null⟩
  have heed : (Ticker.application.setting 0).Heedful rows.flatten v := by
    refine Setting.heedful_of_handles (fun _ _ _ w => ?_) _ _
    exact (rfl : w.handles = w.handles)
  have hrest := hdispatch 0 heed
  rw [hleft] at hrest
  refine ⟨v, ids, rows, hf, Quitter.code_uses, hprog, hv, hroster, ?_, ?_, fun hmem => ?_, hleft, heed,
    hrest⟩
  · exact (hroster.members 0).2 ⟨hheld.1, World.boundOn_iff.1 hbound.1⟩
  · exact (hroster.members 1).2 ⟨hheld.2, World.boundOn_iff.1 hbound.2.1⟩
  · have hon := World.boundOn_iff.2 ((hroster.members 2).1 hmem).2
    exact Bool.noConfusion (hbound.2.2.symm.trans hon)

end LayeredViews
