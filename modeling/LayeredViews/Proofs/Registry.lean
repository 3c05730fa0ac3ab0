import LayeredViews.Proofs.Wp

/-!
# Registering and removing listeners

What binding and unbinding do to event targets, as long as the targets are not in use.

* `EventTarget.Holds`: a subscription is registered exactly once.
* `EventTarget.removeAll_eq_filter`: removing subscriptions that are registered once takes out
  their listeners and no others.
* `World.Registered`, `Act.wp_subscribe`: the world after listeners for declared events were
  registered.
* `Component.calls`: what the listeners of a component call, in order (`Act.wp_subscribe_calls`).
* `World.Removed`, `Act.wp_removeListeners`: the world after listeners were removed.
-/

namespace LayeredViews

variable {κ : Client}

namespace EventTarget

/-- The listener of a subscription is registered once, under the name of its event. -/
def Holds (t : EventTarget) (s : Subscription) : Prop :=
  (t.listeners.filter fun r => r.listener.id == s.listener.id) = [s]

/-- Removes subscriptions one after the other. -/
def removeAll (t : EventTarget) (entries : List Subscription) : EventTarget :=
  entries.foldl remove t

theorem eraseP_eq_filter {l : List Subscription} {s : Subscription}
    (h : (l.filter fun r => r.listener.id == s.listener.id) = [s]) :
    (l.eraseP fun r => r.event == s.event && r.listener.id == s.listener.id) =
      l.filter fun r => r.listener.id != s.listener.id := by
  induction l with
  | nil => simp at h
  | cons r rest ih =>
    by_cases hr : r.listener.id = s.listener.id
    · rw [List.filter_cons_of_pos (by simpa using hr)] at h
      obtain ⟨rfl, hrest⟩ := List.cons.inj h
      have hkeep : (rest.filter fun q => q.listener.id != r.listener.id) = rest := by
        rw [List.filter_eq_self]
        intro q hq
        have hne := List.filter_eq_nil_iff.1 hrest q hq
        simpa using hne
      rw [List.eraseP_cons_of_pos (by simp), List.filter_cons_of_neg (by simp), hkeep]
    · rw [List.filter_cons_of_neg (by simpa using hr)] at h
      rw [List.eraseP_cons_of_neg (by simp [hr]), List.filter_cons_of_pos (by simpa using hr), ih h]

theorem remove_eq_filter {t : EventTarget} {s : Subscription} (h : t.Holds s) :
    t.remove s =
      { t with listeners := t.listeners.filter fun r => r.listener.id != s.listener.id } := by
  rw [remove, eraseP_eq_filter h]

theorem Holds.filter {t : EventTarget} {s : Subscription} (h : t.Holds s)
    {p : Subscription → Bool} (hp : p s = true) :
    Holds { t with listeners := t.listeners.filter p } s := by
  unfold Holds at h ⊢
  rw [List.filter_filter, List.filter_congr (q := fun r => p r && (r.listener.id == s.listener.id))
    (fun r _ => Bool.and_comm _ _), ← List.filter_filter, h]
  simp [hp]

theorem Holds.mem {t : EventTarget} {s : Subscription} (h : t.Holds s) : s ∈ t.listeners := by
  have hs : s ∈ t.listeners.filter fun r => r.listener.id == s.listener.id := by
    rw [show _ = [s] from h]
    exact List.mem_singleton_self s
  exact (List.mem_filter.1 hs).1

/-- A subscription keeps being registered once while others come in. -/
theorem Holds.append {t : EventTarget} {s : Subscription} (h : t.Holds s)
    {added : List Subscription} (hn : ∀ r ∈ added, r.listener.id ≠ s.listener.id) :
    Holds { t with listeners := t.listeners ++ added } s := by
  unfold Holds at h ⊢
  rw [List.filter_append, h, List.filter_eq_nil_iff.2 fun r hr => by simpa using hn r hr]
  rfl

theorem filter_eq_singleton {l : List Subscription}
    (hn : (l.map fun s => s.listener.id).Nodup) {s : Subscription} (hs : s ∈ l) :
    (l.filter fun r => r.listener.id == s.listener.id) = [s] := by
  induction l with
  | nil => cases hs
  | cons r rest ih =>
    obtain ⟨hr, hrest⟩ := List.nodup_cons.1 hn
    rcases List.mem_cons.1 hs with rfl | hs
    · rw [List.filter_cons_of_pos (by simp), List.filter_eq_nil_iff.2]
      intro q hq
      have hne : q.listener.id ≠ s.listener.id := fun he => hr (List.mem_map.2 ⟨q, hq, he⟩)
      simpa using hne
    · have hne : r.listener.id ≠ s.listener.id := fun he => hr (List.mem_map.2 ⟨s, hs, he.symm⟩)
      rw [List.filter_cons_of_neg (by simpa using hne), ih hrest hs]

/-- A subscription that comes in with others of different listeners is registered once. -/
theorem Holds.of_added {t : EventTarget} {added : List Subscription}
    (hn : (added.map fun s => s.listener.id).Nodup) {s : Subscription} (hs : s ∈ added)
    (hold : ∀ r ∈ t.listeners, r.listener.id ≠ s.listener.id) :
    Holds { t with listeners := t.listeners ++ added } s := by
  unfold Holds
  rw [List.filter_append, filter_eq_singleton hn hs,
    List.filter_eq_nil_iff.2 fun r hr => by simpa using hold r hr]
  rfl

/-- Removing subscriptions takes out their listeners and no others. -/
theorem removeAll_eq_filter {t : EventTarget} {entries : List Subscription}
    (hn : (entries.map fun s => s.listener.id).Nodup) (h : ∀ s ∈ entries, t.Holds s) :
    t.removeAll entries =
      { t with listeners := t.listeners.filter fun r =>
          !(entries.map fun s => s.listener.id).contains r.listener.id } := by
  induction entries generalizing t with
  | nil =>
    have hall : (t.listeners.filter fun _ => true) = t.listeners := List.filter_eq_self.2 (by simp)
    simp [removeAll, hall]
  | cons s rest ih =>
    obtain ⟨hs, hrest⟩ := List.nodup_cons.1 hn
    have hholds : ∀ s' ∈ rest, (t.remove s).Holds s' := by
      intro s' hs'
      rw [remove_eq_filter (h s List.mem_cons_self)]
      refine (h s' (List.mem_cons_of_mem _ hs')).filter ?_
      have hne : s'.listener.id ≠ s.listener.id := fun he =>
        hs (List.mem_map.2 ⟨s', hs', he⟩)
      simpa using hne
    have hstep : t.removeAll (s :: rest) = (t.remove s).removeAll rest := rfl
    rw [hstep, ih hrest hholds, remove_eq_filter (h s List.mem_cons_self)]
    simp only [List.filter_filter, List.map_cons, List.contains_cons, Bool.not_or]
    congr 2
    funext r
    exact Bool.and_comm _ _

end EventTarget

/-- The event of a subscription and what its listener does. -/
def Subscription.call (s : Subscription) : String × Callback := (s.event, s.listener.callback)

/-- The events that listeners are registered for, and what the listeners do. -/
def EventBinding.calls (id : ComponentId) (type : ComponentType) (events : List EventBinding) :
    List (String × Callback) :=
  events.filterMap fun b => (type.findMethod b.handler).map fun m => (b.event, .method id m)

/-- What the listeners of a component do once it is bound. -/
def Component.calls (id : ComponentId) (c : Component) : List (String × Callback) :=
  EventBinding.calls id c.type c.metadata.events

namespace World

theorem target_setTarget (w : World κ) (t t' : TargetId) (target : EventTarget) :
    (w.setTarget t target).target t' = if t' = t then target else w.target t' := by
  unfold World.target setTarget Dict.getD
  rw [Dict.get?_insert]
  split <;> rfl

/-- The target of a host, if the runtime has global events at the moment. -/
def presentTarget (w : World κ) (host : Host) : Option TargetId :=
  host.target.filter fun t => (w.target t).present

/-- The world after a listener was registered. -/
def withListener (w : World κ) (t : TargetId) (s : Subscription) : World κ :=
  { w.setTarget t ((w.target t).add s) with record := .added t s :: w.record }

/-- The world after a listener was removed. -/
def withoutListener (w : World κ) (t : TargetId) (s : Subscription) : World κ :=
  { w.setTarget t ((w.target t).remove s) with record := .removed t s :: w.record }

/-- The world after listeners were registered on a target for events that a component declares: they
are new, they call methods of the component, and nothing else has changed. -/
structure Registered (id : ComponentId) (t : TargetId) (events : List EventBinding) (w : World κ)
    (added : List Subscription) (w' : World κ) : Prop where
  rest : w' = { w with
    targets := w'.targets, nextListener := w'.nextListener, record := w'.record }
  target : w'.target t = { w.target t with listeners := (w.target t).listeners ++ added }
  others : ∀ t', t' ≠ t → w'.target t' = w.target t'
  events : added.map Subscription.event = events.map EventBinding.event
  ids : (added.map fun s => s.listener.id) = List.range' w.nextListener added.length
  callbacks : ∀ s ∈ added, ∃ method, s.listener.callback = .method id method
  next : w'.nextListener = w.nextListener + added.length
  record : w'.record = (added.map (.added t)).reverse ++ w.record

/-- The world after listeners were removed from a target: nothing else has changed. -/
structure Removed (t : TargetId) (entries : List Subscription) (w w' : World κ) : Prop where
  rest : w' = { w with targets := w'.targets, record := w'.record }
  target : w'.target t = (w.target t).removeAll entries
  others : ∀ t', t' ≠ t → w'.target t' = w.target t'
  record : w'.record = (entries.map (.removed t)).reverse ++ w.record

section

variable {id : ComponentId} {t : TargetId} {events : List EventBinding} {w w' : World κ}
  {added : List Subscription} (h : w.Registered id t events added w')
include h

theorem Registered.components : w'.components = w.components := by rw [h.rest]

theorem Registered.loans : w'.loans = w.loans := by rw [h.rest]

theorem Registered.nextComponent : w'.nextComponent = w.nextComponent := by rw [h.rest]

/-- Registered listeners have the numbers that were given out. -/
theorem Registered.mem_ids {s : Subscription} (hs : s ∈ added) :
    w.nextListener ≤ s.listener.id ∧ s.listener.id < w'.nextListener := by
  have hmem : s.listener.id ∈ List.range' w.nextListener added.length :=
    h.ids ▸ List.mem_map.2 ⟨s, hs, rfl⟩
  obtain ⟨i, hi, he⟩ := List.mem_range'.1 hmem
  rw [h.next]
  omega

theorem Registered.mem_listeners {t' : TargetId} {r : Subscription}
    (hr : r ∈ (w'.target t').listeners) :
    r ∈ (w.target t').listeners ∨ t' = t ∧ r ∈ added := by
  by_cases ht : t' = t
  · subst ht
    rw [h.target] at hr
    exact (List.mem_append.1 hr).imp_right fun hnew => ⟨rfl, hnew⟩
  · exact .inl (h.others t' ht ▸ hr)

theorem Registered.runtime (t' : TargetId) :
    (w'.target t').present = (w.target t').present ∧
      (w'.target t').switchable = (w.target t').switchable := by
  by_cases ht : t' = t
  · rw [ht, h.target]
    exact ⟨rfl, rfl⟩
  · rw [h.others t' ht]
    exact ⟨rfl, rfl⟩

theorem Registered.nodup : (added.map fun s => s.listener.id).Nodup := h.ids ▸ List.nodup_range'

end

end World

namespace Act

variable {E : Option Halt → Prop} {w : World κ} {t : TargetId}

theorem wp_presentTarget {Q : Option TargetId → World κ → Prop} (env : Setting κ) (h : HostId) :
    Wp E (env.presentTarget h) Q w ↔ Q (w.presentTarget (env.host h)) w := by
  unfold Setting.presentTarget World.presentTarget
  cases (env.host h).target with
  | none => exact Iff.rfl
  | some t =>
    dsimp only
    rw [wp_bind, wp_get, wp_pure, Option.filter]

theorem wp_addListener {Q : Unit → World κ → Prop} (s : Subscription)
    (hfree : w.conflicts (.listeners t) .write = false) :
    Wp E (addListener t s) Q w ↔ Q () (w.withListener t s) := by
  rw [addListener, wp_bind, wp_updateTarget, if_neg (by simp [hfree])]
  exact Iff.rfl

theorem wp_removeListener {Q : Unit → World κ → Prop} (s : Subscription)
    (hfree : w.conflicts (.listeners t) .write = false) :
    Wp E (removeListener t s) Q w ↔ Q () (w.withoutListener t s) := by
  rw [removeListener, wp_bind, wp_updateTarget, if_neg (by simp [hfree])]
  exact Iff.rfl

/-- Every declared event gets a listener of its own. -/
theorem wp_subscribe (hfree : w.conflicts (.listeners t) .write = false) (id : ComponentId)
    (type : ComponentType) {events : List EventBinding}
    (hh : ∀ b ∈ events, type.hasHandler b.handler = true) :
    Wp E (subscribe t id type events) (fun added w' => w.Registered id t events added w') w := by
  induction events generalizing w with
  | nil =>
    refine ⟨rfl, ?_, fun _ _ => rfl, rfl, rfl, nofun, rfl, rfl⟩
    simp
  | cons b rest ih =>
    obtain ⟨method, hm⟩ := Option.isSome_iff_exists.1 (hh b List.mem_cons_self)
    let s : Subscription := ⟨b.event, ⟨w.nextListener, .method id method⟩⟩
    let w₁ : World κ := { w with nextListener := w.nextListener + 1 }
    unfold subscribe
    rw [hm]
    dsimp only
    rw [wp_bind, wp_freshListener, wp_bind]
    refine (wp_addListener (w := w₁) s hfree).2 ((wp_bind _ _).2 ?_)
    refine (ih (w := w₁.withListener t s) hfree
      fun b' hb' => hh b' (List.mem_cons_of_mem _ hb')).mono
      fun added w' ⟨hrest, htarget, hothers, hevents, hids, hcallbacks, hnext, hrecord⟩ => ?_
    have hown : (w₁.withListener t s).target t = (w.target t).add s :=
      (w₁.target_setTarget t t _).trans (if_pos rfl)
    refine ⟨hrest, ?_, fun t' ht => ?_, ?_, ?_, fun s' hs' => ?_, ?_, ?_⟩
    · rw [htarget, hown]
      simp [EventTarget.add, s]
    · exact (hothers t' ht).trans ((w₁.target_setTarget t t' _).trans (if_neg ht))
    · simp [hevents]
    · rw [List.map_cons, hids, List.length_cons, List.range'_succ]
      rfl
    · rcases List.mem_cons.1 hs' with rfl | hs'
      · exact ⟨method, rfl⟩
      · exact hcallbacks s' hs'
    · rw [hnext, List.length_cons]
      show w.nextListener + 1 + added.length = _
      omega
    · rw [hrecord]
      simp [World.withListener, w₁, s]

/-- The listeners for declared events call the methods that handle them. -/
theorem wp_subscribe_calls (t : TargetId) (id : ComponentId) (type : ComponentType)
    (events : List EventBinding) (w : World κ) :
    (subscribe t id type events).Wp (fun _ => True)
      (fun added _ => added.map Subscription.call = EventBinding.calls id type events) w := by
  induction events generalizing w with
  | nil => rfl
  | cons b rest ih =>
    unfold subscribe EventBinding.calls
    rw [List.filterMap_cons]
    cases type.findMethod b.handler with
    | none => exact ih w
    | some m =>
      dsimp only
      rw [wp_bind, wp_freshListener, wp_bind]
      refine (Wp.any _ _).mono fun _ w₁ _ => ?_
      exact (ih w₁).bind fun added w₂ hadded => congrArg _ hadded

theorem wp_removeListeners (hfree : w.conflicts (.listeners t) .write = false)
    (entries : List Subscription) :
    Wp E (entries.forM (removeListener t)) (fun _ w' => w.Removed t entries w') w := by
  induction entries generalizing w with
  | nil => exact ⟨rfl, rfl, fun _ _ => rfl, rfl⟩
  | cons s rest ih =>
    rw [wp_forM_cons, wp_removeListener s hfree]
    refine (ih (w := w.withoutListener t s) hfree).mono
      fun _ w' ⟨hrest, htarget, hothers, hrecord⟩ => ⟨hrest, ?_, fun t' ht => ?_, ?_⟩
    · have hown : (w.withoutListener t s).target t = (w.target t).remove s :=
        (w.target_setTarget t t _).trans (if_pos rfl)
      rw [htarget, hown]
      rfl
    · exact (hothers t' ht).trans ((w.target_setTarget t t' _).trans (if_neg ht))
    · rw [hrecord]
      simp [World.withoutListener]

end Act

end LayeredViews
