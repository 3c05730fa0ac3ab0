import LayeredViews.Proofs.Owners
import LayeredViews.Proofs.Without

/-!
# Components are not called after they were unbound

* `Retired`: a component was unbound, and was not initialized since. An operation that unbinds it
  leaves it so (`Setting.retired_of_beforeRemove`, `Setting.retired_of_unmount`).
* `World.Meddles`: an operation of the application interferes with the listeners that components
  retain, or registers listeners of a component that the component does not know of.
* `not_called_after_unbound`: in a run without such operations no listener of a retired component is
  registered, so a dispatch that begins now does not call it.
* `called_after_unbound`: a dispatch that has begun before does.
-/

namespace LayeredViews

variable {κ : Client} {α : Type} {host : HostId → Host}

/-! ## Retired components -/

/-- The component was unbound, and was not initialized since. -/
def Retired (i : ComponentId) (past : List (Occurrence κ)) : Prop :=
  ∃ since before, past = since ++ .unbound i :: before ∧ .initialized i ∉ since

theorem Retired.append {i : ComponentId} {past b : List (Occurrence κ)} (h : Retired i past)
    (hn : .initialized i ∉ b) : Retired i (b ++ past) := by
  obtain ⟨since, before, rfl, hs⟩ := h
  refine ⟨b ++ since, before, (List.append_assoc ..).symm, fun hm => ?_⟩
  exact (List.mem_append.1 hm).elim hn hs

theorem Retired.not_lively {i : ComponentId} {past : List (Occurrence κ)} (h : Retired i past) :
    ¬Lively i past := by
  obtain ⟨since, before, rfl, hs⟩ := h
  exact not_lively_of_unbound hs

/-- Whether a component is retired, by what has happened, latest first. -/
def retired (i : ComponentId) : List (Occurrence κ) → Bool
  | [] => false
  | .initialized j :: past => j != i && retired i past
  | .unbound j :: past => j == i || retired i past
  | _ :: past => retired i past

theorem retired_sound {i : ComponentId} {past : List (Occurrence κ)} (h : retired i past = true) :
    Retired i past := by
  induction past with
  | nil => cases h
  | cons o past ih =>
    have later : ∀ o : Occurrence κ, o ≠ .initialized i → Retired i past → Retired i (o :: past) :=
      fun o ho hp => hp.append (b := [o]) (by simpa using ho.symm)
    cases o with
    | initialized j =>
      obtain ⟨hj, hp⟩ := (Bool.and_eq_true _ _).mp h
      exact later _ (by simpa using hj) (ih hp)
    | unbound j =>
      rcases (Bool.or_eq_true _ _).mp h with hj | hp
      · obtain rfl := beq_iff_eq.1 hj
        exact ⟨[], past, rfl, List.not_mem_nil⟩
      · exact later _ nofun (ih hp)
    | _ => exact later _ nofun (ih h)

theorem Retired.discarded {i : ComponentId} {w : World κ} (h : Retired i w.record) (hst : HostId)
    (selection : Cache.Selection) (cause : Cause) :
    Retired i (w.discarded hst selection cause).record :=
  h.append fun hm => by simp at hm

namespace Act

variable {i : ComponentId} {w : World κ}

theorem wp_discard_retired (h : Retired i w.record) (hst : HostId)
    (selection : Cache.Selection) (cause : Cause) :
    (discard hst selection cause).Wp (fun _ => True) (fun _ w' => Retired i w'.record) w := by
  rw [wp_discard]
  split
  · trivial
  · exact h.discarded hst selection cause

theorem wp_settle_retired (h : Retired i w.record) (c : ComponentId) :
    (settle c).Wp (fun _ => True) (fun _ w' => Retired i w'.record) w :=
  .settle (fun _ => trivial) h fun _ _ _ => Retired.discarded (w := w.withoutComponent c) h _ _ _

/-- A component that an operation retires is retired once the operation is over. -/
theorem wp_withComponent_retired {body : Component → Act κ α}
    (h : ∀ c w, (body c).Wp (fun _ => True) (fun _ w' => Retired i w'.record) w) (w : World κ) :
    (withComponent i body).Wp (fun _ => True) (fun r w' => r.isSome → Retired i w'.record) w := by
  rw [wp_withComponent]
  cases w.components.get? i with
  | none => exact fun hr => by cases hr
  | some c =>
    dsimp only
    rw [wp_pinned, wp_map]
    refine (h c (w.pin i)).mono fun x w₁ hw₁ => ?_
    exact (wp_settle_retired (w := w₁.unpin) hw₁ i).mono fun _ _ hw₂ _ => hw₂

end Act

namespace Setting

variable {env : Setting κ} {i : ComponentId} {w w' : World κ}

theorem wp_beforeRemove_retired (c : Component) (w : World κ) :
    (env.beforeRemove i c).Wp (fun _ => True) (fun _ w' => Retired i w'.record) w :=
  (Act.Wp.any (Act.withSubscriptions i c (env.unbindAll c.host)) w).bind fun _ w₁ _ =>
    ⟨[], w₁.record, rfl, List.not_mem_nil⟩

/-- Once a component has been prepared for removal, it is retired. -/
theorem retired_of_beforeRemove {n : Nat}
    (h : (env.perform (.beforeRemove i)).run w = .ok (some n, w')) : Retired i w'.record :=
  (Act.wp_withComponent_retired (fun c w => wp_beforeRemove_retired c w) w).of_run h rfl

/-- Once a component has been unmounted, it is retired. -/
theorem retired_of_unmount (h : (env.perform (.unmount i)).run w = .ok (some (), w')) :
    Retired i w'.record := by
  refine (Act.wp_withComponent_retired (fun c w => ?_) w).of_run h rfl
  refine (wp_beforeRemove_retired c w).bind fun _ w₁ hw₁ => ?_
  unfold Act.remove
  rw [Act.wp_bind, Act.wp_bind, Act.wp_nodeOf]
  split
  · trivial
  · refine (Act.wp_discard_retired hw₁ _ _ _).bind fun _ w₂ hw₂ => ?_
    exact hw₂.append (b := [.unmounted i]) (by simp)

end Setting

/-! ## Listeners that the application registers itself -/

namespace World

/-- No component retains the listener of the subscription. -/
def Loose (w : World κ) (s : Subscription) : Prop :=
  ∀ id c, w.components.get? id = some c → ∀ s' ∈ c.subscriptions.entries,
    s.listener.id ≠ s'.listener.id

/-- The operation registers listeners of component `i` that it does not retain, or it interferes
with listeners that some component retains. -/
def Meddles (w : World κ) (i : ComponentId) : Op → Prop
  | .add _ s =>
    ¬(w.Loose s ∧ s.listener.id < w.nextListener ∧ ∀ m, s.listener.callback ≠ .method i m)
  | .removeListener _ s => ¬w.Loose s
  | .bindTo j _ _ => j = i
  | .unbindFrom _ _ s => ∃ e ∈ s.entries, ¬w.Loose e
  | _ => False

theorem registers_of_meddles {w : World κ} {i : ComponentId} {op : Op} (h : w.Meddles i op) :
    op.Registers := by
  cases op with
  | add | removeListener | bindTo | unbindFrom => trivial
  | _ => exact h.elim

/-- Other listeners than those of component `i` and those that components retain have been
registered or removed. -/
structure Relisted (i : ComponentId) (w w' : World κ) : Prop where
  components : w'.components = w.components
  loans : w'.loans = w.loans
  nextComponent : w'.nextComponent = w.nextComponent
  nextListener : w.nextListener ≤ w'.nextListener
  held : ∀ id c, w.components.get? id = some c → ∀ s ∈ c.subscriptions.entries, ∀ t,
    (w.target t).Holds s → (w'.target t).Holds s
  listeners : ∀ t, ∀ r ∈ (w'.target t).listeners, r ∈ (w.target t).listeners ∨
    r.listener.id < w'.nextListener ∧ ∀ m, r.listener.callback ≠ .method i m
  present : ∀ t, (w'.target t).present = (w.target t).present
  switchable : ∀ t, (w'.target t).switchable = (w.target t).switchable
  record : ∃ new, w'.record = new ++ w.record ∧ .unbound i ∉ new

end World

variable {i : ComponentId} {w w' : World κ}

theorem Subscribed.relisted (hw : Subscribed host w) (h : w.Relisted i w') :
    Subscribed host w' where
  ordered := h.components ▸ hw.ordered
  lent := h.loans ▸ hw.lent
  fresh id c hc := h.nextComponent ▸ hw.fresh id c (h.components ▸ hc)
  consistent id c hc := hw.consistent id c (h.components ▸ hc)
  held id c hc s hs := by
    have hc : w.components.get? id = some c := h.components ▸ hc
    obtain ⟨t, ht, hheld⟩ := hw.held id c hc s hs
    exact ⟨t, ht, h.held id c hc s hs t hheld⟩
  numbered t r hr := (h.listeners t r hr).elim
    (fun hr => Nat.lt_of_lt_of_le (hw.numbered t r hr) h.nextListener) fun hr => hr.1
  apart id c id' c' hc hc' := hw.apart id c id' c' (h.components ▸ hc) (h.components ▸ hc')

theorem Attributed.relisted (hw : Attributed host True i w) (h : w.Relisted i w') :
    Attributed host True i w' where
  toSubscribed := hw.toSubscribed.relisted h
  owned t r hr m hm := by
    have hr : r ∈ (w.target t).listeners :=
      (h.listeners t r hr).resolve_right fun hr => hr.2 m hm
    obtain ⟨hlt, hlively, hent⟩ := hw.owned t r hr m hm
    refine ⟨h.nextComponent ▸ hlt, ?_, fun c hc => hent c (h.components ▸ hc)⟩
    obtain ⟨new, hrecord, hnew⟩ := h.record
    rw [hrecord]
    exact hlively.append hnew
  present t := by
    rw [h.present, h.switchable]
    exact hw.present t
  named := .inl trivial

namespace EventTarget

theorem filter_eraseP {l : List Subscription} {p q : Subscription → Bool}
    (h : ∀ r, p r = true → q r = false) : (l.eraseP p).filter q = l.filter q := by
  induction l with
  | nil => rfl
  | cons r rest ih =>
    by_cases hp : p r = true
    · rw [List.eraseP_cons_of_pos hp, List.filter_cons_of_neg (by simp [h r hp])]
    · rw [List.eraseP_cons_of_neg hp, List.filter_cons, List.filter_cons, ih]

/-- A subscription keeps being registered once while listeners of others are removed. -/
theorem Holds.removeAll {t : EventTarget} {s : Subscription} (h : t.Holds s)
    {entries : List Subscription} (hn : ∀ e ∈ entries, e.listener.id ≠ s.listener.id) :
    (t.removeAll entries).Holds s := by
  induction entries generalizing t with
  | nil => exact h
  | cons e rest ih =>
    refine ih (t := t.remove e) ?_ fun e' he' => hn e' (List.mem_cons_of_mem _ he')
    have hne := hn e List.mem_cons_self
    refine (filter_eraseP fun r hr => ?_).trans h
    have hid : r.listener.id = e.listener.id := by
      simp only [Bool.and_eq_true, beq_iff_eq] at hr
      exact hr.2
    simpa [hid] using hne

theorem removeAll_sub (t : EventTarget) (entries : List Subscription) :
    (∀ r ∈ (t.removeAll entries).listeners, r ∈ t.listeners) ∧
      (t.removeAll entries).present = t.present ∧
      (t.removeAll entries).switchable = t.switchable := by
  induction entries generalizing t with
  | nil => exact ⟨fun _ hr => hr, rfl, rfl⟩
  | cons e rest ih =>
    obtain ⟨hl, hp, hs⟩ := ih (t.remove e)
    exact ⟨fun r hr => List.mem_of_mem_eraseP (hl r hr), hp, hs⟩

end EventTarget

/-- Listeners that no component retains are removed. -/
theorem World.Removed.relisted {t : TargetId} {entries : List Subscription}
    (h : w.Removed t entries w') (hl : ∀ e ∈ entries, w.Loose e) : w.Relisted i w' := by
  have hsub : ∀ t', (∀ r ∈ (w'.target t').listeners, r ∈ (w.target t').listeners) ∧
      (w'.target t').present = (w.target t').present ∧
      (w'.target t').switchable = (w.target t').switchable := by
    intro t'
    by_cases ht : t' = t
    · rw [ht, h.target]
      exact EventTarget.removeAll_sub _ _
    · rw [h.others t' ht]
      exact ⟨fun _ hr => hr, rfl, rfl⟩
  refine ⟨by rw [h.rest], by rw [h.rest], by rw [h.rest], Nat.le_of_eq (by rw [h.rest]),
    fun id c hc s hs t' hheld => ?_, fun t' r hr => .inl ((hsub t').1 r hr),
    fun t' => (hsub t').2.1, fun t' => (hsub t').2.2, _, h.record, fun hm => by simp at hm⟩
  by_cases ht : t' = t
  · rw [ht] at hheld ⊢
    rw [h.target]
    exact hheld.removeAll fun e he => hl e he id c hc s hs
  · rw [h.others t' ht]
    exact hheld

/-- Listeners are registered that no component retains and that do not belong to component `i`. -/
theorem World.Relisted.of_added {t : TargetId} (added : List Subscription)
    (hc : w'.components = w.components) (hl : w'.loans = w.loans)
    (hn : w'.nextComponent = w.nextComponent) (hn' : w.nextListener ≤ w'.nextListener)
    (ht : w'.target t = { w.target t with listeners := (w.target t).listeners ++ added })
    (ho : ∀ t', t' ≠ t → w'.target t' = w.target t')
    (hr : w'.record = (added.map (.added t)).reverse ++ w.record)
    (hadded : ∀ s ∈ added, w.Loose s ∧ s.listener.id < w'.nextListener ∧
      ∀ m, s.listener.callback ≠ .method i m) : w.Relisted i w' := by
  refine ⟨hc, hl, hn, hn', fun id c hc s hs t' hheld => ?_, fun t' r hmem => ?_, fun t' => ?_,
    fun t' => ?_, _, hr, fun hm => by simp at hm⟩
  · by_cases he : t' = t
    · rw [he] at hheld ⊢
      rw [ht]
      exact hheld.append fun r hr => (hadded r hr).1 id c hc s hs
    · rw [ho t' he]
      exact hheld
  · by_cases he : t' = t
    · rw [he, ht] at hmem
      exact he ▸ (List.mem_append.1 hmem).imp_right fun hmem => (hadded r hmem).2
    · rw [ho t' he] at hmem
      exact .inl hmem
  all_goals
    by_cases he : t' = t
    · rw [he, ht]
    · rw [ho t' he]

/-! ## Operations and runs -/

/-- The contract of code that does not meddle with the listeners of component `i`. -/
def unheard (host : HostId → Host) (i : ComponentId) : Contract κ :=
  .leaving (Attributed host True i) World.loans

namespace Setting

variable {user : Callbacks (Act κ)} (hw : Attributed host True i w)
include hw

theorem unheard_relisted (h : w.Relisted i w') :
    (unheard host i).inv w' ∧ (unheard host i).step w w' :=
  ⟨hw.relisted h, h.loans⟩

theorem not_conflicts_listeners (t : TargetId) : w.conflicts (.listeners t) .write = false :=
  hw.not_conflicts fun _ => nofun

theorem unheard_add {t : TargetId} {s : Subscription} (hm : ¬w.Meddles i (.add t s)) :
    (unheard host i).KeptFrom w (perform ⟨host, user⟩ (.add t s)) := by
  refine (Act.wp_addListener s (not_conflicts_listeners hw t)).2 (unheard_relisted hw ?_)
  refine .of_added [s] rfl rfl rfl (Nat.le_refl _) ((w.target_setTarget t t _).trans (if_pos rfl))
    (fun t' ht => (w.target_setTarget t t' _).trans (if_neg ht)) rfl fun s' hs' => ?_
  obtain rfl := List.mem_singleton.1 hs'
  exact Classical.not_not.1 hm

theorem unheard_removeListener {t : TargetId} {s : Subscription}
    (hm : ¬w.Meddles i (.removeListener t s)) :
    (unheard host i).KeptFrom w (perform ⟨host, user⟩ (.removeListener t s)) := by
  refine (Act.wp_removeListener s (not_conflicts_listeners hw t)).2 (unheard_relisted hw ?_)
  have hr : w.Removed t [s] (w.withoutListener t s) :=
    ⟨rfl, (w.target_setTarget t t _).trans (if_pos rfl),
      fun t' ht => (w.target_setTarget t t' _).trans (if_neg ht), rfl⟩
  exact hr.relisted fun e he => List.mem_singleton.1 he ▸ Classical.not_not.1 hm

theorem unheard_bindTo {j : ComponentId} {h : HostId} {s : Subscriptions} (hj : j ≠ i) :
    (unheard host i).KeptFrom w (perform ⟨host, user⟩ (.bindTo j h s)) := by
  refine (attributed_managing host True i).handling.withComponent_at hw fun c hc hpin => ?_
  unfold bindAll Contract.KeptFrom
  rw [Act.wp_bind, Act.wp_presentTarget]
  cases (w.pin j).presentTarget (host h) with
  | none => exact ⟨hpin, rfl⟩
  | some t =>
    dsimp only
    rw [Act.wp_ite]
    split
    · exact ⟨hpin, rfl⟩
    refine (Act.wp_subscribe (not_conflicts_listeners hpin t) j c.type
      (Metadata.hasHandler_of_build (hw.consistent j c hc).built)).bind fun added w₁ hr => ?_
    refine unheard_relisted hpin (.of_added added hr.components hr.loans hr.nextComponent
      (hr.next ▸ Nat.le_add_right _ _) hr.target hr.others hr.record fun s hs =>
        ⟨fun id c' hc' s' hs' => ?_, (hr.mem_ids hs).2, fun m hm => ?_⟩)
    · have hlt := hpin.toSubscribed.numbered_entries hc' hs'
      have hge := (hr.mem_ids hs).1
      omega
    · obtain ⟨m', hm'⟩ := hr.callbacks s hs
      rw [hm] at hm'
      cases hm'
      exact hj rfl

theorem unheard_unbindFrom {j : ComponentId} {h : HostId} {s : Subscriptions}
    (hm : ¬w.Meddles i (.unbindFrom j h s)) :
    (unheard host i).KeptFrom w (perform ⟨host, user⟩ (.unbindFrom j h s)) := by
  refine (attributed_managing host True i).handling.withComponent_at hw fun c hc hpin => ?_
  unfold unbindAll Contract.KeptFrom
  rw [Act.wp_bind, Act.wp_presentTarget]
  cases (w.pin j).presentTarget (host h) with
  | none => exact ⟨hpin, rfl⟩
  | some t =>
    dsimp only
    rw [Act.wp_bind]
    refine (Act.wp_removeListeners (not_conflicts_listeners hpin t) s.entries).mono
      fun _ w₁ hr => ?_
    exact unheard_relisted hpin (hr.relisted fun e he =>
      Classical.not_not.1 fun hl => hm ⟨e, he, hl⟩)

/-- Listeners are registered and removed by the application without meddling. -/
theorem unheard_registers {op : Op} (hop : op.Registers) (hm : ¬w.Meddles i op) :
    (unheard host i).KeptFrom w (perform ⟨host, user⟩ op) := by
  cases op with
  | add t s => exact unheard_add hw hm
  | removeListener t s => exact unheard_removeListener hw hm
  | bindTo j h s => exact unheard_bindTo hw hm
  | unbindFrom j h s => exact unheard_unbindFrom hw hm
  | _ => exact hop.elim

end Setting

theorem unheard_guarded (host : HostId → Host) (i : ComponentId) :
    Contract.Guarded (κ := κ) (fun _ => unheard host i) host fun _ w op => w.Meddles i op where
  opened _ := (attributed_managing host True i).toOpen
  perform user hu who op w hw hop := by
    by_cases hg : op.Registers
    · exact Setting.unheard_registers hw hg hop
    · exact (attributed_managing host True i).perform hu.keptBy hg w hw

section

variable {app : Application κ} {prog : Program κ α} {targets : Dict TargetId EventTarget}
  {memory : κ.Memory} {v : World κ}

/-- **Components are not called after they were unbound.** Once a component has been unmounted or
prepared for removal, it is retired, until it is initialized again. In a run on runtimes that have
global events, in which the application does not meddle with the listeners of component `i`: where
it is retired, a dispatch that begins now, at whatever depth of calls, calls exactly the listeners
that are registered for the event, and none of them calls a method of the component. -/
theorem not_called_after_unbound (hf : Fresh targets)
    (hv : app.ReachesWithout (fun _ w op => w.Meddles i op) prog (World.start targets memory) v) :
    (∀ (user : Callbacks (Act κ)) w n,
      ((Setting.perform ⟨app.host, user⟩ (.beforeRemove i)).run v = .ok (some n, w) →
        Retired i w.record)) ∧
    (∀ (user : Callbacks (Act κ)) w,
      (Setting.perform ⟨app.host, user⟩ (.unmount i)).run v = .ok (some (), w) →
        Retired i w.record) ∧
    (Retired i v.record → ∀ (user : Callbacks (Act κ)) t (event : GlobalEvent),
      (Setting.dispatch ⟨app.host, user⟩ t event).run v =
        (do
          ((v.target t).listening event.name).forM fun l =>
            Setting.invoke ⟨app.host, user⟩ l event
          return ((v.target t).listening event.name).length : Act κ Nat).run v ∧
      ∀ l ∈ (v.target t).listening event.name, ∀ m, l.callback ≠ .method i m) := by
  have hinv : Attributed app.host True i v := (unheard_guarded app.host i).inv_of_reaches_one
    (fun h => h rfl) (attributed_start hf memory) hv
  refine ⟨fun _ _ _ => Setting.retired_of_beforeRemove, fun _ _ => Setting.retired_of_unmount,
    fun hretired user t event => ⟨hinv.toSubscribed.dispatch_run t event, fun l hl m hm => ?_⟩⟩
  obtain ⟨r, hr, rfl⟩ := List.mem_map.1 hl
  exact hretired.not_lively (hinv.owned t r (List.mem_filter.1 hr).1 m hm).2.1

end

/-! ## Calls of retired components -/

/-- A method of a component was called when the component was retired. -/
def Overdue (record : List (Occurrence κ)) : Prop :=
  ∃ since i name m event past,
    record = since ++ .called i name m event :: past ∧ Retired i past

/-- Whether a method of a component was called when the component was retired. -/
def overdue : List (Occurrence κ) → Bool
  | [] => false
  | .called i _ _ _ :: past => retired i past || overdue past
  | _ :: past => overdue past

theorem overdue_sound {record : List (Occurrence κ)} (h : overdue record = true) :
    Overdue record := by
  induction record with
  | nil => cases h
  | cons o past ih =>
    have later : ∀ o : Occurrence κ, Overdue past → Overdue (o :: past) := by
      rintro o ⟨since, i, name, m, event, before, rfl, hi⟩
      exact ⟨o :: since, i, name, m, event, before, rfl, hi⟩
    cases o with
    | called i name m event =>
      rcases (Bool.or_eq_true _ _).mp h with hi | hp
      · exact ⟨[], i, name, m, event, past, rfl, retired_sound hi⟩
      · exact later _ (ih hp)
    | _ => exact later _ (ih h)

namespace Closer

/-- An application in which a method of the first component unmounts the second one. -/
def application : Application ⟨Unit, Empty⟩ where
  host _ := { target := some 0 }
  code := { Callbacks.idle with
    handle := fun _ c _ => if c = 0 then .call (.unmount 1) fun _ => .done () else .done () }

/-- Mounts two components with the same event, and goes on. -/
def mounting (next : Program ⟨Unit, Empty⟩ Unit) : Program ⟨Unit, Empty⟩ Unit :=
  .call (.mount 0 Ticker.type ⟨1, ∅⟩ ⟨0, "first"⟩) fun _ =>
  .call (.mount 0 Ticker.type ⟨2, ∅⟩ ⟨0, "second"⟩) fun _ => next

/-- Unmounts the first one. -/
def parting : Program ⟨Unit, Empty⟩ Unit := mounting (.call (.unmount 0) fun _ => .done ())

/-- Dispatches the event. -/
def dispatching : Program ⟨Unit, Empty⟩ Unit :=
  mounting (.call (.dispatch 0 ⟨"tick", .null⟩) fun _ => .done ())

/-- Binds the second one a second time, to subscriptions that it does not know of; unmounts it and
dispatches the event. -/
def binding : Program ⟨Unit, Empty⟩ Unit :=
  mounting <| .call (.bindTo 1 0 ∅) fun _ => .call (.unmount 1) fun _ =>
    .call (.dispatch 0 ⟨"tick", .null⟩) fun _ => .done ()

end Closer

/-- Of two components with the same event, the one that was unmounted is not called any more. -/
theorem not_called_after_unbound_parting :
    ∃ v, Fresh ∅ ∧
      Ticker.application.ReachesWithout (fun _ w op => w.Meddles 0 op) Closer.parting
        (World.start ∅ ()) v ∧
      Retired 0 v.record ∧ ((v.target 0).listening "tick").length = 1 ∧
      ∀ l ∈ (v.target 0).listening "tick", ∀ m, l.callback ≠ .method 0 m := by
  let v : World ⟨Unit, Empty⟩ := Ticker.application.worldAfter 1 Closer.parting (World.start ∅ ())
  have hrun : (Ticker.application.exec 1 Closer.parting).run (World.start ∅ ()) = .ok ((), v) :=
    Application.run_eq_worldAfter (by decide +kernel)
  have hcode : Ticker.application.code.UsesEach fun _ op => ¬op.Registers :=
    ⟨fun _ _ => trivial, fun _ => trivial, fun _ _ => trivial, fun _ _ _ => trivial,
      fun _ _ => trivial⟩
  have hprog : Closer.parting.Uses fun op => ¬op.Registers :=
    ⟨id, fun _ => ⟨id, fun _ => ⟨id, fun _ => trivial⟩⟩⟩
  have hv : Ticker.application.ReachesWithout (fun _ w op => w.Meddles 0 op) Closer.parting
      (World.start ∅ ()) v :=
    .of_uses (P := fun _ op => ¬op.Registers) (fun _ _ _ h hm => h (World.registers_of_meddles hm))
      hcode hprog (Application.reaches_of_exec hrun)
  have hf : Fresh ∅ := fun _ _ h => by cases h
  have hretired : Retired 0 v.record := retired_sound (by decide +kernel)
  exact ⟨v, hf, hv, hretired, by decide +kernel,
    ((not_called_after_unbound hf hv).2.2 hretired .idle 0 ⟨"tick", .null⟩).2⟩

/-- It is not so that retired components are never called. A dispatch that is in progress calls the
listeners that were registered when it began, and subscriptions kept by the application are not
unbound with the component. -/
theorem called_after_unbound :
    (¬∀ (κ : Client) (app : Application κ) (prog : Program κ Unit) (memory : κ.Memory)
      (depth : Nat) (v : World κ), app.code.Uses Op.Managed → prog.Uses Op.Managed →
      (app.exec depth prog).run (World.start ∅ memory) = .ok ((), v) → ¬Overdue v.record) ∧
    ¬∀ (κ : Client) (app : Application κ) (prog : Program κ Unit) (memory : κ.Memory)
      (depth : Nat) (v : World κ), app.code.Uses (fun _ => False) →
      (app.exec depth prog).run (World.start ∅ memory) = .ok ((), v) → ¬Overdue v.record := by
  constructor
  · intro hnever
    refine hnever _ Closer.application Closer.dispatching () 2 _
      ⟨fun _ _ => trivial, fun _ => trivial, fun _ _ => trivial, fun _ c _ => ?_,
        fun _ _ => trivial⟩ ⟨trivial, fun _ => ⟨trivial, fun _ => ⟨trivial, fun _ => trivial⟩⟩⟩
      (Application.run_eq_worldAfter (by decide +kernel)) (overdue_sound (by decide +kernel))
    change (if c = 0 then _ else _ : Program _ _).Uses Op.Managed
    split
    · exact ⟨trivial, fun _ => trivial⟩
    · trivial
  · intro hnever
    exact hnever _ Ticker.application Closer.binding () 2 _
      ⟨fun _ _ => trivial, fun _ => trivial, fun _ _ => trivial, fun _ _ _ => trivial,
        fun _ _ => trivial⟩
      (Application.run_eq_worldAfter (by decide +kernel)) (overdue_sound (by decide +kernel))

end LayeredViews
