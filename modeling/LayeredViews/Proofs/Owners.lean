import LayeredViews.Proofs.Subscribed

/-!
# Whose listeners are registered

A listener that calls a method of a component is registered by the component when it is bound, and
removed when it is unbound.

* `Lively`: a component was initialized since it was last unbound.
* `Attributed`: the listeners of a component are those that it retains, as long as it exists, and
  there are none unless it is lively.
* `attributed_managing`: components keep this as they come to be, are bound and are unbound. The
  runtimes must have global events all along: a component that is unbound without them keeps its
  listeners.
-/

namespace LayeredViews

variable {κ : Client} {host : HostId → Host}

/-! ## Lively components -/

/-- The component was initialized, and was not unbound since. -/
def Lively (i : ComponentId) : List (Occurrence κ) → Prop
  | [] => False
  | .initialized j :: past => j = i ∨ Lively i past
  | .unbound j :: past => j ≠ i ∧ Lively i past
  | _ :: past => Lively i past

section

variable {i : ComponentId} {past new : List (Occurrence κ)}

theorem Lively.append (h : Lively i past) (hn : .unbound i ∉ new) : Lively i (new ++ past) := by
  induction new with
  | nil => exact h
  | cons o new ih =>
    have hrest := ih fun hm => hn (List.mem_cons_of_mem _ hm)
    cases o with
    | initialized j => exact .inr hrest
    | unbound j => exact ⟨fun he => hn (he ▸ List.mem_cons_self), hrest⟩
    | _ => exact hrest

/-- A component that was unbound, and not initialized since, is not lively. -/
theorem not_lively_of_unbound (hn : .initialized i ∉ new) :
    ¬Lively i (new ++ .unbound i :: past) := by
  induction new with
  | nil => exact fun h => h.1 rfl
  | cons o new ih =>
    have hrest := ih fun hm => hn (List.mem_cons_of_mem _ hm)
    cases o with
    | initialized j => exact fun h => h.elim (fun he => hn (he ▸ List.mem_cons_self)) hrest
    | unbound j => exact fun h => hrest h.2
    | _ => exact hrest

end

/-! ## Dispatch -/

/-- While code runs, a dispatch calls the listeners that are registered for its event now. -/
theorem Subscribed.dispatch_run {w : World κ} (hw : Subscribed host w) {user : Callbacks (Act κ)}
    (t : TargetId) (event : GlobalEvent) :
    (Setting.dispatch ⟨host, user⟩ t event).run w =
      (do
        ((w.target t).listening event.name).forM fun l => Setting.invoke ⟨host, user⟩ l event
        return ((w.target t).listening event.name).length : Act κ Nat).run w := by
  have hfree : w.conflicts (.listeners t) .read = false := hw.not_conflicts fun _ => nofun
  have hread : (Act.listening t event.name).run w =
      .ok ((w.target t).listening event.name, w) := by
    refine Act.run_of_wp ?_
    rw [Act.listening, Act.wp_read, if_neg (by simp [hfree])]
    exact ⟨rfl, rfl⟩
  rw [Setting.dispatch, Act.run_bind_of hread]

/-! ## Removed listeners -/

namespace World

variable {w w' : World κ} {id : ComponentId} {c : Component} {t : TargetId}

theorem Removed.mem_listeners (hr : w.Removed t c.subscriptions.entries w')
    (hw : Subscribed host w) (hc : w.components.get? id = some c)
    (ht : (host c.host).target = some t) {t' : TargetId} {r : Subscription}
    (h : r ∈ (w'.target t').listeners) :
    r ∈ (w.target t').listeners ∧ (t' = t → r ∉ c.subscriptions.entries) := by
  by_cases he : t' = t
  · rw [he, hw.listeners_of_removed hc ht hr] at h
    obtain ⟨hmem, hnot⟩ := List.mem_filter.1 h
    refine ⟨he ▸ hmem, fun _ hent => ?_⟩
    have hid : r.listener.id ∈ c.subscriptions.entries.map fun s => s.listener.id :=
      List.mem_map.2 ⟨r, hent, rfl⟩
    simp only [Bool.not_eq_true', List.contains_eq_mem, decide_eq_false_iff_not] at hnot
    exact hnot hid
  · exact ⟨hr.others t' he ▸ h, fun ht' => absurd ht' he⟩

theorem Removed.runtime (hr : w.Removed t c.subscriptions.entries w')
    (hw : Subscribed host w) (hc : w.components.get? id = some c)
    (ht : (host c.host).target = some t) (t' : TargetId) :
    (w'.target t').present = (w.target t').present ∧
      (w'.target t').switchable = (w.target t').switchable := by
  by_cases he : t' = t
  · rw [he, hw.listeners_of_removed hc ht hr]
    exact ⟨rfl, rfl⟩
  · rw [hr.others t' he]
    exact ⟨rfl, rfl⟩

end World

/-! ## The invariant -/

/-- The listeners of component `i` are its own. `others` says whether there may be listeners that
belong to no component. -/
structure Attributed (host : HostId → Host) (others : Prop) (i : ComponentId) (w : World κ) : Prop
    extends Subscribed host w where
  owned : ∀ t, ∀ r ∈ (w.target t).listeners, ∀ m, r.listener.callback = .method i m →
    i < w.nextComponent ∧ Lively i w.record ∧ ∀ c, w.components.get? i = some c →
      (host c.host).target = some t ∧ r ∈ c.subscriptions.entries
  /-- The runtimes have global events, and keep them. -/
  present : ∀ t, (w.target t).present = true ∧ (w.target t).switchable = false
  named : others ∨ ∀ t, ∀ r ∈ (w.target t).listeners, ∃ j m, r.listener.callback = .method j m

variable {others : Prop} {i : ComponentId} {w w' : World κ}

theorem Attributed.spared (hw : Attributed host others i w) (h : w.Spared w') :
    Attributed host others i w' where
  toSubscribed := hw.toSubscribed.still h.toStill
  owned t r hr m hm := by
    obtain ⟨hlt, hlively, hent⟩ := hw.owned t r (h.listeners t ▸ hr) m hm
    refine ⟨Nat.lt_of_lt_of_le hlt h.nextComponent, ?_, fun c' hc' => ?_⟩
    · obtain ⟨new, hrecord, hnew⟩ := h.record
      rw [hrecord]
      exact hlively.append fun hi => hnew _ hi trivial
    · obtain ⟨c, node, hc, rfl⟩ := h.components i c' hc'
      exact hent c hc
  present t := by
    rw [h.present, h.switchable]
    exact hw.present t
  named := hw.named.imp_right fun hn t r hr => hn t r (h.listeners t ▸ hr)

theorem Attributed.added {c : Component} (hw : Attributed host others i w)
    (hb : c.type.build.result = .ok c.metadata) (hs : c.subscriptions = ∅) :
    Attributed host others i
      { w.setComponent w.nextComponent c with nextComponent := w.nextComponent + 1 } where
  toSubscribed := hw.toSubscribed.added hb hs
  owned t r hr m hm := by
    obtain ⟨hlt, hlively, hent⟩ := hw.owned t r hr m hm
    refine ⟨Nat.lt_succ_of_lt hlt, hlively, fun c' hc' => hent c' ?_⟩
    rwa [World.setComponent, Dict.get?_insert_of_ne _ _ (Nat.ne_of_lt hlt)] at hc'
  present := hw.present
  named := hw.named

section

variable {id : ComponentId} {c : Component} (hw : Attributed host others i w)
  (hc : w.components.get? id = some c)
include hw hc

/-- Binding a component registers listeners of its own. -/
theorem Initialized.attributed {r : Except Error Unit} (h : Initialized host id c w r w') :
    Attributed host others i w' := by
  have hsub := (h.subscribed hw.toSubscribed hc).1
  cases h with
  | absent hp =>
    refine ⟨hsub, fun t r hmem m hm => ?_, hw.present, hw.named⟩
    obtain ⟨hlt, hlively, hent⟩ := hw.owned t r hmem m hm
    exact ⟨hlt, .inr hlively, hent⟩
  | refused t hp hb => exact hw
  | bound t hp hb added w₁ hr =>
    have hnone : c.subscriptions.entries = [] := (hw.consistent id c hc).unbound hb
    have hrecord : ∀ j, .unbound j ∉ (added.map (Occurrence.added (κ := κ) t)).reverse :=
      fun j hj => by simp at hj
    have old : ∀ t', ∀ r ∈ (w.target t').listeners, ∀ m, r.listener.callback = .method i m →
        i < w₁.nextComponent ∧ Lively i (.initialized id :: w₁.record) ∧
        ∀ c', (w₁.setSubscriptions id c ⟨true, added⟩).components.get? i = some c' →
          (host c'.host).target = some t' ∧ r ∈ c'.subscriptions.entries := by
      intro t' r hmem m hm
      obtain ⟨hlt, hlively, hent⟩ := hw.owned t' r hmem m hm
      refine ⟨hr.nextComponent ▸ hlt, .inr ?_, fun c' hc' => ?_⟩
      · rw [hr.record]
        exact hlively.append (hrecord i)
      · rcases get?_setSubscriptions hc' with ⟨rfl, rfl⟩ | ⟨-, hc'⟩
        · have hmem := (hent c hc).2
          rw [hnone] at hmem
          cases hmem
        · exact hent c' (hr.components ▸ hc')
    refine ⟨hsub, fun t' r hmem m hm => ?_, fun t' => ?_, hw.named.imp_right fun hn t' r hmem => ?_⟩
    · rcases hr.mem_listeners hmem with hold | ⟨rfl, hnew⟩
      · exact old t' r hold m hm
      · obtain ⟨m', hm'⟩ := hr.callbacks r hnew
        obtain rfl : i = id := by
          rw [hm] at hm'
          cases hm'
          rfl
        refine ⟨hr.nextComponent ▸ hw.fresh i c hc, .inl rfl, fun c' hc' => ?_⟩
        rcases get?_setSubscriptions hc' with ⟨-, rfl⟩ | ⟨hne, -⟩
        · exact ⟨target_of_present hp, hnew⟩
        · exact absurd rfl hne
    · exact (hr.runtime t').1 ▸ (hr.runtime t').2 ▸ hw.present t'
    · rcases hr.mem_listeners hmem with hold | ⟨-, hnew⟩
      · exact hn t' r hold
      · exact ⟨id, hr.callbacks r hnew⟩

/-- Unbinding a component takes its listeners with it. -/
theorem Unbound.attributed {n : Nat} (h : Unbound host id c w n w') :
    Attributed host others i w' := by
  have hsub := (h.subscribed hw.toSubscribed hc).1
  cases h with
  | absent hp =>
    refine ⟨hsub, fun t r hmem m hm => ?_, hw.present, hw.named⟩
    obtain ⟨hlt, hlively, hent⟩ := hw.owned t r hmem m hm
    refine ⟨hlt, ⟨fun he => ?_, hlively⟩, hent⟩
    -- a component without a target has no listeners
    subst he
    have hpresent : w.presentTarget (host c.host) = some t := by
      rw [World.presentTarget, (hent c hc).1, Option.filter, if_pos (hw.present t).1]
    cases hp.symm.trans hpresent
  | removed t hp w₁ hr =>
    have htarget := target_of_present hp
    have hcomponents : w₁.components = w.components := by rw [hr.rest]
    have hnext : w₁.nextComponent = w.nextComponent := by rw [hr.rest]
    have hrecord : ∀ j, .unbound j ∉
        (c.subscriptions.entries.map (Occurrence.removed (κ := κ) t)).reverse := fun j hj => by
      simp at hj
    have hruntime := hr.runtime hw.toSubscribed hc htarget
    refine ⟨hsub, fun t' r hmem m hm => ?_, fun t' => ?_, hw.named.imp_right fun hn t' r hmem =>
      hn t' r (hr.mem_listeners hw.toSubscribed hc htarget hmem).1⟩
    · obtain ⟨hmem, hnot⟩ := hr.mem_listeners hw.toSubscribed hc htarget hmem
      obtain ⟨hlt, hlively, hent⟩ := hw.owned t' r hmem m hm
      have hne : i ≠ id := by
        rintro rfl
        obtain ⟨ht', hentry⟩ := hent c hc
        rw [htarget, Option.some.injEq] at ht'
        exact hnot ht'.symm hentry
      refine ⟨hnext ▸ hlt, ⟨Ne.symm hne, ?_⟩, fun c' hc' => ?_⟩
      · rw [hr.record]
        exact hlively.append (hrecord i)
      · rcases get?_setSubscriptions hc' with ⟨he, -⟩ | ⟨-, hc'⟩
        · exact absurd he hne
        · exact hent c' (hcomponents ▸ hc')
    · exact (hruntime t').1 ▸ (hruntime t').2 ▸ hw.present t'

end

theorem attributed_managing (host : HostId → Host) (others : Prop) (i : ComponentId) :
    World.Managing host (Attributed (κ := κ) host others i) where
  spared := Attributed.spared
  lent hw id := { hw with toSubscribed := (subscribed_managing host).lent hw.toSubscribed id }
  back hw hw' :=
    { hw' with toSubscribed := (subscribed_managing host).back hw.toSubscribed hw'.toSubscribed }
  subscribed hw := hw.toSubscribed
  added hw := hw.added
  initialized hw hc h := h.attributed hw hc
  unbound hw hc h := h.attributed hw hc
  switched hw t on := hw.spared (.switch on (hw.present t).2)

/-- The event targets of a runtime that has global events, without listeners. -/
def Fresh (targets : Dict TargetId EventTarget) : Prop :=
  ∀ t target, targets.get? t = some target →
    target.listeners = [] ∧ target.present = true ∧ target.switchable = false

theorem attributed_start {targets : Dict TargetId EventTarget} (hf : Fresh targets)
    (memory : κ.Memory) : Attributed host others i (World.start targets memory) := by
  have htarget : ∀ t, World.target (World.start targets memory : World κ) t =
      { listeners := [], present := true, switchable := false } := by
    intro t
    change (targets.get? t).getD {} = _
    cases ht : targets.get? t with
    | none => rfl
    | some target =>
      obtain ⟨hl, hp, hs⟩ := hf t target ht
      obtain ⟨l, p, s⟩ := target
      cases hl
      cases hp
      cases hs
      rfl
  refine ⟨subscribed_start (fun t target ht => (hf t target ht).1) memory, fun t r hr => ?_,
    fun t => ?_, .inr fun t r hr => ?_⟩
  · rw [htarget] at hr
    cases hr
  · rw [htarget]
    exact ⟨rfl, rfl⟩
  · rw [htarget] at hr
    cases hr

end LayeredViews
