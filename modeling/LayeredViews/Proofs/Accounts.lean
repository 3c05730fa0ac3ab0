import LayeredViews.Proofs.Shares
import LayeredViews.Proofs.Owners

/-!
# Accounts of listeners

A listener that is registered for a component is one that the component retains, as long as it
exists; whether the runtime has its global events or not makes no difference.

* `Accounted`: this, in a world in which the subscriptions are in order. All operations keep it that
  leave listeners to components (`accounted_managing`).
* `World.Listens`: the listeners of a component call what it declares, in order.
* `World.Registered.heard`, `World.Removed.heard`: binding adds the listeners of a component to what
  its side hears, and unbinding takes them out; the other side hears the same as before.
-/

namespace LayeredViews

variable {κ : Client} {host : HostId → Host} {w w' : World κ}

/-! ## The invariant -/

/-- The listeners of components are those that the components retain, as long as they exist. -/
structure Accounted (host : HostId → Host) (w : World κ) : Prop extends Subscribed host w where
  owned : ∀ t, ∀ r ∈ (w.target t).listeners, ∀ i m, r.listener.callback = .method i m →
    i < w.nextComponent ∧ ∀ c, w.components.get? i = some c →
      (host c.host).target = some t ∧ r ∈ c.subscriptions.entries
  calling : ∀ i c, w.components.get? i = some c → ∀ s ∈ c.subscriptions.entries,
    ∃ m, s.listener.callback = .method i m

theorem Accounted.still (hw : Accounted host w) (h : w.Still w') : Accounted host w' where
  toSubscribed := hw.toSubscribed.still h
  owned t r hr i m hm := by
    obtain ⟨hlt, hent⟩ := hw.owned t r (h.listeners t ▸ hr) i m hm
    refine ⟨Nat.lt_of_lt_of_le hlt h.nextComponent, fun c' hc' => ?_⟩
    obtain ⟨c, node, hc, rfl⟩ := h.components i c' hc'
    exact hent c hc
  calling i c' hc' := by
    obtain ⟨c, node, hc, rfl⟩ := h.components i c' hc'
    exact hw.calling i c hc

theorem Accounted.added {c : Component} (hw : Accounted host w)
    (hb : c.type.build.result = .ok c.metadata) (hs : c.subscriptions = ∅) :
    Accounted host (w.withComponent c) where
  toSubscribed := hw.toSubscribed.added hb hs
  owned t r hr i m hm := by
    obtain ⟨hlt, hent⟩ := hw.owned t r hr i m hm
    refine ⟨Nat.lt_succ_of_lt hlt, fun c' hc' => hent c' ?_⟩
    rwa [World.withComponent, World.setComponent,
      Dict.get?_insert_of_ne _ _ (Nat.ne_of_lt hlt)] at hc'
  calling i c' hc' s hs' := by
    change (w.components.insert w.nextComponent c).get? i = some c' at hc'
    rw [Dict.get?_insert] at hc'
    split at hc'
    · obtain rfl := Option.some.inj hc'
      rw [hs] at hs'
      cases hs'
    · exact hw.calling i c' hc' s hs'

section

variable {id : ComponentId} {c : Component} (hw : Accounted host w)
  (hc : w.components.get? id = some c)
include hw hc

theorem Initialized.accounted {r : Except Error Unit} (h : Initialized host id c w r w') :
    Accounted host w' := by
  have hsub := (h.subscribed hw.toSubscribed hc).1
  cases h with
  | absent hp => exact hw.still (.of_eq rfl rfl rfl rfl (Nat.le_refl _))
  | refused t hp hb => exact hw
  | bound t hp hb added w₁ hr =>
    have hnone : c.subscriptions.entries = [] := (hw.consistent id c hc).unbound hb
    refine ⟨hsub, fun t' r hmem i m hm => ?_, fun i c' hc' s hs => ?_⟩
    · rcases hr.mem_listeners hmem with hold | ⟨rfl, hnew⟩
      · obtain ⟨hlt, hent⟩ := hw.owned t' r hold i m hm
        refine ⟨hr.nextComponent ▸ hlt, fun c' hc' => ?_⟩
        rcases get?_setSubscriptions hc' with ⟨rfl, rfl⟩ | ⟨-, hc'⟩
        · have hmem := (hent c hc).2
          rw [hnone] at hmem
          cases hmem
        · exact hent c' (hr.components ▸ hc')
      · obtain ⟨m', hm'⟩ := hr.callbacks r hnew
        obtain ⟨rfl, -⟩ := Callback.method.inj (hm.symm.trans hm')
        refine ⟨hr.nextComponent ▸ hw.fresh i c hc, fun c' hc' => ?_⟩
        rcases get?_setSubscriptions hc' with ⟨-, rfl⟩ | ⟨hne, -⟩
        · exact ⟨target_of_present hp, hnew⟩
        · exact absurd rfl hne
    · rcases get?_setSubscriptions hc' with ⟨rfl, rfl⟩ | ⟨-, hc'⟩
      · exact hr.callbacks s hs
      · exact hw.calling i c' (hr.components ▸ hc') s hs

theorem Unbound.accounted {n : Nat} (h : Unbound host id c w n w') : Accounted host w' := by
  have hsub := (h.subscribed hw.toSubscribed hc).1
  cases h with
  | absent hp => exact hw.still (.of_eq rfl rfl rfl rfl (Nat.le_refl _))
  | removed t hp w₁ hr =>
    have htarget := target_of_present hp
    have hcomponents : w₁.components = w.components := by rw [hr.rest]
    have hnext : w₁.nextComponent = w.nextComponent := by rw [hr.rest]
    refine ⟨hsub, fun t' r hmem i m hm => ?_, fun i c' hc' s hs => ?_⟩
    · obtain ⟨hmem, hnot⟩ := hr.mem_listeners hw.toSubscribed hc htarget hmem
      obtain ⟨hlt, hent⟩ := hw.owned t' r hmem i m hm
      refine ⟨hnext ▸ hlt, fun c' hc' => ?_⟩
      rcases get?_setSubscriptions hc' with ⟨rfl, -⟩ | ⟨-, hc'⟩
      · obtain ⟨ht', hentry⟩ := hent c hc
        rw [htarget, Option.some.injEq] at ht'
        exact absurd hentry (hnot ht'.symm)
      · exact hent c' (hcomponents ▸ hc')
    · rcases get?_setSubscriptions hc' with ⟨-, rfl⟩ | ⟨-, hc'⟩
      · cases hs
      · exact hw.calling i c' (hcomponents ▸ hc') s hs

end

theorem accounted_managing (host : HostId → Host) :
    World.Managing host (Accounted (κ := κ) host) where
  spared hw h := hw.still h.toStill
  lent hw id := { hw with toSubscribed := (subscribed_managing host).lent hw.toSubscribed id }
  back hw hw' :=
    { hw' with toSubscribed := (subscribed_managing host).back hw.toSubscribed hw'.toSubscribed }
  subscribed hw := hw.toSubscribed
  added hw := hw.added
  initialized hw hc h := h.accounted hw hc
  unbound hw hc h := h.accounted hw hc
  switched {w} hw t on := by
    refine hw.still ⟨id, fun _ c h => ⟨c, c.node, h, rfl⟩, fun t' => ?_, rfl, Nat.le_refl _,
      Nat.le_refl _⟩
    rw [World.target_setTarget]
    split
    · next he => rw [EventTarget.listeners_switch, he]
    · rfl

theorem accounted_start {targets : Dict TargetId EventTarget}
    (hempty : ∀ t target, targets.get? t = some target → target.listeners = [])
    (memory : κ.Memory) : Accounted host (World.start targets memory) where
  toSubscribed := subscribed_start hempty memory
  owned t r hr := by
    rw [World.listeners_start hempty] at hr
    cases hr
  calling _ _ h := by cases h

/-! ## What listeners call -/

theorem Subscriptions.eq_empty {s : Subscriptions} (hb : s.bound = false) (he : s.entries = []) :
    s = ∅ := by
  obtain ⟨bound, entries⟩ := s
  obtain rfl : bound = false := hb
  obtain rfl : entries = [] := he
  rfl

/-- The component, which was `c` before, has the listeners that it wants if it is bound. -/
def World.Listens (v : World κ) (id : ComponentId) (c : Component) : Prop :=
  ∀ d, v.components.get? id = some d → d.subscriptions.bound = true →
    d.subscriptions.entries.map Subscription.call = c.calls id

/-- What the listeners of a component do that has become bound. -/
theorem Initialized.listens {r : Except Error Unit} {id : ComponentId} {c : Component}
    (h : Initialized host id c w r w') (hc : w.components.get? id = some c)
    (hb : c.subscriptions.bound = false) : w'.Listens id c := by
  intro d hd hbound
  cases h with
  | absent hp =>
    obtain rfl := Option.some.inj (hc.symm.trans hd)
    cases hb.symm.trans hbound
  | refused t hp hb' => cases hb.symm.trans hb'
  | bound t hp _ added w₁ hr hcalls =>
    rcases get?_setSubscriptions hd with ⟨-, rfl⟩ | ⟨hne, -⟩
    · exact hcalls
    · exact absurd rfl hne

theorem Setting.run_init (hw : Subscribed host w) (user : Callbacks (Act κ)) {id : ComponentId}
    {c : Component} (hc : w.components.get? id = some c) :
    ∃ r v, (init ⟨host, user⟩ id c).run w = .ok (r, v) ∧ Initialized host id c w r v ∧
      (c.subscriptions = ∅ → v.Listens id c) := by
  obtain ⟨r, v, hr, hinit⟩ := (wp_init (E := fun _ => False) hw hc).run_eq
  exact ⟨r, v, hr, hinit, fun hs => hinit.listens hc (by rw [hs]; rfl)⟩

theorem Setting.run_beforeRemove (hw : Subscribed host w) (user : Callbacks (Act κ))
    {id : ComponentId} {c : Component} (hc : w.components.get? id = some c) :
    ∃ n v, (beforeRemove ⟨host, user⟩ id c).run w = .ok (n, v) ∧ Unbound host id c w n v :=
  (wp_beforeRemove (E := fun _ => False) hw hc).run_eq

/-! ## What the sides hear -/

/-- Whether the listener calls a method of the component. -/
def Subscription.isOf (i : ComponentId) (r : Subscription) : Bool :=
  match r.listener.callback with
  | .method j _ => j == i
  | .code _ => false

theorem Subscription.isOf_iff {i : ComponentId} {r : Subscription} :
    r.isOf i = true ↔ ∃ m, r.listener.callback = .method i m := by
  unfold isOf
  cases r.listener.callback with
  | method j m => simp
  | code key => simp

theorem Share.hears_of_isOf {s : Share} {i : ComponentId} {r : Subscription} (h : r.isOf i = true) :
    s.Hears r ↔ s.component i := by
  obtain ⟨m, hm⟩ := Subscription.isOf_iff.1 h
  constructor
  · rintro ⟨j, m', hj, hs⟩
    obtain ⟨rfl, -⟩ := Callback.method.inj (hm.symm.trans hj)
    exact hs
  · exact fun hs => ⟨i, m, hm, hs⟩

section

variable {s : Share} {id : ComponentId} {c : Component} {t : TargetId}

/-- Binding a component adds to what its side hears. -/
theorem World.Registered.heard {events : List EventBinding} {added : List Subscription}
    (hr : w.Registered id t events added w') (hs : s.component id) :
    s.heard (w'.target t) = s.heard (w.target t) ++ added := by
  have hall : ∀ r ∈ added, s.Hears r := fun r hmem =>
    (Share.hears_of_isOf (Subscription.isOf_iff.2 (hr.callbacks r hmem))).2 hs
  rw [Share.heard, hr.target, s.among_append, s.among_eq_self hall]
  rfl

theorem World.Registered.heard_other {events : List EventBinding} {added : List Subscription}
    (hr : w.Registered id t events added w') (hs : ¬s.component id) (t' : TargetId) :
    s.heard (w'.target t') = s.heard (w.target t') := by
  by_cases ht : t' = t
  · have hnone : ∀ r ∈ added, ¬s.Hears r := fun r hmem =>
      mt (Share.hears_of_isOf (Subscription.isOf_iff.2 (hr.callbacks r hmem))).1 hs
    rw [ht, Share.heard, hr.target, s.among_append, s.among_eq_nil hnone, List.append_nil]
    rfl
  · rw [hr.others t' ht]

variable (hw : Accounted host w) (hc : w.components.get? id = some c)
include hw hc

/-- The listeners that a component retains are all that it has. -/
theorem Accounted.retains_iff (ht : (host c.host).target = some t) {r : Subscription}
    (hr : r ∈ (w.target t).listeners) :
    r.listener.id ∈ c.subscriptions.entries.map (fun s => s.listener.id) ↔ r.isOf id = true := by
  rw [Subscription.isOf_iff]
  constructor
  · intro hmem
    obtain ⟨e, he, hid⟩ := List.mem_map.1 hmem
    obtain ⟨t', ht', hheld⟩ := hw.held id c hc e he
    obtain rfl : t = t' := Option.some.inj (ht.symm.trans ht')
    have hr' : r ∈ (w.target t).listeners.filter fun q => q.listener.id == e.listener.id :=
      List.mem_filter.2 ⟨hr, by simpa using hid.symm⟩
    rw [show _ = [e] from hheld] at hr'
    exact List.mem_singleton.1 hr' ▸ hw.calling id c hc e he
  · rintro ⟨m, hm⟩
    exact List.mem_map.2 ⟨r, ((hw.owned t r hr id m hm).2 c hc).2, rfl⟩

/-- Unbinding takes out all listeners of a component. -/
theorem World.Removed.heard (ht : (host c.host).target = some t)
    (hr : w.Removed t c.subscriptions.entries w') :
    s.heard (w'.target t) = (s.heard (w.target t)).filter fun r => !r.isOf id := by
  rw [Share.heard, hw.listeners_of_removed hc ht hr, Share.heard, Share.among, Share.among,
    List.filter_filter, List.filter_filter]
  refine List.filter_congr fun r hmem => ?_
  have hiff := hw.retains_iff hc ht hmem
  rw [Bool.and_comm]
  congr 2
  rw [Bool.eq_iff_iff, List.contains_iff_mem]
  exact hiff

theorem World.Removed.heard_other (ht : (host c.host).target = some t)
    (hr : w.Removed t c.subscriptions.entries w') (hs : ¬s.component id) (t' : TargetId) :
    s.heard (w'.target t') = s.heard (w.target t') := by
  by_cases he : t' = t
  · rw [he, hr.heard hw hc ht]
    refine List.filter_eq_self.2 fun r hmem => ?_
    have hears : s.Hears r := (Share.mem_among.1 hmem).2
    cases hof : r.isOf id with
    | false => rfl
    | true => exact absurd ((Share.hears_of_isOf hof).1 hears) hs
  · rw [hr.others t' he]

end

end LayeredViews
