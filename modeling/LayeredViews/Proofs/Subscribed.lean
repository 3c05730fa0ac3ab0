import LayeredViews.Proofs.Still

/-!
# What components have subscribed to

* `Subscribed`: the components that exist retain the listeners of their declared events while they
  are bound, and none otherwise; every retained listener is registered once, and no two components
  share one.
* `Setting.wp_init`, `Setting.wp_beforeRemove`: what binding and unbinding do from such a world.
* `World.Managing`: an invariant that components keep as they come to be, are bound and are unbound;
  then all operations that leave listeners to components keep it (`World.Managing.perform`).
* `subscribed`: the invariant as a contract (`subscribed_sound`).
-/

namespace LayeredViews

variable {κ : Client} {α : Type} {host : HostId → Host}

/-- The component has the metadata of its type, and subscriptions for its events if it is bound. -/
structure Component.Consistent (c : Component) : Prop where
  built : c.type.build.result = .ok c.metadata
  unbound : c.subscriptions.bound = false → c.subscriptions.entries = []
  bound : c.subscriptions.bound = true →
    c.subscriptions.entries.map Subscription.event = c.metadata.events.map EventBinding.event
  once : (c.subscriptions.entries.map fun s => s.listener.id).Nodup

/-- The subscriptions of the components are in order. -/
structure Subscribed (host : HostId → Host) (w : World κ) : Prop where
  ordered : w.components.Sorted
  /-- While code runs, nothing is in use but the nodes of components that are rendered. -/
  lent : ∀ l ∈ w.loans, ∃ id, l = (.node id, .read)
  fresh : ∀ id c, w.components.get? id = some c → id < w.nextComponent
  consistent : ∀ id c, w.components.get? id = some c → c.Consistent
  held : ∀ id c, w.components.get? id = some c → ∀ s ∈ c.subscriptions.entries,
    ∃ t, (host c.host).target = some t ∧ (w.target t).Holds s
  numbered : ∀ t, ∀ r ∈ (w.target t).listeners, r.listener.id < w.nextListener
  apart : ∀ id c id' c', w.components.get? id = some c → w.components.get? id' = some c' →
    id ≠ id' → ∀ s ∈ c.subscriptions.entries, ∀ s' ∈ c'.subscriptions.entries,
      s.listener.id ≠ s'.listener.id

/-! ## Steps that leave listeners alone -/

theorem Subscribed.still {w w' : World κ} (hw : Subscribed host w) (h : w.Still w') :
    Subscribed host w' where
  ordered := h.ordered hw.ordered
  lent l hl := hw.lent l (h.loans ▸ hl)
  fresh id c' hc' := by
    obtain ⟨c, node, hc, -⟩ := h.components id c' hc'
    exact Nat.lt_of_lt_of_le (hw.fresh id c hc) h.nextComponent
  consistent id c' hc' := by
    obtain ⟨c, node, hc, rfl⟩ := h.components id c' hc'
    obtain ⟨hbuilt, hunbound, hbound, honce⟩ := hw.consistent id c hc
    exact ⟨hbuilt, hunbound, hbound, honce⟩
  held id c' hc' s hs := by
    obtain ⟨c, node, hc, rfl⟩ := h.components id c' hc'
    obtain ⟨t, ht, hheld⟩ := hw.held id c hc s hs
    exact ⟨t, ht, hheld.of_listeners (h.listeners t)⟩
  numbered t r hr := Nat.lt_of_lt_of_le (hw.numbered t r (h.listeners t ▸ hr)) h.nextListener
  apart id₁ c₁ id₂ c₂ h₁ h₂ hne := by
    obtain ⟨c₁', node₁, h₁', rfl⟩ := h.components id₁ c₁ h₁
    obtain ⟨c₂', node₂, h₂', rfl⟩ := h.components id₂ c₂ h₂
    exact hw.apart id₁ c₁' id₂ c₂' h₁' h₂' hne

/-- The contract between the operations and the code that they call. -/
def subscribed (host : HostId → Host) : Contract κ :=
  .leaving (Subscribed host) World.loans

/-- While nothing but nodes is in use, everything else can be used. -/
theorem World.not_conflicts {w : World κ} (hl : ∀ l ∈ w.loans, ∃ id, l = (.node id, .read))
    {cell : Cell} {access : Access} (hcell : ∀ id, cell ≠ .node id) :
    w.conflicts cell access = false := by
  unfold conflicts
  rw [List.any_eq_false]
  intro l hmem
  obtain ⟨id, rfl⟩ := hl l hmem
  have hne : ¬Cell.node id = cell := fun he => hcell id he.symm
  simp [hne]

theorem Subscribed.not_conflicts {w : World κ} (hw : Subscribed host w) {cell : Cell}
    {access : Access} (hcell : ∀ id, cell ≠ .node id) : w.conflicts cell access = false :=
  World.not_conflicts hw.lent hcell

/-- The listeners of a target can be changed while the subscriptions of a component are in use. -/
theorem World.listeners_free {w : World κ} (hl : ∀ l ∈ w.loans, ∃ id, l = (.node id, .read))
    (id : ComponentId) (t : TargetId) :
    World.conflicts { w with loans := (.subscriptions id, .write) :: w.loans } (.listeners t)
      .write = false := by
  have hrest : w.conflicts (.listeners t) .write = false := World.not_conflicts hl fun _ => nofun
  unfold World.conflicts at hrest ⊢
  rw [List.any_cons, hrest]
  rfl

/-! ## Binding and unbinding -/

/-- The world in which a component `c` has other subscriptions. -/
def World.setSubscriptions (w : World κ) (id : ComponentId) (c : Component) (s : Subscriptions) :
    World κ :=
  w.setComponent id { c with subscriptions := s }

/-- What is run with the subscriptions of a component leaves its component and what is in use. -/
theorem Act.wp_withSubscriptions {E : Option Halt → Prop} {Q : α → World κ → Prop} {w : World κ}
    {id : ComponentId} {c : Component} (hfree : w.conflicts (.subscriptions id) .write = false)
    (hc : w.components.get? id = some c) {body : Subscriptions → Act κ (α × Subscriptions)}
    (hbody : (body c.subscriptions).Wp E (fun r w' =>
        w'.components = w.components ∧
          w'.loans = (.subscriptions id, .write) :: w.loans ∧
          Q r.1 ({ w' with loans := w.loans }.setSubscriptions id c r.2))
      { w with loans := (.subscriptions id, .write) :: w.loans }) :
    (Act.withSubscriptions id c body).Wp E Q w := by
  have hcur : World.current { w with loans := (.subscriptions id, .write) :: w.loans } id c = c :=
    World.current_of_get? hc c
  unfold Act.withSubscriptions
  rw [Act.wp_lend, if_neg (by simp [hfree]), Act.wp_bind, Act.wp_get, hcur, Act.wp_bind]
  refine hbody.mono fun ⟨a, s⟩ w' ⟨hcomp, hloans, hQ⟩ => ?_
  rw [Act.wp_bind, Act.updateComponent, Act.wp_modify, Act.wp_pure, hcomp, hc]
  have htail : w'.loans.tail = w.loans := by rw [hloans]; rfl
  have heq : ({ w'.setComponent id { c with subscriptions := s } with
      loans := w'.loans.tail } : World κ) =
      { w' with loans := w.loans }.setSubscriptions id c s := by
    rw [htail]
    rfl
  exact heq ▸ hQ

theorem Subscribed.setSubscriptions_self {w : World κ} (hw : Subscribed host w)
    {id : ComponentId} {c : Component} (hc : w.components.get? id = some c) :
    w.setSubscriptions id c c.subscriptions = w := by
  unfold World.setSubscriptions World.setComponent
  rw [Dict.insert_self hw.ordered hc]

/-- The handlers of declared events were checked when the metadata was built. -/
theorem Metadata.hasHandler_of_build {label : String} {chain : List Definer}
    {hasHandler : String → Bool} {m : Metadata}
    (h : (Metadata.build label chain hasHandler).result = .ok m) :
    ∀ b ∈ m.events, hasHandler b.handler = true := by
  have hcheck : ∀ d, Metadata.check label hasHandler d = .ok m →
      ∀ b ∈ m.events, hasHandler b.handler = true := by
    intro d hd b hb
    unfold Metadata.check at hd
    cases hn : d.name with
    | none => simp [hn] at hd
    | some name =>
      simp only [hn] at hd
      split at hd
      · cases hd
      · cases hf : d.events.find? fun b => !hasHandler b.handler with
        | some b => simp [hf] at hd
        | none =>
          simp only [hf, Except.ok.injEq] at hd
          subst hd
          simpa using List.find?_eq_none.1 hf b hb
  cases chain with
  | nil => cases h
  | cons definer rest =>
    cases hrun : (Vocabulary.component.run (definer :: rest)).result with
    | error e => simp [Metadata.build, hrun, Except.bind] at h
    | ok d =>
      refine hcheck d ?_
      simpa [Metadata.build, hrun, Except.bind] using h

/-- What initializing a component does. -/
inductive Initialized (host : HostId → Host) (id : ComponentId) (c : Component) (w : World κ) :
    Except Error Unit → World κ → Prop
  /-- Without global events, nothing happens. -/
  | absent (h : w.presentTarget (host c.host) = none) :
    Initialized host id c w (.ok ()) { w with record := .initialized id :: w.record }
  /-- A component that is bound is refused. -/
  | refused (t : TargetId) (h : w.presentTarget (host c.host) = some t)
      (hb : c.subscriptions.bound = true) :
    Initialized host id c w (.error (.alreadyBound c.metadata.name)) w
  /-- Otherwise a listener is registered for each declared event. -/
  | bound (t : TargetId) (h : w.presentTarget (host c.host) = some t)
      (hb : c.subscriptions.bound = false) (added : List Subscription) (w₁ : World κ)
      (hr : w.Registered id t c.metadata.events added w₁)
      (hcalls : added.map Subscription.call = c.calls id) :
    Initialized host id c w (.ok ())
      { w₁.setSubscriptions id c ⟨true, added⟩ with record := .initialized id :: w₁.record }

/-- What preparing a component for removal does. -/
inductive Unbound (host : HostId → Host) (id : ComponentId) (c : Component) (w : World κ) :
    Nat → World κ → Prop
  /-- Without global events, nothing happens. -/
  | absent (h : w.presentTarget (host c.host) = none) :
    Unbound host id c w 0 { w with record := .unbound id :: w.record }
  /-- Otherwise the listeners that it retains are removed. -/
  | removed (t : TargetId) (h : w.presentTarget (host c.host) = some t) (w₁ : World κ)
      (hr : w.Removed t c.subscriptions.entries w₁) :
    Unbound host id c w c.subscriptions.entries.length
      { w₁.setSubscriptions id c ∅ with record := .unbound id :: w₁.record }

theorem World.Registered.unlend {w w' : World κ} {id : ComponentId} {t : TargetId}
    {events : List EventBinding} {added : List Subscription} {loans : List (Cell × Access)}
    (h : World.Registered id t events { w with loans } added w') :
    w.Registered id t events added { w' with loans := w.loans } where
  rest := by rw [h.rest]
  target := h.target
  others := h.others
  events := h.events
  ids := h.ids
  callbacks := h.callbacks
  next := h.next
  record := h.record

theorem World.Removed.unlend {w w' : World κ} {t : TargetId} {entries : List Subscription}
    {loans : List (Cell × Access)} (h : World.Removed t entries { w with loans } w') :
    w.Removed t entries { w' with loans := w.loans } where
  rest := by rw [h.rest]
  target := h.target
  others := h.others
  record := h.record

namespace Setting

variable {user : Callbacks (Act κ)} {w : World κ} {id : ComponentId} {c : Component}

/-- Initializing a component that has the metadata of its type, while nothing is in use but
nodes. -/
theorem wp_init_of {E : Option Halt → Prop} (hl : ∀ l ∈ w.loans, ∃ i, l = (.node i, .read))
    (hc : w.components.get? id = some c) (hconsistent : c.Consistent)
    (hself : w.setSubscriptions id c c.subscriptions = w) :
    (init ⟨host, user⟩ id c).Wp E (fun r w' => Initialized host id c w r w') w := by
  obtain ⟨hbuilt, hunbound, -, -⟩ := hconsistent
  -- while the subscriptions are in use, the targets are as they were
  let lent : World κ := { w with loans := (.subscriptions id, .write) :: w.loans }
  have hpresent : lent.presentTarget (host c.host) = w.presentTarget (host c.host) := rfl
  have hback : ({ lent with loans := w.loans } : World κ).setSubscriptions id c c.subscriptions =
      w := hself
  unfold init
  rw [Act.wp_bind]
  refine Act.wp_withSubscriptions (World.not_conflicts hl fun _ => nofun) hc ?_
  unfold bindAll
  rw [Act.wp_bind, Act.wp_presentTarget, hpresent]
  cases hp : w.presentTarget (host c.host) with
  | none =>
    refine ⟨rfl, rfl, ?_⟩
    rw [hback]
    exact .absent hp
  | some t =>
    dsimp only
    rw [Act.wp_ite]
    split
    · next hb =>
      refine ⟨rfl, rfl, ?_⟩
      rw [hback]
      exact .refused t hp hb
    · next hb =>
      have hb : c.subscriptions.bound = false := by simpa using hb
      rw [Act.wp_bind]
      refine ((Act.wp_subscribe (World.listeners_free hl id t) id c.type
        (Metadata.hasHandler_of_build hbuilt)).and_any (Act.wp_subscribe_calls t id c.type _ _)).mono
        fun added w₁ ⟨hr, hcalls⟩ => ?_
      refine ⟨?_, ?_, ?_⟩
      · rw [hr.rest]
      · rw [hr.rest]
      · rw [hunbound hb]
        exact .bound t hp hb added _ hr.unlend hcalls

variable (hw : Subscribed host w) (hc : w.components.get? id = some c)
include hw hc

theorem wp_init {E : Option Halt → Prop} :
    (init ⟨host, user⟩ id c).Wp E (fun r w' => Initialized host id c w r w') w :=
  wp_init_of hw.lent hc (hw.consistent id c hc) (hw.setSubscriptions_self hc)

theorem wp_beforeRemove {E : Option Halt → Prop} :
    (beforeRemove ⟨host, user⟩ id c).Wp E (fun r w' => Unbound host id c w r w') w := by
  let lent : World κ := { w with loans := (.subscriptions id, .write) :: w.loans }
  have hpresent : lent.presentTarget (host c.host) = w.presentTarget (host c.host) := rfl
  have hself : ({ lent with loans := w.loans } : World κ).setSubscriptions id c c.subscriptions =
      w := hw.setSubscriptions_self hc
  unfold beforeRemove
  rw [Act.wp_bind]
  refine Act.wp_withSubscriptions (hw.not_conflicts fun _ => nofun) hc ?_
  unfold unbindAll
  rw [Act.wp_bind, Act.wp_presentTarget, hpresent]
  cases hp : w.presentTarget (host c.host) with
  | none =>
    refine ⟨rfl, rfl, ?_⟩
    rw [hself]
    exact .absent hp
  | some t =>
    dsimp only
    rw [Act.wp_bind]
    refine (Act.wp_removeListeners (World.listeners_free hw.lent id t) _).mono fun _ w₁ hr => ?_
    refine ⟨?_, ?_, .removed t hp _ hr.unlend⟩
    · rw [hr.rest]
    · rw [hr.rest]

end Setting

/-! ## The invariant after binding and unbinding -/

theorem target_of_present {w : World κ} {h : Host} {t : TargetId}
    (hp : w.presentTarget h = some t) : h.target = some t :=
  (Option.eq_some_of_filter_eq_some hp)

theorem get?_setSubscriptions {w : World κ} {id id' : ComponentId} {c c' : Component}
    {s : Subscriptions} (h : (w.setSubscriptions id c s).components.get? id' = some c') :
    (id' = id ∧ c' = { c with subscriptions := s }) ∨
      (id' ≠ id ∧ w.components.get? id' = some c') := by
  unfold World.setSubscriptions World.setComponent at h
  rw [Dict.get?_insert] at h
  split at h
  · next he => exact .inl ⟨he, (Option.some.inj h).symm⟩
  · next hne => exact .inr ⟨hne, h⟩

section

variable {w w₁ : World κ} {id : ComponentId} {c : Component} {t : TargetId}
  (hw : Subscribed host w) (hc : w.components.get? id = some c)
include hw

theorem Subscribed.numbered_entries {id' : ComponentId} {c' : Component}
    (hc' : w.components.get? id' = some c') {s : Subscription}
    (hs : s ∈ c'.subscriptions.entries) : s.listener.id < w.nextListener := by
  obtain ⟨t, -, hheld⟩ := hw.held id' c' hc' s hs
  exact hw.numbered t s hheld.mem

include hc

/-- Binding gives a component listeners of its own. -/
theorem Subscribed.registered {added : List Subscription} (ht : (host c.host).target = some t)
    (hr : w.Registered id t c.metadata.events added w₁) :
    Subscribed host (w₁.setSubscriptions id c ⟨true, added⟩) := by
  have hlive : ∀ {id' c'},
      (w₁.setSubscriptions id c ⟨true, added⟩).components.get? id' = some c' →
      (id' = id ∧ c' = { c with subscriptions := ⟨true, added⟩ }) ∨
        (id' ≠ id ∧ w.components.get? id' = some c') := fun h =>
    hr.components ▸ get?_setSubscriptions h
  have hold : ∀ {id' c'}, w.components.get? id' = some c' → ∀ s ∈ c'.subscriptions.entries,
      ∀ r ∈ added, r.listener.id ≠ s.listener.id := fun hc' s hs r hr' => by
    have hlt := hw.numbered_entries hc' hs
    have hge := (hr.mem_ids hr').1
    omega
  refine ⟨?_, fun l hl => hw.lent l (hr.loans ▸ hl), fun id' c' h => ?_, fun id' c' h => ?_,
    fun id' c' h s hs => ?_, fun t' r hr' => ?_,
    fun id' c' id'' c'' h' h'' hne s' hs' s'' hs'' => ?_⟩
  · exact Dict.Sorted.insert (hr.components ▸ hw.ordered) id _
  · change id' < w₁.nextComponent
    rw [hr.nextComponent]
    rcases hlive h with ⟨rfl, -⟩ | ⟨-, h⟩
    · exact hw.fresh _ c hc
    · exact hw.fresh id' c' h
  · rcases hlive h with ⟨-, rfl⟩ | ⟨-, h⟩
    · exact ⟨(hw.consistent id c hc).built, nofun, fun _ => hr.events, hr.nodup⟩
    · exact hw.consistent id' c' h
  · rcases hlive h with ⟨-, rfl⟩ | ⟨-, h⟩
    · refine ⟨t, ht, ?_⟩
      have hholds := EventTarget.Holds.of_added (t := w.target t) hr.nodup hs fun r hr' => by
        have hlt := hw.numbered t r hr'
        have hge := (hr.mem_ids hs).1
        omega
      exact hholds.of_listeners (congrArg EventTarget.listeners hr.target)
    · obtain ⟨t', ht', hheld⟩ := hw.held id' c' h s hs
      refine ⟨t', ht', ?_⟩
      change (w₁.target t').Holds s
      by_cases he : t' = t
      · rw [he] at hheld ⊢
        exact (hheld.append (hold h s hs)).of_listeners (congrArg EventTarget.listeners hr.target)
      · rw [hr.others t' he]
        exact hheld
  · change r.listener.id < w₁.nextListener
    rcases hr.mem_listeners hr' with hr' | ⟨-, hr'⟩
    · have hnext := hr.next
      have hlt := hw.numbered t' r hr'
      omega
    · exact (hr.mem_ids hr').2
  · rcases hlive h' with ⟨rfl, rfl⟩ | ⟨-, hlive'⟩
    · rcases hlive h'' with ⟨rfl, -⟩ | ⟨-, hlive''⟩
      · exact absurd rfl hne
      · exact hold hlive'' s'' hs'' s' hs'
    · rcases hlive h'' with ⟨rfl, rfl⟩ | ⟨-, hlive''⟩
      · exact fun he => hold hlive' s' hs' s'' hs'' he.symm
      · exact hw.apart id' c' id'' c'' hlive' hlive'' hne s' hs' s'' hs''

/-- What unbinding leaves on the target. -/
theorem Subscribed.listeners_of_removed (ht : (host c.host).target = some t)
    (hr : w.Removed t c.subscriptions.entries w₁) :
    w₁.target t = { w.target t with listeners := (w.target t).listeners.filter fun r =>
      !(c.subscriptions.entries.map fun s => s.listener.id).contains r.listener.id } := by
  rw [hr.target]
  refine EventTarget.removeAll_eq_filter (hw.consistent id c hc).once fun s hs => ?_
  obtain ⟨t', ht', hheld⟩ := hw.held id c hc s hs
  rw [ht, Option.some.injEq] at ht'
  exact ht' ▸ hheld

/-- Unbinding takes out the listeners of a component and leaves those of the others. -/
theorem Subscribed.removed (ht : (host c.host).target = some t)
    (hr : w.Removed t c.subscriptions.entries w₁) :
    Subscribed host (w₁.setSubscriptions id c ∅) := by
  have hcomponents : w₁.components = w.components := by rw [hr.rest]
  have hlive : ∀ {id' c'}, (w₁.setSubscriptions id c ∅).components.get? id' = some c' →
      (id' = id ∧ c' = { c with subscriptions := ∅ }) ∨
        (id' ≠ id ∧ w.components.get? id' = some c') := fun h =>
    hcomponents ▸ get?_setSubscriptions h
  have hleft := hw.listeners_of_removed hc ht hr
  have hloans : w₁.loans = w.loans := by rw [hr.rest]
  refine ⟨?_, fun l hl => hw.lent l (hloans ▸ hl), fun id' c' h => ?_, fun id' c' h => ?_,
    fun id' c' h s hs => ?_, fun t' r hr' => ?_,
    fun id' c' id'' c'' h' h'' hne s' hs' s'' hs'' => ?_⟩
  · exact Dict.Sorted.insert (hcomponents ▸ hw.ordered) id _
  · change id' < w₁.nextComponent
    rw [hr.rest]
    rcases hlive h with ⟨rfl, -⟩ | ⟨-, h⟩
    · exact hw.fresh _ c hc
    · exact hw.fresh id' c' h
  · rcases hlive h with ⟨-, rfl⟩ | ⟨-, h⟩
    · exact ⟨(hw.consistent id c hc).built, fun _ => rfl, nofun, List.nodup_nil⟩
    · exact hw.consistent id' c' h
  · rcases hlive h with ⟨-, rfl⟩ | ⟨hne, h⟩
    · cases hs
    · obtain ⟨t', ht', hheld⟩ := hw.held id' c' h s hs
      refine ⟨t', ht', ?_⟩
      change (w₁.target t').Holds s
      by_cases he : t' = t
      · rw [he] at hheld ⊢
        rw [hleft]
        refine hheld.filter ?_
        have hnot : s.listener.id ∉ c.subscriptions.entries.map fun s => s.listener.id := by
          intro hm
          obtain ⟨s', hs', hid⟩ := List.mem_map.1 hm
          exact hw.apart id c id' c' hc h (Ne.symm hne) s' hs' s hs hid
        simpa using hnot
      · rw [hr.others t' he]
        exact hheld
  · change r.listener.id < w₁.nextListener
    have hr' : r ∈ (w₁.target t').listeners := hr'
    rw [hr.rest]
    by_cases he : t' = t
    · rw [he, hleft] at hr'
      exact hw.numbered t r (List.mem_filter.1 hr').1
    · rw [hr.others t' he] at hr'
      exact hw.numbered t' r hr'
  · rcases hlive h' with ⟨rfl, rfl⟩ | ⟨-, hlive'⟩
    · cases hs'
    · rcases hlive h'' with ⟨rfl, rfl⟩ | ⟨-, hlive''⟩
      · cases hs''
      · exact hw.apart id' c' id'' c'' hlive' hlive'' hne s' hs' s'' hs''

theorem Initialized.subscribed {r : Except Error Unit} {w' : World κ}
    (h : Initialized host id c w r w') : Subscribed host w' ∧ w'.loans = w.loans := by
  cases h with
  | absent hp => exact ⟨hw.still (.of_eq rfl rfl rfl rfl (Nat.le_refl _)), rfl⟩
  | refused t hp hb => exact ⟨hw, rfl⟩
  | bound t hp hb added w₁ hr =>
    exact ⟨(hw.registered hc (target_of_present hp) hr).still
      (.of_eq rfl rfl rfl rfl (Nat.le_refl _)), hr.loans⟩

theorem Unbound.subscribed {n : Nat} {w' : World κ} (h : Unbound host id c w n w') :
    Subscribed host w' ∧ w'.loans = w.loans := by
  cases h with
  | absent hp => exact ⟨hw.still (.of_eq rfl rfl rfl rfl (Nat.le_refl _)), rfl⟩
  | removed t hp w₁ hr =>
    refine ⟨(hw.removed hc (target_of_present hp) hr).still
      (.of_eq rfl rfl rfl rfl (Nat.le_refl _)), ?_⟩
    change w₁.loans = w.loans
    rw [hr.rest]

end

/-! ## Operations -/

theorem Subscribed.added {w : World κ} (hw : Subscribed host w) {c : Component}
    (hb : c.type.build.result = .ok c.metadata) (hs : c.subscriptions = ∅) :
    Subscribed host
      { w.setComponent w.nextComponent c with nextComponent := w.nextComponent + 1 } := by
  have hlive : ∀ {id' c'}, (w.setComponent w.nextComponent c).components.get? id' = some c' →
      (id' = w.nextComponent ∧ c' = c) ∨ w.components.get? id' = some c' := by
    intro id' c' h
    unfold World.setComponent at h
    rw [Dict.get?_insert] at h
    split at h
    · next he => exact .inl ⟨he, (Option.some.inj h).symm⟩
    · exact .inr h
  have hnone : c.subscriptions.entries = [] := by
    rw [hs]
    rfl
  refine ⟨hw.ordered.insert _ _, hw.lent, fun id' c' h => ?_, fun id' c' h => ?_,
    fun id' c' h s hs' => ?_, hw.numbered, fun id' c' id'' c'' h' h'' hne s' hs' s'' hs'' => ?_⟩
  · change id' < w.nextComponent + 1
    rcases hlive h with ⟨rfl, -⟩ | h
    · exact Nat.lt_succ_self _
    · exact Nat.lt_succ_of_lt (hw.fresh id' c' h)
  · rcases hlive h with ⟨-, rfl⟩ | h
    · refine ⟨hb, fun _ => hnone, fun hbound => ?_, ?_⟩
      · rw [hs] at hbound
        cases hbound
      · rw [hnone]
        exact List.nodup_nil
    · exact hw.consistent id' c' h
  · rcases hlive h with ⟨-, rfl⟩ | h
    · rw [hnone] at hs'
      cases hs'
    · exact hw.held id' c' h s hs'
  · rcases hlive h' with ⟨rfl, rfl⟩ | hlive'
    · rw [hnone] at hs'
      cases hs'
    · rcases hlive h'' with ⟨rfl, rfl⟩ | hlive''
      · rw [hnone] at hs''
        cases hs''
      · exact hw.apart id' c' id'' c'' hlive' hlive'' hne s' hs' s'' hs''

/-- The operation leaves it to components to register and remove listeners. -/
def Op.Managed : Op → Prop
  | .add _ _ | .removeListener _ _ | .bindTo _ _ _ | .unbindFrom _ _ _ => False
  | _ => True

theorem Op.Managed.not_registers {op : Op} (h : op.Managed) : ¬op.Registers := fun hg => by
  cases op with
  | add | removeListener | bindTo | unbindFrom => exact h
  | _ => exact hg

namespace World

/-- The invariant is about listeners and subscriptions, and components keep it: where they come to
be, are bound and are unbound. -/
structure Managing (host : HostId → Host) (inv : World κ → Prop) : Prop extends Hearing inv where
  subscribed : ∀ {w}, inv w → Subscribed host w
  added : ∀ {w c}, inv w → c.type.build.result = .ok c.metadata → c.subscriptions = ∅ →
    inv { w.setComponent w.nextComponent c with nextComponent := w.nextComponent + 1 }
  initialized : ∀ {w w' id c r}, inv w → w.components.get? id = some c →
    Initialized host id c w r w' → inv w'
  unbound : ∀ {w w' id c n}, inv w → w.components.get? id = some c →
    Unbound host id c w n w' → inv w'
  switched : ∀ {w}, inv w → ∀ t on, inv (w.setTarget t ((w.target t).switch on))

namespace Managing

variable {inv : World κ → Prop} (hM : Managing host inv) {user : Callbacks (Act κ)}
include hM

theorem init {w : World κ} {id : ComponentId} {c : Component} (hw : inv w)
    (hc : w.components.get? id = some c) :
    (Contract.leaving inv World.loans).KeptFrom w (Setting.init ⟨host, user⟩ id c) :=
  (Setting.wp_init (hM.subscribed hw) hc).mono fun _ _ h =>
    ⟨hM.initialized hw hc h, (h.subscribed (hM.subscribed hw) hc).2⟩

theorem beforeRemove {w : World κ} {id : ComponentId} {c : Component} (hw : inv w)
    (hc : w.components.get? id = some c) :
    (Contract.leaving inv World.loans).KeptFrom w (Setting.beforeRemove ⟨host, user⟩ id c) :=
  (Setting.wp_beforeRemove (hM.subscribed hw) hc).mono fun _ _ h =>
    ⟨hM.unbound hw hc h, (h.subscribed (hM.subscribed hw) hc).2⟩

/-- The definers of a type were run. -/
theorem ran {w : World κ} (hw : inv w) (ran : List String) :
    inv { w with record := (ran.map .defined).reverse ++ w.record } :=
  hM.spared hw (.of_record _ fun o ho => by
    obtain ⟨_, -, rfl⟩ := List.mem_map.1 (List.mem_reverse.1 ho)
    exact id)

theorem create (h : HostId) (type : ComponentType) (node : Node) (as : Handle) :
    (Contract.leaving inv World.loans).Kept (Act.create h type node as) := by
  intro w hw
  unfold Act.create
  rw [Act.wp_bind, Act.wp_buildType]
  have hran := hM.ran hw type.build.ran
  cases hb : type.build.result with
  | error e => exact ⟨hran, rfl⟩
  | ok metadata =>
    dsimp only
    rw [Act.wp_bind, Act.wp_freshComponent]
    have hadded := hM.added (c := { type, metadata, host := h, node }) hran hb rfl
    exact Contract.Kept.after ((hM.handling.bindHandle as _).bind fun _ => .pure _) ⟨hadded, rfl⟩

theorem mount (h : HostId) (type : ComponentType) (node : Node) (as : Handle) :
    (Contract.leaving inv World.loans).Kept (Setting.mount ⟨host, user⟩ h type node as) := by
  intro w hw
  unfold Setting.mount
  rw [Act.wp_bind, Act.wp_buildType]
  have hran := hM.ran hw type.build.ran
  cases hb : type.build.result with
  | error e => exact ⟨hran, rfl⟩
  | ok metadata =>
    let c : Component := { type, metadata, host := h, node }
    dsimp only
    rw [Act.wp_bind, Act.wp_freshComponent]
    have hadded := hM.added (c := c) hran hb rfl
    refine hM.handling.pinned_from hadded fun hpinned => ?_
    refine (hM.init hpinned (Dict.get?_insert_self _ _ _)).bind fun bound w'' hinit => ?_
    refine Contract.Kept.after ?_ hinit
    cases bound with
    | error e => exact .pure _
    | ok _ =>
      exact Contract.Kept.bind (hM.attending.routine trivial) fun _ =>
        (hM.handling.bindHandle as _).bind fun _ => .pure _

theorem steady : (Contract.leaving inv World.loans).Steady host where
  toClearing := hM.clearing
  freshListener _ := hM.of_spared fun _ => .of_eq rfl rfl rfl rfl (Nat.le_succ _) rfl
  bind id := hM.handling.withComponent_from id fun _ _ hw hc _ => hM.init hw hc
  unbind id := hM.handling.withComponent_from id fun _ _ hw hc _ => hM.beforeRemove hw hc
  placed hw := ⟨hM.spared hw (.of_eq rfl rfl rfl rfl (Nat.le_refl _) rfl), rfl⟩
  switched hw t on := ⟨hM.switched hw t on, rfl⟩
  create := hM.create
  mount := hM.mount
  unmount id := by
    refine hM.handling.withComponent_from id fun c w hw hc _ => ?_
    refine (hM.beforeRemove hw hc).bind fun _ w' hw' => ?_
    exact Contract.Kept.after ((hM.clearing.remove id c).bind fun _ =>
      hM.attending.routine (o := .unmounted id) trivial) hw'
  bindHandle := hM.handling.bindHandle
  release := hM.handling.release

theorem toOpen : (Contract.leaving inv World.loans).Open where
  exhausted := Option.some_ne_none _
  memory hw _ := ⟨hM.spared hw (.of_eq rfl rfl rfl rfl (Nat.le_refl _) rfl), rfl⟩
  note hw n := ⟨hM.spared hw (.of_record [.noted n] fun _ h => List.mem_singleton.1 h ▸ id), rfl⟩

/-- An operation that leaves listeners to components. -/
theorem perform (hu : (Contract.leaving inv World.loans).KeptBy user) {op : Op}
    (hg : ¬op.Registers) :
    (Contract.leaving inv World.loans).Kept (Setting.perform ⟨host, user⟩ op) := by
  by_cases hr : op.Resolves
  · exact (hM.filing.resolving.answering hM.attending).perform hu hr
  · cases op with
    | update id node =>
      exact hM.attending.withComponent id fun c =>
        hM.clearing.update id c node (hM.swapNode id c node)
    | _ => exact hM.steady.perform hu hr hg fun _ _ => nofun

theorem sound : (Contract.leaving inv World.loans).Sound host Op.Managed where
  toOpen := hM.toOpen
  perform _ hu _ hop := hM.perform hu hop.not_registers

end Managing

end World

theorem subscribed_managing (host : HostId → Host) :
    World.Managing host (Subscribed (κ := κ) host) where
  spared hw h := hw.still h.toStill
  lent hw id :=
    { hw with
      lent := fun l hl => (List.mem_cons.1 hl).elim (fun he => ⟨id, he⟩) (hw.lent l) }
  back hw hw' := { hw' with lent := hw.lent }
  subscribed hw := hw
  added hw := hw.added
  initialized hw hc h := (h.subscribed hw hc).1
  unbound hw hc h := (h.subscribed hw hc).1
  switched {w} hw t on := by
    refine hw.still ⟨id, fun _ c h => ⟨c, c.node, h, rfl⟩, fun t' => ?_, rfl, Nat.le_refl _,
      Nat.le_refl _⟩
    rw [World.target_setTarget]
    split
    · next he => rw [EventTarget.listeners_switch, he]
    · rfl

/-- The operations that leave listeners to components keep the contract. -/
theorem subscribed_sound (host : HostId → Host) :
    (subscribed host).Sound (κ := κ) host Op.Managed := (subscribed_managing host).sound

/-! ## Runs -/

/-- Where an application starts nobody listens. -/
theorem World.listeners_start {targets : Dict TargetId EventTarget}
    (hempty : ∀ t target, targets.get? t = some target → target.listeners = [])
    {memory : κ.Memory} (t : TargetId) :
    ((World.start targets memory).target t).listeners = [] := by
  change ((targets.get? t).getD {}).listeners = []
  cases ht : targets.get? t with
  | none => rfl
  | some target => exact hempty t target ht

theorem subscribed_start {targets : Dict TargetId EventTarget}
    (hempty : ∀ t target, targets.get? t = some target → target.listeners = [])
    (memory : κ.Memory) : Subscribed host (World.start targets memory) where
  ordered := Dict.Sorted.empty
  lent _ h := by cases h
  fresh _ _ h := by cases h
  consistent _ _ h := by cases h
  held _ _ h := by cases h
  numbered t r hr := by
    rw [World.listeners_start hempty] at hr
    cases hr
  apart _ _ _ _ h := by cases h

/-- **Subscriptions in every run.** However components are mounted, bound, unbound, moved, removed
and dropped, and global events dispatched, given and taken, from the outside or by code that is
called meanwhile: a component that exists and is not bound retains nothing; one that is bound
retains a subscription for each declared event, in order; a retained listener is registered exactly
once, under its own event; and no listener is retained twice.

Initializing a component fails exactly if there are global events and it is bound, and then changes
nothing. Without global events neither initializing nor unbinding changes anything (but the
record). With them, unbinding removes exactly the listeners that the component retains. -/
theorem subscriptions_of_reaches (app : Application κ) (prog : Program κ α)
    {targets : Dict TargetId EventTarget} (memory : κ.Memory)
    (hempty : ∀ t target, targets.get? t = some target → target.listeners = [])
    (hcode : app.code.Uses Op.Managed) (hprog : prog.Uses Op.Managed) {v : World κ}
    (hv : app.Reaches prog (World.start targets memory) v) :
    (∀ id c, v.components.get? id = some c →
      (c.subscriptions.bound = false → c.subscriptions.entries = []) ∧
      (c.subscriptions.bound = true →
        c.subscriptions.entries.map Subscription.event =
          c.metadata.events.map EventBinding.event) ∧
      (∀ s ∈ c.subscriptions.entries, ∃ t, (app.host c.host).target = some t ∧
        ((v.target t).listeners.filter fun r => r.listener.id == s.listener.id) = [s]) ∧
      (c.subscriptions.entries.map fun s => s.listener.id).Nodup ∧
      ∀ id' c', v.components.get? id' = some c' → id ≠ id' →
        ∀ s ∈ c.subscriptions.entries, ∀ s' ∈ c'.subscriptions.entries,
          s.listener.id ≠ s'.listener.id) ∧
    ∀ (user : Callbacks (Act κ)) id c, v.components.get? id = some c →
      (∃ r w, (Setting.init ⟨app.host, user⟩ id c).run v = .ok (r, w) ∧
        (∀ e, r = .error e ↔ e = .alreadyBound c.metadata.name ∧
          (v.presentTarget (app.host c.host)).isSome = true ∧ c.subscriptions.bound = true) ∧
        (∀ e, r = .error e → w = v) ∧
        (v.presentTarget (app.host c.host) = none →
          w = { v with record := .initialized id :: v.record })) ∧
      ∃ n w, (Setting.beforeRemove ⟨app.host, user⟩ id c).run v = .ok (n, w) ∧
        (v.presentTarget (app.host c.host) = none →
          w = { v with record := .unbound id :: v.record }) ∧
        ∀ t, v.presentTarget (app.host c.host) = some t →
          n = c.subscriptions.entries.length ∧
          w.target t = { v.target t with listeners := (v.target t).listeners.filter fun r =>
            !(c.subscriptions.entries.map fun s => s.listener.id).contains r.listener.id } ∧
          (∀ t', t' ≠ t → w.target t' = v.target t') ∧
          w = { v with
            components := v.components.insert id { c with subscriptions := ∅ }
            targets := w.targets
            record := w.record } := by
  have hinv : Subscribed app.host v := Contract.inv_of_reaches (C := subscribed app.host)
    (subscribed_sound app.host) (fun h => h rfl) hcode hprog (subscribed_start hempty memory) hv
  refine ⟨fun id c hc => ?_, fun user id c hc => ⟨?_, ?_⟩⟩
  · obtain ⟨-, hunbound, hbound, honce⟩ := hinv.consistent id c hc
    exact ⟨hunbound, hbound, hinv.held id c hc, honce, fun id' c' => hinv.apart id c id' c' hc⟩
  · have hwp : (Setting.init ⟨app.host, user⟩ id c).Wp (fun _ => False)
        (fun r w => Initialized app.host id c v r w) v := Setting.wp_init hinv hc
    obtain ⟨r, w, hrun, hinit⟩ := hwp.run_eq
    refine ⟨r, w, hrun, ?_⟩
    cases hinit with
    | absent hp => simp [hp]
    | refused t hp hb => simp [hp, hb, eq_comm]
    | bound t hp hb added w₁ hr => simp [hp, hb]
  · have hwp : (Setting.beforeRemove ⟨app.host, user⟩ id c).Wp (fun _ => False)
        (fun n w => Unbound app.host id c v n w) v := Setting.wp_beforeRemove hinv hc
    obtain ⟨n, w, hrun, hunbind⟩ := hwp.run_eq
    refine ⟨n, w, hrun, ?_⟩
    cases hunbind with
    | absent hp => simp [hp]
    | removed t hp w₁ hr =>
      refine ⟨fun h => by simp [hp] at h, fun t' ht' => ?_⟩
      obtain rfl : t = t' := Option.some.inj (hp.symm.trans ht')
      have hleft := hinv.listeners_of_removed hc (target_of_present hp) hr
      refine ⟨rfl, hleft, hr.others, ?_⟩
      unfold World.setSubscriptions World.setComponent
      rw [hr.rest]

namespace Ticker

/-- A component type with one event. -/
def type : ComponentType where
  own :=
    { label := "Ticker"
      definer := some ⟨"Ticker",
        [⟨"name", [.text "ticker"]⟩, ⟨"event", [.text "tick", .text "onTick"]⟩]⟩
      methods := Dict.ofList [("onTick", ⟨0, "onTick"⟩)] }

/-- An application whose hosts share a target, and whose code does nothing. -/
def application : Application ⟨Unit, Empty⟩ where
  host _ := { target := some 0 }
  code :=
    { load := fun _ path => .done (.error (.notFound path))
      make := fun _ => .done ()
      render := fun _ frame => .done (none, frame.pipe)
      handle := fun _ _ _ => .done ()
      listen := fun _ _ => .done () }

def program : Program ⟨Unit, Empty⟩ Unit :=
  .call (.mount 0 type ⟨1, ∅⟩ ⟨0, "ticker"⟩) fun _ => .done ()

/-- How the program ends. -/
def outcome : Except (Option Halt) (Unit × World ⟨Unit, Empty⟩) :=
  (application.exec 1 program).run (World.start ∅ ())

theorem outcome_component :
    (match outcome with
      | .ok (_, v) => (v.components.get? 0).map fun c => (c.subscriptions.bound, c.metadata.events)
      | .error _ => none) = some (true, [⟨"tick", "onTick"⟩]) := by
  decide +kernel

end Ticker

/-- A component with one event retains one subscription once it is mounted. -/
theorem subscriptions_of_ticker :
    ∃ (v : World ⟨Unit, Empty⟩) (c : Component),
      Ticker.application.code.Uses Op.Managed ∧ Ticker.program.Uses Op.Managed ∧
      Ticker.application.Reaches Ticker.program (World.start ∅ ()) v ∧
      v.components.get? 0 = some c ∧ c.subscriptions.bound = true ∧
      c.subscriptions.entries.map Subscription.event = ["tick"] := by
  have hrun := Ticker.outcome_component
  cases ho : Ticker.outcome with
  | error e => simp [ho] at hrun
  | ok p =>
    obtain ⟨_, v⟩ := p
    simp only [ho, Option.map_eq_some_iff] at hrun
    obtain ⟨c, hc, he⟩ := hrun
    obtain ⟨hb, hevents⟩ := Prod.mk.inj he
    have hcode : Ticker.application.code.Uses Op.Managed :=
      ⟨fun _ _ => trivial, fun _ => trivial, fun _ _ => trivial, fun _ _ _ => trivial,
        fun _ _ => trivial⟩
    have hprog : Ticker.program.Uses Op.Managed := ⟨trivial, fun _ => trivial⟩
    have hv : Ticker.application.Reaches Ticker.program (World.start ∅ ()) v :=
      Application.reaches_of_exec ho
    have hsub := (subscriptions_of_reaches Ticker.application Ticker.program ()
      (fun _ _ h => by cases h) hcode hprog hv).1 0 c hc
    refine ⟨v, c, hcode, hprog, hv, hc, hb, ?_⟩
    rw [hsub.2.1 hb, hevents]
    rfl

end LayeredViews
