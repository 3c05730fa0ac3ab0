import LayeredViews.Proofs.Memo
import LayeredViews.Proofs.Tenure

/-!
# Entries and the components that they are for

What is resolved is stored for the node that the component had when it was asked. An operation holds
the component until it is done, so the component still exists then; it is still on that node unless
code that was called back has moved it.

* `Tenanted`: every entry of a host is for a node that some component of the host is on.
* `World.Displaces`: the operation moves a component to another node while the node that it leaves
  is being resolved.
* `tenanted`: the contract of code that leaves every entry to a component. All operations keep it
  that do not displace a component (`tenanted_sparing`), so after a run without such calls every
  entry belongs to a component that a variable holds (`tenanted_of_exec`).
* `Drifter.application`: an application with a view model that moves its component while it is made
  (`entry_left_behind`).
-/

namespace LayeredViews

variable {κ : Client} {α : Type}

/-- Every entry is for a node that a component is on. -/
structure Tenanted (w : World κ) : Prop where
  tidy : w.Tidy
  numbered : w.Numbered
  tenant : ∀ h n, n ∈ (w.cache h).keys → ∃ i, w.location i = some (h, n)
  /-- No more resolutions come to an end than have begun. -/
  begun : ∀ h n a, 0 ≤ underWay h n a w.record

/-- What code may do while something is resolved: a component that an operation holds remains, and
remains on a node that is being resolved. -/
structure World.Attends (w w' : World κ) : Prop where
  pins : w'.pins = w.pins
  underWay : ∀ h n a, underWay h n a w'.record = underWay h n a w.record
  pinned : ∀ i ∈ w.pins, ∀ h n, w.location i = some (h, n) →
    ∃ n', w'.location i = some (h, n') ∧ ((∃ a, 0 < LayeredViews.underWay h n a w.record) → n' = n)

namespace World.Attends

variable {w w' w'' : World κ}

theorem of_location (hp : w'.pins = w.pins)
    (hu : ∀ h n a, LayeredViews.underWay h n a w'.record = LayeredViews.underWay h n a w.record)
    (hl : ∀ i ∈ w.pins, w'.location i = w.location i) : w.Attends w' where
  pins := hp
  underWay := hu
  pinned i hi _ n hloc := ⟨n, (hl i hi).trans hloc, fun _ => rfl⟩

theorem refl (w : World κ) : w.Attends w := .of_location rfl (fun _ _ _ => rfl) fun _ _ => rfl

theorem trans (ha : w.Attends w') (ha' : w'.Attends w'') : w.Attends w'' where
  pins := ha'.pins.trans ha.pins
  underWay h n a := (ha'.underWay h n a).trans (ha.underWay h n a)
  pinned i hi h n hloc := by
    obtain ⟨n', hloc', hn'⟩ := ha.pinned i hi h n hloc
    obtain ⟨n'', hloc'', hn''⟩ := ha'.pinned i (ha.pins ▸ hi) h n' hloc'
    refine ⟨n'', hloc'', fun ⟨a, hpos⟩ => ?_⟩
    obtain rfl := hn' ⟨a, hpos⟩
    exact hn'' ⟨a, ha.underWay h n' a ▸ hpos⟩

end World.Attends

/-- A drop has nothing to do with resolutions under way. -/
theorem World.underWay_discarded (w : World κ) (h : HostId) (selection : Cache.Selection)
    (cause : Cause) (h' : HostId) (n : NodeId) (a : Aspect) :
    LayeredViews.underWay h' n a (w.discarded h selection cause).record =
      LayeredViews.underWay h' n a w.record := by
  refine underWay_plain (fun o ho => ?_) _
  obtain ⟨m, -, rfl⟩ := List.mem_map.1 (List.mem_reverse.1 ho)
  trivial

/-- Every entry is left to a component. -/
def tenanted : Contract κ where
  inv := Tenanted
  step := World.Attends
  stops _ := True
  refl := World.Attends.refl
  trans := World.Attends.trans

section

variable {w w' : World κ}

/-- Entries and components are the same, and nothing is recorded about resolutions. -/
theorem Tenanted.keep (hw : Tenanted w) (hc : w'.caches = w.caches) (hp : w'.pins = w.pins)
    (hn : w'.nextComponent = w.nextComponent) (hl : ∀ i, w'.location i = w.location i)
    (hu : ∀ h n a, underWay h n a w'.record = underWay h n a w.record) :
    Tenanted w' ∧ w.Attends w' := by
  have hcache : ∀ h, w'.cache h = w.cache h := fun h => by rw [World.cache, World.cache, hc]
  refine ⟨⟨fun h => ?_, hw.numbered.of_location hn fun i p hi => ⟨p, hl i ▸ hi⟩, fun h n hk => ?_,
    fun h n a => ?_⟩, .of_location hp hu fun i _ => hl i⟩
  · exact hcache h ▸ hw.tidy h
  · rw [hcache] at hk
    obtain ⟨i, hi⟩ := hw.tenant h n hk
    exact ⟨i, (hl i).trans hi⟩
  · rw [hu]
    exact hw.begun h n a

theorem tenanted_aloof : tenanted.Aloof (κ := κ) where
  stays hw hs := by
    obtain ⟨new, hr, hn⟩ := hs.record
    refine hw.keep hs.caches hs.pins hs.nextComponent hs.location fun h n a => ?_
    rw [hr]
    exact underWay_plain (fun o ho => (hn o ho).plain) _
  stops _ := trivial

/-- A drop takes entries away and leaves components where they are. -/
theorem Tenanted.discarded (hw : Tenanted w) (h : HostId) (selection : Cache.Selection)
    (cause : Cause) :
    Tenanted (w.discarded h selection cause) ∧ w.Attends (w.discarded h selection cause) := by
  have hu := w.underWay_discarded h selection cause
  refine ⟨⟨hw.tidy.discarded h selection cause, hw.numbered, fun h' n hk => ?_, fun h' n a => ?_⟩,
    .of_location rfl hu fun _ _ => rfl⟩
  · exact hw.tenant h' n ((World.mem_keys_discarded hw.tidy).1 hk).1
  · rw [hu]
    exact hw.begun h' n a

/-- Whoever leaves a node takes its entry along. -/
theorem Tenanted.vacated {h : HostId} {n : NodeId} {i : ComponentId} (hw : Tenanted w)
    (w' : World κ) (hi : w.location i = some (h, n)) (hc : w'.caches = w.caches)
    (hr : w'.record = w.record) (hnum : w'.Numbered)
    (hl : ∀ j, j ≠ i → w'.location j = w.location j) (cause : Cause) :
    Tenanted (w'.discarded h (.node n) cause) := by
  have hcache : ∀ h, w'.cache h = w.cache h := fun h => by rw [World.cache, World.cache, hc]
  have htidy : w'.Tidy := fun h => hcache h ▸ hw.tidy h
  refine ⟨htidy.discarded h _ cause, hnum, fun h' m hk => ?_, fun h' m a => ?_⟩
  · obtain ⟨hk, hne⟩ := (World.mem_keys_discarded htidy).1 hk
    rw [hcache] at hk
    obtain ⟨j, hj⟩ := hw.tenant h' m hk
    by_cases hji : j = i
    · rw [hji, hi] at hj
      cases hj
      exact absurd ⟨rfl, beq_self_eq_true n⟩ hne
    · exact ⟨j, (hl j hji).trans hj⟩
  · rw [World.underWay_discarded, hr]
    exact hw.begun h' m a

end

/-! ## Operations that resolve nothing -/

namespace Act

theorem tenanted_settle (i : ComponentId) : tenanted.Kept (κ := κ) (settle i) := by
  intro w hw
  refine .settle (fun _ => trivial) ⟨hw, World.Attends.refl w⟩ fun hfree c hc => ?_
  have hl : ∀ j, j ≠ i → (w.withoutComponent i).location j = w.location j := fun j hj => by
    rw [World.location_withoutComponent, if_neg hj]
  have hnum : (w.withoutComponent i).Numbered :=
    hw.numbered.of_location rfl fun _ p hj => ⟨p, World.location_of_withoutComponent hj⟩
  refine ⟨hw.vacated (w.withoutComponent i) (World.location_of_get? hc) rfl rfl hnum hl _,
    .of_location rfl (World.underWay_discarded (w.withoutComponent i) _ _ _) fun j hj => ?_⟩
  refine hl j fun he => Bool.eq_false_iff.1 hfree ?_
  simp [World.holds, he ▸ hj]

theorem tenanted_holding : tenanted.Holding (κ := κ) where
  settle := tenanted_settle
  pin hw _ := ⟨hw.tidy, hw.numbered, hw.tenant, hw.begun⟩
  unpin {w w' i} _ hw' ha := by
    have hpins : w'.unpin.pins = w.pins := by
      rw [World.unpin, ha.pins]
      rfl
    exact ⟨⟨hw'.tidy, hw'.numbered, hw'.tenant, hw'.begun⟩, hpins, ha.underWay,
      fun j hj => ha.pinned j (List.mem_cons_of_mem i hj)⟩

theorem tenanted_running : tenanted.Running (κ := κ) :=
  tenanted_aloof.running tenanted_holding.keptWithComponent

theorem tenanted_living : tenanted.Living (κ := κ) where
  toHolding := tenanted_holding
  toRunning := tenanted_running
  discard h selection cause w hw := by
    rw [wp_discard]
    split
    · trivial
    · exact hw.discarded h selection cause
  handles hw _ := ⟨⟨hw.tidy, hw.numbered, hw.tenant, hw.begun⟩,
    .of_location rfl (fun _ _ _ => rfl) fun _ _ => rfl⟩
  freshComponent c w hw := by
    have hl : ∀ i p, w.location i = some p → (w.withComponent c).location i = w.location i :=
      fun i p hi => by rw [World.location_withComponent, if_neg (hw.numbered.ne_next hi)]
    refine ⟨⟨hw.tidy, hw.numbered.withComponent c, fun h n hk => ?_, hw.begun⟩, rfl,
      fun _ _ _ => rfl, fun i _ h n hi => ⟨n, (hl i _ hi).trans hi, fun _ => rfl⟩⟩
    obtain ⟨i, hi⟩ := hw.tenant h n hk
    exact ⟨i, (hl i _ hi).trans hi⟩

/-- A component moves, unless the node that it leaves is being resolved. -/
theorem tenanted_update {i : ComponentId} {node : Node} {w : World κ} (hw : Tenanted w)
    (hstill : ∀ h n a, w.location i = some (h, n) → node.id ≠ n → ¬0 < underWay h n a w.record) :
    tenanted.KeptFrom w (withComponent i fun c => update i c node) := by
  refine tenanted_holding.withComponent_at hw fun c hc hpin => ?_
  have hpresent : (w.pin i).components.get? i = some c := hc
  have hloc : (w.pin i).location i = some (c.host, c.node.id) := World.location_of_get? hpresent
  let moved : World κ := (w.pin i).setComponent i { c with node }
  have hcurrent : moved.current i c = { c with node } :=
    World.current_of_get? (Dict.get?_insert_self _ _ _) c
  have hl : ∀ j, j ≠ i → moved.location j = (w.pin i).location j := fun j hj => by
    rw [World.location_setComponent, if_neg hj]
  have hli : moved.location i = some (c.host, node.id) := by
    rw [World.location_setComponent, if_pos rfl]
  unfold Contract.KeptFrom update
  rw [wp_bind, wp_swapNode hpresent]
  split
  · trivial
  rw [wp_bind, wp_nodeOf]
  split
  · trivial
  rw [hcurrent, wp_ite]
  split
  · next hsame =>
    refine hpin.keep rfl rfl rfl (fun j => ?_) fun _ _ _ => rfl
    by_cases hji : j = i
    · rw [hji, hli, hloc, hsame]
    · exact hl j hji
  · next hne =>
    rw [wp_bind, wp_discard]
    split
    · trivial
    have hnum : moved.Numbered := hpin.numbered.setComponent hpresent _
    refine ⟨hpin.vacated moved hloc rfl rfl hnum hl _, rfl, moved.underWay_discarded _ _ _,
      fun j hj h n hjloc => ?_⟩
    by_cases hji : j = i
    · subst hji
      rw [hloc] at hjloc
      cases hjloc
      exact ⟨node.id, hli, fun ⟨a, hpos⟩ =>
        absurd hpos (hstill _ _ a hloc fun he => hne he.symm)⟩
    · exact ⟨n, (hl j hji).trans hjloc, fun _ => rfl⟩

end Act

/-! ## Resolutions -/

section

variable {w w' v : World κ} {h : HostId} {n : NodeId} {a : Aspect} {i : ComponentId}

/-- A note that is about neither the beginning nor the end of a resolution. -/
theorem Tenanted.note (hw : Tenanted w) {o : Occurrence κ} (ho : ∀ h n a, o.opens h n a = 0) :
    Tenanted { w with record := o :: w.record } ∧ w.Attends { w with record := o :: w.record } :=
  hw.keep rfl rfl rfl (fun _ => rfl) fun h n a => by rw [underWay_cons, ho, Int.zero_add]

theorem Tenanted.resolving (hw : Tenanted w) (h : HostId) (n : NodeId) (a : Aspect) :
    Tenanted { w with record := .resolving h n a :: w.record } where
  tidy := hw.tidy
  numbered := hw.numbered
  tenant := hw.tenant
  begun h' n' a' := by
    have hbegun := hw.begun h' n' a'
    rw [underWay_cons]
    simp only [Occurrence.opens]
    split <;> omega

/-- A component is still on the node that has been resolved for it. -/
theorem World.Attends.location_eq (hw : Tenanted w)
    (ha : World.Attends { w with record := .resolving h n a :: w.record } w')
    (hi : w.location i = some (h, n)) (hpin : i ∈ w.pins) : w'.location i = some (h, n) := by
  obtain ⟨m, hm, hmn⟩ := ha.pinned i hpin h n hi
  have hpos : 0 < LayeredViews.underWay h n a (.resolving h n a :: w.record) := by
    have hbegun := hw.begun h n a
    rw [underWay_cons]
    simp only [Occurrence.opens, and_self, if_true]
    omega
  rw [hm, hmn ⟨a, hpos⟩]

/-- A resolution that has come to an end is not under way any more. -/
theorem World.Attends.ended
    (ha : World.Attends { w with record := .resolving h n a :: w.record } w') {o : Occurrence κ}
    (ho : ∀ h' n' a',
      o.opens h' n' a' = -(Occurrence.resolving h n a : Occurrence κ).opens h' n' a')
    (hr : v.record = o :: w'.record) (hp : v.pins = w'.pins)
    (hl : ∀ i, v.location i = w'.location i) : w.Attends v where
  pins := hp.trans ha.pins
  underWay h' n' a' := by
    have hu := ha.underWay h' n' a'
    rw [underWay_cons] at hu
    rw [hr, underWay_cons, ho, hu]
    omega
  pinned j hj h' n' hloc := by
    obtain ⟨m, hm, hmn⟩ := ha.pinned j hj h' n' hloc
    refine ⟨m, (hl j).trans hm, fun ⟨a', hpos⟩ => hmn ⟨a', ?_⟩⟩
    rw [underWay_cons]
    simp only [Occurrence.opens]
    split <;> omega

theorem Tenanted.failed (hw : Tenanted w) (hw' : Tenanted w')
    (ha : World.Attends { w with record := .resolving h n a :: w.record } w') :
    Tenanted { w' with record := .failed h n a :: w'.record } ∧
      w.Attends { w' with record := .failed h n a :: w'.record } := by
  have hend : w.Attends { w' with record := .failed h n a :: w'.record } :=
    ha.ended (fun h' n' a' => by simp only [Occurrence.opens]; split <;> rfl) rfl rfl fun _ => rfl
  exact ⟨⟨hw'.tidy, hw'.numbered, hw'.tenant, fun h n a => hend.underWay h n a ▸ hw.begun h n a⟩,
    hend⟩

/-- What was resolved is stored for the node that the component is still on, and given. -/
theorem Tenanted.finish (hw : Tenanted w) (hw' : Tenanted w') {x : Resolved}
    (ha : World.Attends { w with record := .resolving h n x.aspect :: w.record } w')
    (hi : w.location i = some (h, n)) (hpin : i ∈ w.pins) (e : Entry) :
    let v : World κ := { w'.setCache h ((w'.cache h).insert n e) with
      record := .gave h n x :: .stored h n x :: w'.record }
    Tenanted v ∧ w.Attends v := by
  let u : World κ := { w'.setCache h ((w'.cache h).insert n e) with
    record := .stored h n x :: w'.record }
  have hend : w.Attends u :=
    ha.ended (fun h' n' a' => by simp only [Occurrence.opens]; split <;> rfl) rfl rfl fun _ => rfl
  have hloc : w'.location i = some (h, n) := ha.location_eq hw hi hpin
  have hu : Tenanted u := by
    refine ⟨hw'.tidy.setCache ((hw'.tidy h).insert n e), hw'.numbered, fun h' m hk => ?_,
      fun h n a => hend.underWay h n a ▸ hw.begun h n a⟩
    change m ∈ ((w'.setCache h _).cache h').keys at hk
    rw [World.cache_setCache] at hk
    split at hk
    · next hh =>
      subst hh
      rw [Dict.mem_keys, Dict.get?_insert] at hk
      split at hk
      · next hm => exact ⟨i, hm ▸ hloc⟩
      · exact hw'.tenant h' m (Dict.mem_keys.2 hk)
    · exact hw'.tenant h' m hk
  obtain ⟨hgave, hstep⟩ := hu.note (o := .gave h n x) fun _ _ _ => rfl
  exact ⟨hgave, hend.trans hstep⟩

end

namespace Setting

variable {host : HostId → Host} {user : Callbacks (Act κ)} (hu : tenanted.KeptBy user)
  {w : World κ} {i : ComponentId} {c : Component} {n : NodeId}

theorem tenanted_making : tenanted.Making (κ := κ) where
  toRunning := Act.tenanted_running
  freshInstance := tenanted_aloof.freshInstance

include hu

/-- The view model of a component that an operation holds. -/
theorem tenanted_modelWithSources (hw : Tenanted w) (hi : w.location i = some (c.host, n))
    (hpin : i ∈ w.pins) :
    tenanted.KeptFrom w (modelWithSources ⟨host, user⟩ i c) := by
  unfold Contract.KeptFrom modelWithSources
  rw [Act.wp_bind, Act.wp_nodeOf]
  split
  · trivial
  rw [Act.wp_bind, Act.wp_entryOf]
  split
  · trivial
  rw [World.current_node_id hi]
  cases (w.entry c.host n).model with
  | some m => exact hw.note fun _ _ _ => rfl
  | none =>
    dsimp only
    rw [Act.wp_bind, Act.wp_record]
    refine (tenanted_making.resolveModel hu c _ (hw.resolving c.host n .model)).bind
      fun ⟨model, paths⟩ w' ⟨hw', ha⟩ => ?_
    cases model with
    | error e => exact hw.failed hw' ha
    | ok m =>
      dsimp only
      rw [Act.wp_bind, Act.wp_updateEntry]
      split
      · trivial
      exact hw.finish (x := .model m) hw' ha hi hpin _

/-- What the views are resolved to is stored for the node that the component is still on. -/
theorem tenanted_views_resolve (hw : Tenanted w) (hi : w.location i = some (c.host, n))
    (hpin : i ∈ w.pins) {w' : World κ} (hw' : Tenanted w')
    (ha : World.Attends { w with record := .resolving c.host n .views :: w.record } w')
    (model : Option Model) (paths : List String) :
    (views.resolve ⟨host, user⟩ c n model paths).Wp (fun _ => True)
      (fun _ w' => Tenanted w' ∧ w.Attends w') w' := by
  refine (tenanted_making.resolveViews hu (fun cls => tenanted_making.instantiate hu cls .view)
    c.host model _ w' hw').bind fun ⟨resolved, more⟩ w₁ ⟨hw₁, ha'⟩ => ?_
  have ha₁ := ha.trans ha'
  cases resolved with
  | error e => exact hw.failed hw₁ ha₁
  | ok list =>
    dsimp only
    rw [Act.wp_bind]
    refine (tenanted_aloof.freshList list w₁ hw₁).mono fun l w₂ ⟨hw₂, ha''⟩ => ?_
    rw [Act.wp_bind, Act.wp_updateEntry]
    split
    · trivial
    exact hw.finish (x := .views l) hw₂ (ha₁.trans ha'') hi hpin _

/-- The views of a component that an operation holds. -/
theorem tenanted_views (hw : Tenanted w) (hi : w.location i = some (c.host, n))
    (hpin : i ∈ w.pins) :
    tenanted.KeptFrom w (views ⟨host, user⟩ i c) := by
  unfold Contract.KeptFrom
  rw [views_eq, Act.wp_bind, Act.wp_nodeOf]
  split
  · trivial
  rw [Act.wp_bind, Act.wp_entryOf]
  split
  · trivial
  rw [World.current_node_id hi]
  cases (w.entry c.host n).views with
  | some l => exact hw.note fun _ _ _ => rfl
  | none =>
    dsimp only
    rw [Act.wp_bind, Act.wp_record]
    refine (tenanted_modelWithSources hu (hw.resolving c.host n .views) hi hpin).bind
      fun ⟨model, paths⟩ w' ⟨hw', ha⟩ => ?_
    cases model with
    | ok m => exact tenanted_views_resolve hu hw hi hpin hw' ha (some m) paths
    | error e =>
      dsimp only
      rw [Act.wp_ite]
      split
      · exact tenanted_views_resolve hu hw hi hpin hw' ha none paths
      · exact hw.failed hw' ha

end Setting

/-- The operation moves a component to another node while the node that it leaves is being
resolved. -/
def World.Displaces (w : World κ) (op : Op) : Prop :=
  ∃ i node h n a, op = .update i node ∧ w.location i = some (h, n) ∧ node.id ≠ n ∧
    0 < underWay h n a w.record

section

variable {host : HostId → Host}

theorem tenanted_answering : tenanted.Answering (κ := κ) host where
  instantiate hu := Setting.tenanted_making.instantiate hu
  model hu i := Act.tenanted_holding.withComponent_from i fun _ _ hw hc hpin =>
    (Setting.tenanted_modelWithSources hu hw (World.location_of_get? hc) hpin).bind
      fun _ _ hw' => hw'
  views hu i := Act.tenanted_holding.withComponent_from i fun _ _ hw hc hpin =>
    Setting.tenanted_views hu hw (World.location_of_get? hc) hpin
  render hu i pipe := Act.tenanted_holding.withComponent_from i fun _ _ hw hc hpin =>
    Act.tenanted_running.render_from hu pipe
      (Setting.tenanted_views hu hw (World.location_of_get? hc) hpin)

/-- All operations but those that displace a component keep the contract. -/
theorem tenanted_sparing (host : HostId → Host) :
    tenanted.Sparing (κ := κ) host World.Displaces where
  toOpen := tenanted_aloof.toOpen
  stopped := trivial
  perform user hu op w hw hop := by
    have hworking : tenanted.Working (κ := κ) host := Act.tenanted_living.working
      (tenanted_aloof.serving Act.tenanted_running tenanted_answering)
    cases op with
    | update i node =>
      exact Act.tenanted_update hw fun h n a hi hne hpos =>
        hop ⟨i, node, h, n, a, rfl, hi, hne, hpos⟩
    | _ => exact hworking.perform hu (by nofun) w hw

end

/-! ## Runs -/

theorem tenanted_start (targets : Dict TargetId EventTarget) (memory : κ.Memory) :
    Tenanted (World.start targets memory) where
  tidy _ := Dict.Sorted.empty
  numbered _ _ hi := by cases hi
  tenant _ _ hk := by cases hk
  begun _ _ _ := Int.le_refl _

/-- **Entries belong to components that are held.** After a run of an application that has not moved
a component while the node that it leaves was being resolved, every entry is for a node that a
component of the host is on, and a variable holds that component. So a host has no entries once no
variable holds a component of it. -/
theorem tenanted_of_exec (app : Application κ) (prog : Program κ α)
    (targets : Dict TargetId EventTarget) (memory : κ.Memory)
    (hcalls : ¬app.Calls prog (World.start targets memory) World.Displaces) {depth : Nat} {a : α}
    {v : World κ} (hrun : (app.exec depth prog).run (World.start targets memory) = .ok (a, v)) :
    (∀ h n, n ∈ (v.cache h).keys → ∃ i, v.location i = some (h, n) ∧ v.InVariable i) ∧
      ∀ h, (∀ i n, v.location i = some (h, n) → ¬v.InVariable i) → (v.cache h).keys = [] := by
  have hv : Tenanted v :=
    (((tenanted_sparing app.host).exec (tenanted_start targets memory) hcalls depth).of_run hrun).1
  have hheld : ∀ h n, n ∈ (v.cache h).keys → ∃ i, v.location i = some (h, n) ∧ v.InVariable i := by
    intro h n hk
    obtain ⟨i, hi⟩ := hv.tenant h n hk
    exact ⟨i, hi, inVariable_of_exec app prog targets memory hrun hi⟩
  refine ⟨hheld, fun h hnone => List.eq_nil_iff_forall_not_mem.2 fun n hk => ?_⟩
  obtain ⟨i, hi, hin⟩ := hheld h n hk
  exact hnone i n hi hin

/-! ## Components that stay, and one that does not -/

namespace Drifter

def model : Class := Class.viewModel 0 "Drifter" ⟨0, "Drifter"⟩

def type : ComponentType where
  own :=
    { label := "Drifter"
      definer := some ⟨"Drifter",
        [⟨"name", [.text "drifter"]⟩, ⟨"viewmodel", [.ofClass model]⟩]⟩ }

/-- An application whose code does nothing. -/
def settled : Application ⟨Unit, Empty⟩ := ⟨fun _ => {}, .idle⟩

/-- Asks two components for their view models, and lets one of them go. -/
def pair : Program ⟨Unit, Empty⟩ Unit :=
  .call (.create 0 type ⟨1, ∅⟩ ⟨0, "first"⟩) fun _ =>
  .call (.create 0 type ⟨2, ∅⟩ ⟨0, "second"⟩) fun _ =>
  .call (.model 0) fun _ => .call (.model 1) fun _ =>
  .call (.release ⟨0, "second"⟩) fun _ => .done ()

/-- Its view model moves the first component to another node while it is made. -/
def application : Application ⟨Unit, Empty⟩ where
  host _ := {}
  code := { Callbacks.idle with make := fun _ => .call (.update 0 ⟨2, ∅⟩) fun _ => .done () }

/-- Asks a component for its view model, and lets it go. -/
def program : Program ⟨Unit, Empty⟩ Unit :=
  .call (.create 0 type ⟨1, ∅⟩ ⟨0, "first"⟩) fun _ =>
  .call (.model 0) fun _ => .call (.release ⟨0, "first"⟩) fun _ => .done ()

/-- The world in which nothing but an entry is left. -/
def last : World ⟨Unit, Empty⟩ := application.worldAfter 2 program (World.start ∅ ())

theorem run_program : (application.exec 2 program).run (World.start ∅ ()) = .ok ((), last) :=
  Application.run_eq_worldAfter (by decide +kernel)

theorem location_last (i : ComponentId) : last.location i = none := by
  have hempty : last.components.entries = [] := List.isEmpty_iff.1 (by decide +kernel)
  rw [World.location, Dict.get?, hempty]
  rfl

end Drifter

/-- Of two components that stay on their nodes, the one that is still held has an entry. -/
theorem tenanted_of_exec_pair :
    ¬Drifter.settled.Calls Drifter.pair (World.start ∅ ()) World.Displaces ∧
      ∃ v, (Drifter.settled.exec 2 Drifter.pair).run (World.start ∅ ()) = .ok ((), v) ∧
        (v.cache 0).keys = [1] ∧ ∃ i, v.location i = some (0, 1) ∧ v.InVariable i := by
  let q (_ : World ⟨Unit, Empty⟩) : Op → Bool
    | .update _ _ => true
    | _ => false
  have hcalls : ¬Drifter.settled.Calls Drifter.pair (World.start ∅ ()) World.Displaces := by
    refine Application.not_calls_of_avoids (q := q) (fun w op hop => ?_) rfl (by decide +kernel)
    obtain ⟨i, node, -, -, -, rfl, -⟩ := hop
    rfl
  let v : World ⟨Unit, Empty⟩ := Drifter.settled.worldAfter 2 Drifter.pair (World.start ∅ ())
  have hrun : (Drifter.settled.exec 2 Drifter.pair).run (World.start ∅ ()) = .ok ((), v) :=
    Application.run_eq_worldAfter (by decide +kernel)
  have hkeys : (v.cache 0).keys = [1] := by decide +kernel
  obtain ⟨htenant, -⟩ := tenanted_of_exec Drifter.settled Drifter.pair ∅ () hcalls hrun
  exact ⟨hcalls, v, hrun, hkeys, htenant 0 1 (by rw [hkeys]; exact List.mem_singleton_self 1)⟩

/-- It is not so that after every run all entries belong to components that are held: one may be
left when there is no component any more. -/
theorem entry_left_behind :
    ¬∀ (κ : Client) (app : Application κ) (prog : Program κ Unit) (memory : κ.Memory)
      (depth : Nat) (v : World κ), (app.exec depth prog).run (World.start ∅ memory) = .ok ((), v) →
        ∀ h n, n ∈ (v.cache h).keys → ∃ i, v.location i = some (h, n) ∧ v.InVariable i := by
  intro hheld
  have hkey : 1 ∈ (Drifter.last.cache 0).keys := by decide +kernel
  obtain ⟨i, hi, -⟩ := hheld _ Drifter.application Drifter.program () 2 Drifter.last
    Drifter.run_program 0 1 hkey
  rw [Drifter.location_last] at hi
  cases hi

end LayeredViews
