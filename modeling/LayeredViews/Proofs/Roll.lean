import LayeredViews.Proofs.Accounts

/-!
# The order of listeners

The listeners of a target are in the order in which they were registered, and a component that is
bound anew registers them anew. So the listeners of the components that exist are in the order in
which these were last bound, and those of one component in the order in which it declares its
events.

* `bindOrder`: the components that were ever bound, by a record, in the order in which they were
  last bound (`pairwise_bindOrder`).
* `World.roll`: the listeners that a component retains on a target.
* `Enrolled`: the listeners of a target, as far as their components exist, are those that the
  components retain, in that order. Components keep this where the runtimes have global events all
  along (`enrolled_managing`).
-/

namespace LayeredViews

variable {κ : Client} {host : HostId → Host} {w w' : World κ} {i j : ComponentId} {t : TargetId}

/-! ## The order in which components were bound -/

/-- The components that a record says were bound, by the last time that they were. -/
def bindOrder : List (Occurrence κ) → List ComponentId
  | [] => []
  | .initialized i :: past => (bindOrder past).filter (· != i) ++ [i]
  | _ :: past => bindOrder past

/-- By the record, `i` was bound for the last time before `j` was. -/
def BoundBefore (record : List (Occurrence κ)) (i j : ComponentId) : Prop :=
  ∃ since past, record = since ++ .initialized j :: past ∧ .initialized i ∉ since ∧
    .initialized i ∈ past

section

variable {record past new : List (Occurrence κ)}

theorem bindOrder_append (hn : ∀ o ∈ new, ¬o.Binds) : bindOrder (new ++ past) = bindOrder past := by
  induction new with
  | nil => rfl
  | cons o new ih =>
    have hrest := ih fun o' ho' => hn o' (List.mem_cons_of_mem _ ho')
    cases o with
    | initialized i => exact absurd trivial (hn _ List.mem_cons_self)
    | _ => exact hrest

/-- Registering and removing listeners binds nobody. -/
theorem bindOrder_listeners {f : Subscription → Occurrence κ} (hf : ∀ s, ¬(f s).Binds)
    (l : List Subscription) (past : List (Occurrence κ)) :
    bindOrder ((l.map f).reverse ++ past) = bindOrder past :=
  bindOrder_append fun o ho => by
    obtain ⟨s, -, rfl⟩ := List.mem_map.1 (List.mem_reverse.1 ho)
    exact hf s

theorem mem_bindOrder : i ∈ bindOrder record ↔ .initialized i ∈ record := by
  induction record with
  | nil => simp [bindOrder]
  | cons o past ih =>
    cases o with
    | initialized j =>
      by_cases hij : i = j
      · simp [bindOrder, hij]
      · simp [bindOrder, hij, ih]
    | _ => simp [bindOrder, ih]

theorem nodup_bindOrder (record : List (Occurrence κ)) : (bindOrder record).Nodup := by
  induction record with
  | nil => exact List.nodup_nil
  | cons o past ih =>
    cases o with
    | initialized j =>
      rw [bindOrder, List.nodup_append]
      exact ⟨ih.filter _, by simp, by simp⟩
    | _ => exact ih

theorem BoundBefore.cons {o : Occurrence κ} (h : BoundBefore past i j) (ho : o ≠ .initialized i) :
    BoundBefore (o :: past) i j := by
  obtain ⟨since, rest, rfl, hnot, hmem⟩ := h
  refine ⟨o :: since, rest, rfl, fun hi => ?_, hmem⟩
  exact (List.mem_cons.1 hi).elim (fun he => ho he.symm) hnot

/-- Whoever comes later was bound later. -/
theorem pairwise_bindOrder (record : List (Occurrence κ)) :
    (bindOrder record).Pairwise (BoundBefore record) := by
  induction record with
  | nil => exact .nil
  | cons o past ih =>
    cases o with
    | initialized j =>
      rw [bindOrder, List.pairwise_append]
      refine ⟨?_, List.pairwise_singleton _ _, fun i hi k hk => ?_⟩
      · refine (ih.filter _).imp_of_mem fun {i k} hi _ h => h.cons fun he => ?_
        cases he
        simp at hi
      · obtain rfl := List.mem_singleton.1 hk
        exact ⟨[], past, rfl, List.not_mem_nil, mem_bindOrder.1 (List.mem_filter.1 hi).1⟩
    | _ => exact ih.imp fun h => h.cons nofun

end

/-- Those that have nothing may be left out. -/
theorem flatMap_filter_of {β γ : Type} {l : List β} {f : β → List γ} {p : β → Bool}
    (h : ∀ x, p x = false → f x = []) : (l.filter p).flatMap f = l.flatMap f := by
  induction l with
  | nil => rfl
  | cons x rest ih =>
    cases hx : p x with
    | false => simp [hx, h x hx, ih]
    | true => simp [hx, ih]

/-! ## What components have registered -/

/-- Whether the listener calls a method of a component that exists. -/
def World.live (w : World κ) (r : Subscription) : Bool :=
  match r.listener.callback with
  | .method i _ => w.components.contains i
  | .code _ => false

/-- The listeners that a component retains on a target, as long as it exists. -/
def World.roll (w : World κ) (host : HostId → Host) (t : TargetId) (i : ComponentId) :
    List Subscription :=
  match w.components.get? i with
  | some c => if (host c.host).target = some t then c.subscriptions.entries else []
  | none => []

namespace World

theorem live_of_method {r : Subscription} {m : Method} (h : r.listener.callback = .method i m) :
    w.live r = w.components.contains i := by
  rw [live, h]

theorem live_congr (h : ∀ i, w'.components.contains i = w.components.contains i) :
    w'.live = w.live := by
  funext r
  unfold live
  cases r.listener.callback with
  | method i m => exact h i
  | code key => rfl

theorem roll_of_get? {c : Component} (hc : w.components.get? i = some c) :
    w.roll host t i = if (host c.host).target = some t then c.subscriptions.entries else [] := by
  rw [roll, hc]

theorem roll_of_none (hc : w.components.get? i = none) : w.roll host t i = [] := by
  rw [roll, hc]

theorem roll_congr (h : w'.components.get? i = w.components.get? i) :
    w'.roll host t i = w.roll host t i := by
  rw [roll, roll, h]

end World

namespace Accounted

variable (hw : Accounted host w)
include hw

theorem method_of_mem_roll {r : Subscription} (hr : r ∈ w.roll host t i) :
    ∃ m, r.listener.callback = .method i m := by
  cases hc : w.components.get? i with
  | none =>
    rw [World.roll_of_none hc] at hr
    cases hr
  | some c =>
    rw [World.roll_of_get? hc] at hr
    split at hr
    · exact hw.calling i c hc r hr
    · cases hr

theorem filter_roll_self {p : Subscription → Bool}
    (h : ∀ r m, r.listener.callback = .method i m → p r = true) :
    (w.roll host t i).filter p = w.roll host t i :=
  List.filter_eq_self.2 fun r hr =>
    have ⟨m, hm⟩ := hw.method_of_mem_roll hr
    h r m hm

theorem filter_roll_nil {p : Subscription → Bool}
    (h : ∀ r m, r.listener.callback = .method i m → p r = false) :
    (w.roll host t i).filter p = [] :=
  List.filter_eq_nil_iff.2 fun r hr => by
    obtain ⟨m, hm⟩ := hw.method_of_mem_roll hr
    simp [h r m hm]

/-- Of what components have registered nothing is lost but what one of them had. -/
theorem filter_roll_others {id : ComponentId} (hgone : w'.roll host t id = [])
    (hothers : ∀ i, i ≠ id → w'.roll host t i = w.roll host t i) (i : ComponentId) :
    (w.roll host t i).filter (!·.isOf id) = w'.roll host t i := by
  by_cases hi : i = id
  · rw [hi, hgone]
    refine hw.filter_roll_nil fun r m hm => ?_
    simp [Subscription.isOf, hm]
  · rw [hothers i hi]
    refine hw.filter_roll_self fun r m hm => ?_
    simp [Subscription.isOf, hm, hi]

/-- Of what a component has registered there is still what it had if it is still there. -/
theorem filter_live_roll (h : w.Spared w') :
    (w.roll host t i).filter w'.live = w'.roll host t i := by
  cases hc' : w'.components.get? i with
  | none =>
    rw [World.roll_of_none hc']
    exact hw.filter_roll_nil fun r m hm => by
      rw [World.live_of_method hm, Dict.contains, hc', Option.isSome_none]
  | some c' =>
    obtain ⟨c, node, hc, rfl⟩ := h.components i c' hc'
    rw [World.roll_of_get? hc', hw.filter_roll_self fun r m hm => by
      rw [World.live_of_method hm, Dict.contains, hc', Option.isSome_some], World.roll_of_get? hc]

end Accounted

/-! ## The invariant -/

/-- The listeners of the components that exist are in the order in which these were bound. -/
structure Enrolled (host : HostId → Host) (w : World κ) : Prop extends Accounted host w where
  /-- The runtimes have global events, and keep them. -/
  present : ∀ t, (w.target t).present = true ∧ (w.target t).switchable = false
  bound : ∀ i c, w.components.get? i = some c → c.subscriptions.bound = true →
    .initialized i ∈ w.record ∧ c.subscriptions.entries.map Subscription.call = c.calls i
  listed : ∀ t, (w.target t).listeners.filter w.live =
    (bindOrder w.record).flatMap (w.roll host t)

/-- The runtimes have global events. -/
theorem Enrolled.presentTarget_eq (hw : Enrolled host w) (h : Host) :
    w.presentTarget h = h.target := by
  rw [World.presentTarget]
  cases h.target with
  | none => rfl
  | some t => rw [Option.filter, if_pos (hw.present t).1]

theorem Enrolled.spared (hw : Enrolled host w) (h : w.Spared w') : Enrolled host w' where
  toAccounted := hw.toAccounted.still h.toStill
  present t := by
    rw [h.present, h.switchable]
    exact hw.present t
  bound i c' hc' hb := by
    obtain ⟨c, node, hc, rfl⟩ := h.components i c' hc'
    obtain ⟨new, hrecord, -⟩ := h.record
    obtain ⟨hmem, hcalls⟩ := hw.bound i c hc hb
    exact ⟨hrecord ▸ List.mem_append_right new hmem, hcalls⟩
  listed t := by
    obtain ⟨new, hrecord, hnew⟩ := h.record
    have hlive : ∀ r, w'.live r = (w'.live r && w.live r) := by
      intro r
      unfold World.live
      cases r.listener.callback with
      | code key => rfl
      | method i m =>
        dsimp only [Dict.contains]
        cases hc' : w'.components.get? i with
        | none => rfl
        | some c' =>
          obtain ⟨c, node, hc, -⟩ := h.components i c' hc'
          rw [hc]
          rfl
    calc (w'.target t).listeners.filter w'.live
        = ((w.target t).listeners.filter w.live).filter w'.live := by
          rw [h.listeners t, List.filter_filter]
          exact List.filter_congr fun r _ => hlive r
      _ = (bindOrder w.record).flatMap fun i => (w.roll host t i).filter w'.live := by
          rw [hw.listed t, List.filter_flatMap]
      _ = (bindOrder w'.record).flatMap (w'.roll host t) := by
          rw [hrecord, bindOrder_append hnew]
          exact List.flatMap_congr fun i _ => hw.filter_live_roll h

theorem Enrolled.added {c : Component} (hw : Enrolled host w)
    (hb : c.type.build.result = .ok c.metadata) (hs : c.subscriptions = ∅) :
    Enrolled host (w.withComponent c) where
  toAccounted := hw.toAccounted.added hb hs
  present := hw.present
  bound i c' hc' hbound := by
    change (w.components.insert w.nextComponent c).get? i = some c' at hc'
    rw [Dict.get?_insert] at hc'
    split at hc'
    · obtain rfl := Option.some.inj hc'
      rw [hs] at hbound
      cases hbound
    · exact hw.bound i c' hc' hbound
  listed t := by
    have hold : w.components.get? w.nextComponent = none := by
      cases hc : w.components.get? w.nextComponent with
      | none => rfl
      | some c' => exact absurd (hw.fresh _ _ hc) (Nat.lt_irrefl _)
    have hlive : ∀ r ∈ (w.target t).listeners, (w.withComponent c).live r = w.live r := by
      intro r hr
      unfold World.live
      cases hm : r.listener.callback with
      | code key => rfl
      | method i m =>
        have hne : i ≠ w.nextComponent := Nat.ne_of_lt (hw.owned t r hr i m hm).1
        exact congrArg Option.isSome (Dict.get?_insert_of_ne _ _ hne)
    refine (List.filter_congr hlive).trans ((hw.listed t).trans ?_)
    refine List.flatMap_congr fun i _ => ?_
    by_cases hi : i = w.nextComponent
    · have hnew : (w.withComponent c).components.get? i = some c := by
        rw [hi]
        exact Dict.get?_insert_self _ _ _
      rw [World.roll_of_none (hi ▸ hold), World.roll_of_get? hnew, hs]
      split <;> rfl
    · exact (World.roll_congr (Dict.get?_insert_of_ne _ _ hi)).symm

section

variable {id : ComponentId} {c : Component}

theorem World.contains_setSubscriptions (hc : w.components.get? id = some c) (s : Subscriptions)
    (i : ComponentId) :
    (w.setSubscriptions id c s).components.contains i = w.components.contains i := by
  change ((w.components.insert id _).get? i).isSome = (w.components.get? i).isSome
  rw [Dict.get?_insert]
  split
  · next he => rw [he, hc]; rfl
  · rfl

/-- A component that had nothing registered is bound: it comes last. -/
theorem World.roll_bound {past : List (Occurrence κ)} (hpast : bindOrder past = bindOrder w.record)
    (hothers : ∀ i, i ≠ id → w'.roll host t i = w.roll host t i) (hnone : w.roll host t id = []) :
    (bindOrder (.initialized id :: past)).flatMap (w'.roll host t) =
      (bindOrder w.record).flatMap (w.roll host t) ++ w'.roll host t id := by
  rw [bindOrder, hpast, List.flatMap_append, List.flatMap_singleton]
  congr 1
  refine (List.flatMap_congr fun i hi => hothers i ?_).trans (flatMap_filter_of fun i hi => ?_)
  · simpa using (List.mem_filter.1 hi).2
  · obtain rfl : i = id := by simpa using hi
    exact hnone

/-- Of what a component registers all is live. -/
theorem World.Registered.filter_live {events : List EventBinding} {added : List Subscription}
    (hr : w.Registered id t events added w') (hc : w.components.get? id = some c)
    (ht : (host c.host).target = some t) (t' : TargetId) :
    (w'.target t').listeners.filter w.live = (w.target t').listeners.filter w.live ++
      if (host c.host).target = some t' then added else [] := by
  by_cases he : t' = t
  · have hadded : added.filter w.live = added := List.filter_eq_self.2 fun r hmem => by
      obtain ⟨m, hm⟩ := hr.callbacks r hmem
      rw [World.live_of_method hm, Dict.contains, hc]
      rfl
    rw [he, hr.target, List.filter_append, hadded, if_pos ht]
  · have hother : (host c.host).target ≠ some t' := fun ht' =>
      he (Option.some.inj (ht'.symm.trans ht))
    rw [hr.others t' he, if_neg hother, List.append_nil]

/-- Where a component was unbound, no listener calls it, on any target. -/
theorem World.Removed.listeners_eq (hw : Accounted host w) (hc : w.components.get? id = some c)
    (ht : (host c.host).target = some t) (hr : w.Removed t c.subscriptions.entries w')
    (t' : TargetId) :
    (w'.target t').listeners = (w.target t').listeners.filter (!·.isOf id) := by
  by_cases he : t' = t
  · rw [he, hw.listeners_of_removed hc ht hr]
    refine List.filter_congr fun r hmem => ?_
    rw [Bool.not_inj_iff, Bool.eq_iff_iff, List.contains_iff_mem]
    exact hw.retains_iff hc ht hmem
  · rw [hr.others t' he]
    refine (List.filter_eq_self.2 fun r hmem => ?_).symm
    cases hof : r.isOf id with
    | false => rfl
    | true =>
      obtain ⟨m, hm⟩ := Subscription.isOf_iff.1 hof
      have ht' := ((hw.owned t' r hmem id m hm).2 c hc).1
      exact absurd (Option.some.inj (ht'.symm.trans ht)) he

variable (hw : Enrolled host w) (hc : w.components.get? id = some c)
include hw hc

theorem Initialized.enrolled {r : Except Error Unit} (h : Initialized host id c w r w') :
    Enrolled host w' := by
  have hacc := h.accounted hw.toAccounted hc
  cases h with
  | absent hp =>
    rw [hw.presentTarget_eq] at hp
    refine ⟨hacc, hw.present, fun i c' hc' hb => ?_, fun t => ?_⟩
    · obtain ⟨hmem, hcalls⟩ := hw.bound i c' hc' hb
      exact ⟨List.mem_cons_of_mem _ hmem, hcalls⟩
    · have hnone : w.roll host t id = [] := by
        rw [World.roll_of_get? hc, hp]
        rfl
      have hlast : (bindOrder (.initialized id :: w.record)).flatMap (w.roll host t) = _ :=
        World.roll_bound rfl (fun _ _ => rfl) hnone
      rw [hnone, List.append_nil] at hlast
      exact (hw.listed t).trans hlast.symm
  | refused t hp hb => exact hw
  | bound t hp hb added w₁ hr hcalls =>
    -- it had no listeners, so nothing is lost where it gives up its old place in the order
    have hentries : c.subscriptions.entries = [] := (hw.consistent id c hc).unbound hb
    have hc₁ : w₁.components.get? id = some c := hr.components ▸ hc
    let w₂ : World κ :=
      { w₁.setSubscriptions id c ⟨true, added⟩ with record := .initialized id :: w₁.record }
    have hid : w₂.components.get? id = some { c with subscriptions := ⟨true, added⟩ } :=
      Dict.get?_insert_self _ _ _
    have hpast : bindOrder w₁.record = bindOrder w.record  := by
      rw [hr.record, bindOrder_listeners]
      exact fun _ h => h
    have hlive : w₂.live = w.live := World.live_congr fun i => by
      rw [← hr.components]
      exact World.contains_setSubscriptions hc₁ _ i
    refine ⟨hacc, fun t' => ?_, fun i c' hc' hbound => ?_, fun t' => ?_⟩
    · exact (hr.runtime t').1 ▸ (hr.runtime t').2 ▸ hw.present t'
    · rcases get?_setSubscriptions hc' with ⟨rfl, rfl⟩ | ⟨-, hc'⟩
      · exact ⟨List.mem_cons_self, hcalls⟩
      · obtain ⟨hmem, hcalls'⟩ := hw.bound i c' (hr.components ▸ hc') hbound
        refine ⟨List.mem_cons_of_mem _ ?_, hcalls'⟩
        rw [hr.record]
        exact List.mem_append_right _ hmem
    · have hlast : (bindOrder w₂.record).flatMap (w₂.roll host t') =
          (bindOrder w.record).flatMap (w.roll host t') ++ w₂.roll host t' id := by
        refine World.roll_bound hpast (fun i hi => World.roll_congr ?_) ?_
        · exact (Dict.get?_insert_of_ne _ _ hi).trans (by rw [hr.components])
        · rw [World.roll_of_get? hc, hentries]
          split <;> rfl
      change (w₁.target t').listeners.filter w₂.live = _
      rw [hlast, World.roll_of_get? hid, hlive, ← hw.listed t']
      exact hr.filter_live hc (target_of_present hp) t'

theorem Unbound.enrolled {n : Nat} (h : Unbound host id c w n w') : Enrolled host w' := by
  have hacc := h.accounted hw.toAccounted hc
  cases h with
  | absent hp =>
    refine ⟨hacc, hw.present, fun i c' hc' hb => ?_, hw.listed⟩
    obtain ⟨hmem, hcalls⟩ := hw.bound i c' hc' hb
    exact ⟨List.mem_cons_of_mem _ hmem, hcalls⟩
  | removed t hp w₁ hr =>
    have htarget := target_of_present hp
    have hcomponents : w₁.components = w.components := by rw [hr.rest]
    have hc₁ : w₁.components.get? id = some c := hcomponents ▸ hc
    let w₂ : World κ := { w₁.setSubscriptions id c ∅ with record := .unbound id :: w₁.record }
    have hid : w₂.components.get? id = some { c with subscriptions := ∅ } :=
      Dict.get?_insert_self _ _ _
    -- it stays where it was in the order, with nothing to its name
    have hgone : ∀ t', w₂.roll host t' id = [] := fun t' => by
      rw [World.roll_of_get? hid]
      split <;> rfl
    have hothers : ∀ t' i, i ≠ id → w₂.roll host t' i = w.roll host t' i := fun t' i hi =>
      World.roll_congr ((Dict.get?_insert_of_ne _ _ hi).trans (by rw [hcomponents]))
    have horder : bindOrder w₁.record = bindOrder w.record  := by
      rw [hr.record, bindOrder_listeners]
      exact fun _ h => h
    have hlive : w₂.live = w.live := World.live_congr fun i => by
      rw [← hcomponents]
      exact World.contains_setSubscriptions hc₁ _ i
    have hruntime := hr.runtime hw.toSubscribed hc htarget
    refine ⟨hacc, fun t' => ?_, fun i c' hc' hbound => ?_, fun t' => ?_⟩
    · exact (hruntime t').1 ▸ (hruntime t').2 ▸ hw.present t'
    · rcases get?_setSubscriptions hc' with ⟨-, rfl⟩ | ⟨-, hc'⟩
      · cases hbound
      · obtain ⟨hmem, hcalls⟩ := hw.bound i c' (hcomponents ▸ hc') hbound
        refine ⟨List.mem_cons_of_mem _ ?_, hcalls⟩
        rw [hr.record]
        exact List.mem_append_right _ hmem
    · change (w₁.target t').listeners.filter w₂.live = (bindOrder w₁.record).flatMap _
      rw [hlive, horder]
      calc (w₁.target t').listeners.filter w.live
          = ((w.target t').listeners.filter w.live).filter (!·.isOf id) := by
            rw [hr.listeners_eq hw.toAccounted hc htarget, List.filter_filter, List.filter_filter]
            exact List.filter_congr fun r _ => Bool.and_comm _ _
        _ = (bindOrder w.record).flatMap fun i => (w.roll host t' i).filter (!·.isOf id) := by
            rw [hw.listed t', List.filter_flatMap]
        _ = (bindOrder w.record).flatMap (w₂.roll host t') :=
            List.flatMap_congr fun i _ => hw.filter_roll_others (hgone t') (hothers t') i

end

theorem enrolled_managing (host : HostId → Host) :
    World.Managing host (Enrolled (κ := κ) host) where
  spared := Enrolled.spared
  lent hw id :=
    { hw with toAccounted := (accounted_managing host).lent hw.toAccounted id }
  back hw hw' :=
    { hw' with toAccounted := (accounted_managing host).back hw.toAccounted hw'.toAccounted }
  subscribed hw := hw.toSubscribed
  added hw := hw.added
  initialized hw hc h := h.enrolled hw hc
  unbound hw hc h := h.enrolled hw hc
  switched hw t on := hw.spared (.switch on (hw.present t).2)

theorem enrolled_start {targets : Dict TargetId EventTarget} (hf : Fresh targets)
    (memory : κ.Memory) : Enrolled host (World.start targets memory) where
  toAccounted := accounted_start (fun t target ht => (hf t target ht).1) memory
  present := (attributed_start hf memory : Attributed host False 0 _).present
  bound _ _ h := by cases h
  listed t := by
    rw [World.listeners_start fun t target ht => (hf t target ht).1]
    rfl

end LayeredViews
