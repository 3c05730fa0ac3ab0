import LayeredViews.Proofs.AtRest
import LayeredViews.Proofs.Building
import LayeredViews.Proofs.Loans
import LayeredViews.Proofs.Without

/-!
# Mounting

Mounting a component fails where its metadata cannot be built, and nowhere else: subscriptions that
are new are never refused, and every declared event has a handler.

* `World.Genuine`: every registered listener was made before. All operations keep it but the
  registering of a listener that was never made (`World.Forges`), whoever registers and removes
  listeners (`genuine_guarded`).
* `Initialized.fresh`: what initializing does to a component that is new.
* `Act.wp_pinned_bindHandle`: an operation that puts a component into a variable need not hold it.
* `mount_all_or_nothing`: mounting in every world that a run comes to.
-/

namespace LayeredViews

variable {κ : Client} {α : Type} {host : HostId → Host} {user : Callbacks (Act κ)} {w v : World κ}

/-! ## Listeners that were made -/

/-- Every listener that is registered was made before. -/
def World.Genuine (w : World κ) : Prop :=
  ∀ t, ∀ r ∈ (w.target t).listeners, r.listener.id < w.nextListener

/-- The operation registers a listener that was never made. -/
def World.Forges (w : World κ) : Op → Prop
  | .add _ s => w.nextListener ≤ s.listener.id
  | _ => False

/-- The contract of code that registers only what was made before. -/
def genuine : Contract κ := .leaving World.Genuine World.loans

theorem World.Genuine.setTarget (hw : w.Genuine) {t : TargetId} {target : EventTarget}
    (h : ∀ r ∈ target.listeners, r.listener.id < w.nextListener) :
    (w.setTarget t target).Genuine := by
  intro t' r hr
  rw [World.target_setTarget] at hr
  split at hr
  · exact h r hr
  · exact hw t' r hr

theorem genuine_hearing : World.Hearing (World.Genuine (κ := κ)) where
  spared hw h t r hr := Nat.lt_of_lt_of_le (hw t r (h.listeners t ▸ hr)) h.nextListener
  lent hw _ := hw
  back _ hw' := hw'

/-- Whatever is done to listeners while something is in use. -/
theorem genuine_lend (cell : Cell) (access : Access) {body : Act κ α} (h : genuine.Kept body) :
    genuine.Kept (Act.lend cell access body) := by
  intro w hw
  rw [Act.wp_lend]
  split
  · exact Option.some_ne_none _
  · refine (h { w with loans := (cell, access) :: w.loans } hw).mono fun x w' ⟨hw', hloans⟩ => ?_
    refine ⟨hw', ?_⟩
    rw [show w'.loans = (cell, access) :: w.loans from hloans]
    rfl

theorem genuine_of_eq {a : Act κ α} (h : ∀ w, a.Wp (· ≠ none) (fun _ w' =>
      w'.targets = w.targets ∧ w'.nextListener = w.nextListener ∧ w'.loans = w.loans) w) :
    genuine.Kept a := fun w hw =>
  (h w).mono fun _ w' ⟨ht, hn, hl⟩ => by
    refine ⟨fun t r hr => ?_, hl⟩
    rw [hn]
    exact hw t r (by rwa [World.target, ht] at hr)

theorem genuine_addListener (hw : w.Genuine) (t : TargetId) {s : Subscription}
    (hs : s.listener.id < w.nextListener) : genuine.KeptFrom w (Act.addListener t s) := by
  unfold Contract.KeptFrom Act.addListener
  rw [Act.wp_bind, Act.wp_updateTarget]
  split
  · exact Option.some_ne_none _
  · refine ⟨World.Genuine.setTarget hw fun r hr => ?_, rfl⟩
    rcases List.mem_append.1 hr with hr | hr
    · exact hw t r hr
    · exact List.mem_singleton.1 hr ▸ hs

theorem genuine_removeListener (t : TargetId) (s : Subscription) :
    genuine.Kept (κ := κ) (Act.removeListener t s) := by
  intro w hw
  unfold Act.removeListener
  rw [Act.wp_bind, Act.wp_updateTarget]
  split
  · exact Option.some_ne_none _
  · exact ⟨World.Genuine.setTarget hw fun r hr => hw t r (List.eraseP_subset hr), rfl⟩

/-- Listeners for declared events are made where they are registered. -/
theorem genuine_subscribe (t : TargetId) (id : ComponentId) (type : ComponentType)
    (events : List EventBinding) : genuine.Kept (κ := κ) (Act.subscribe t id type events) := by
  induction events with
  | nil => exact .pure []
  | cons b rest ih =>
    unfold Act.subscribe
    cases type.findMethod b.handler with
    | none => exact ih
    | some method =>
      intro w hw
      have hmade : World.Genuine { w with nextListener := w.nextListener + 1 } :=
        fun t' r hr => Nat.lt_succ_of_lt (hw t' r hr)
      rw [Act.wp_bind, Act.wp_freshListener]
      refine (genuine_addListener hmade t (Nat.lt_succ_self _)).bind fun _ w' hw' => ?_
      exact Contract.Kept.after (ih.bind fun added => .pure _) hw'

theorem genuine_bindAll (h : HostId) (id : ComponentId) (c : Component) (s : Subscriptions) :
    genuine.Kept (Setting.bindAll ⟨host, user⟩ h id c s) := by
  refine (Contract.presentTarget h).bind fun present => ?_
  cases present with
  | none => exact .pure _
  | some t =>
    cases hb : s.bound with
    | true => exact .pure _
    | false => exact (genuine_subscribe t id _ _).bind fun _ => .pure _

theorem genuine_unbindAll (h : HostId) (s : Subscriptions) :
    genuine.Kept (Setting.unbindAll ⟨host, user⟩ h s) := by
  refine (Contract.presentTarget h).bind fun present => ?_
  cases present with
  | none => exact .pure _
  | some t => exact Contract.Kept.bind (.forM (genuine_removeListener t)) fun _ => .pure _

theorem genuine_withSubscriptions (id : ComponentId) (c : Component)
    {body : Subscriptions → Act κ (α × Subscriptions)} (h : ∀ s, genuine.Kept (body s)) :
    genuine.Kept (Act.withSubscriptions id c body) := by
  refine genuine_lend _ _ (.get_bind fun w => (h _).bind fun ⟨a, s⟩ => ?_)
  refine Contract.Kept.bind (genuine_of_eq fun w => ?_) fun _ => .pure a
  rw [Act.updateComponent, Act.wp_modify]
  cases w.components.get? id with
  | none => exact ⟨rfl, rfl, rfl⟩
  | some c => exact ⟨rfl, rfl, rfl⟩

theorem genuine_recorded (o : Occurrence κ) : genuine.Kept (Act.record o) :=
  genuine_of_eq fun _ => ⟨rfl, rfl, rfl⟩

theorem genuine_init (id : ComponentId) (c : Component) :
    genuine.Kept (Setting.init ⟨host, user⟩ id c) := by
  refine (genuine_withSubscriptions id c (genuine_bindAll c.host id c)).bind fun bound => ?_
  cases bound with
  | error e => exact .pure _
  | ok _ => exact (genuine_recorded _).bind fun _ => .pure _

theorem genuine_beforeRemove (id : ComponentId) (c : Component) :
    genuine.Kept (Setting.beforeRemove ⟨host, user⟩ id c) :=
  (genuine_withSubscriptions id c (genuine_unbindAll c.host)).bind fun removed =>
    (genuine_recorded _).bind fun _ => .pure removed

theorem genuine_living : genuine.Living (κ := κ) where
  toHandling := genuine_hearing.handling
  toRunning := { genuine_hearing.attending with idle := fun _ => genuine_recorded _ }
  discard := genuine_hearing.discard
  freshComponent _ := genuine_of_eq fun _ => ⟨rfl, rfl, rfl⟩

theorem genuine_steady : genuine.Steady (κ := κ) host where
  toClearing := genuine_hearing.clearing
  freshListener _ _ hw := ⟨fun t r hr => Nat.lt_succ_of_lt (hw t r hr), rfl⟩
  bind id := genuine_hearing.attending.withComponent id fun c => genuine_init id c
  unbind id := genuine_hearing.attending.withComponent id fun c => genuine_beforeRemove id c
  placed hw := ⟨hw, rfl⟩
  switched hw t _ := ⟨World.Genuine.setTarget hw fun r hr =>
    hw t r (EventTarget.listeners_switch .. ▸ hr), rfl⟩
  create := genuine_living.create
  mount h type node as := genuine_living.mount_of h type node as genuine_init
  unmount id := genuine_hearing.attending.withComponent id fun c =>
    genuine_hearing.clearing.unmount_of id c (genuine_beforeRemove id c)
  bindHandle := genuine_hearing.handling.bindHandle
  release := genuine_hearing.handling.release

/-- Every operation registers only listeners that were made, unless it is given another one. -/
theorem genuine_guarded (host : HostId → Host) :
    Contract.Guarded (fun _ => genuine (κ := κ)) host fun _ => World.Forges where
  opened _ := {
    exhausted := Option.some_ne_none _
    memory := fun hw _ => ⟨hw, rfl⟩
    note := fun hw _ => ⟨hw, rfl⟩ }
  perform user hu who op w hw hop := by
    have hattending := genuine_hearing (κ := κ).attending
    by_cases hr : op.Resolves
    · exact (genuine_hearing.filing.resolving.answering hattending).perform hu.keptBy hr w hw
    · cases op with
      | add t s => exact genuine_addListener hw t (Nat.lt_of_not_le hop)
      | removeListener t s => exact genuine_removeListener t s w hw
      | bindTo id h s => exact hattending.withComponent id (fun c => genuine_bindAll h id c s) w hw
      | unbindFrom id h s =>
        exact hattending.withComponent id (fun _ => genuine_unbindAll h s) w hw
      | update id node =>
        exact hattending.withComponent id (fun c => genuine_hearing.clearing.update id c node
          (genuine_hearing.swapNode id c node)) w hw
      | _ => exact genuine_steady.perform hu.keptBy hr id (fun _ _ => nofun) w hw

/-! ## A new component -/

/-- The subscriptions of a component that is initialized for the first time. -/
structure World.Subscribes (w : World κ) (host : Host) (i : ComponentId) (c : Component)
    (added : List Subscription) (w' : World κ) : Prop where
  /-- Without global events nothing is registered. -/
  absent : w.presentTarget host = none → added = [] ∧ w'.targets = w.targets
  /-- With them there is a new listener for each declared event. -/
  present : ∀ t, w.presentTarget host = some t →
    w'.target t = { w.target t with listeners := (w.target t).listeners ++ added } ∧
    (∀ t', t' ≠ t → w'.target t' = w.target t') ∧
    added.map Subscription.event = c.metadata.events.map EventBinding.event ∧
    added.map Subscription.call = c.calls i
  apart : (added.map fun s => s.listener.id).Nodup ∧
    ∀ s ∈ added, ∀ t, ∀ r ∈ (w.target t).listeners, r.listener.id ≠ s.listener.id

/-- A component that is new is not refused. -/
theorem Initialized.fresh {i : ComponentId} {c : Component} {r : Except Error Unit}
    (h : Initialized host i c w r v) (hw : w.Genuine) (hs : c.subscriptions = ∅)
    (hself : w.setSubscriptions i c ∅ = w) :
    r = .ok () ∧ ∃ added, w.Subscribes (host c.host) i c added v ∧
      v = { w.setSubscriptions i c ⟨(w.presentTarget (host c.host)).isSome, added⟩ with
        targets := v.targets, nextListener := v.nextListener, record := v.record } := by
  cases h with
  | absent hp =>
    refine ⟨rfl, [], ⟨fun _ => ⟨rfl, rfl⟩, fun t ht => ?_, List.nodup_nil, nofun⟩, ?_⟩
    · cases hp.symm.trans ht
    · rw [hp]
      conv => lhs; rw [← hself]
      rfl
  | refused t hp hb =>
    rw [hs] at hb
    cases hb
  | bound t hp hb added w₁ hr hcalls =>
    refine ⟨rfl, added, ⟨fun hnone => ?_, fun t' ht' => ?_, hr.nodup, fun s hs t' r hr' => ?_⟩, ?_⟩
    · cases hp.symm.trans hnone
    · obtain rfl := Option.some.inj (hp.symm.trans ht')
      exact ⟨hr.target, hr.others, hr.events, hcalls⟩
    · have hlt := hw t' r hr'
      have hge := (hr.mem_ids hs).1
      omega
    · rw [hp, World.setSubscriptions, World.setComponent, hr.rest]
      rfl

/-! ## The variable -/

theorem World.settled_pin {i j : ComponentId} (hi : w.holds i = true) :
    (w.pin i).settled j = (w.settled j).pin i := by
  by_cases hj : j = i
  · subst hj
    have hpin : (w.pin j).holds j = true := by simp [World.holds, World.pin]
    rw [World.settled, World.settled, if_pos hpin, if_pos hi]
  · have hholds : (w.pin i).holds j = w.holds j := by
      simp [World.holds, World.pin, hj]
    unfold World.settled
    rw [hholds]
    split
    · rfl
    · rw [show (w.pin i).components = w.components from rfl]
      cases w.components.get? j <;> rfl

theorem World.handles_settled (w : World κ) (j : ComponentId) :
    (w.settled j).handles = w.handles := by
  unfold World.settled
  split
  · rfl
  · cases w.components.get? j <;> rfl

theorem World.handles_vacated (w : World κ) (o : Option ComponentId) :
    (w.vacated o).handles = w.handles := by
  cases o with
  | none => rfl
  | some j => exact w.handles_settled j

/-- Once a component is in a variable, it makes no difference that the operation holds it. -/
theorem Act.wp_pinned_bindHandle {E : Option Halt → Prop} {Q : α → World κ → Prop}
    (hfree : ∀ h, w.conflicts (.entries h) .write = false) (as : Handle) (i : ComponentId) (x : α) :
    Wp E (pinned i do bindHandle as i; return x) Q w ↔ Q x (w.rebound as i) := by
  let bound : World κ := { w with handles := w.handles.insert as i }
  have hbound : bound.holds i = true :=
    World.holds_of_inVariable ⟨as, Dict.get?_insert_self ..⟩
  have hpin : World.vacated { w.pin i with handles := (w.pin i).handles.insert as i }
      ((w.pin i).handles.get? as) = (w.rebound as i).pin i := by
    change (bound.pin i).vacated (w.handles.get? as) = (bound.vacated (w.handles.get? as)).pin i
    cases w.handles.get? as with
    | none => rfl
    | some j => exact World.settled_pin hbound
  have hheld : (w.rebound as i).holds i = true := by
    refine World.holds_of_inVariable ⟨as, ?_⟩
    rw [World.rebound, World.handles_vacated]
    exact Dict.get?_insert_self ..
  rw [wp_pinned, wp_bind, wp_bindHandle_free as i (by exact hfree), hpin, wp_pure]
  change (settle i).Wp _ _ (w.rebound as i) ↔ _
  rw [wp_settle, if_pos hheld]

/-! ## Errors of building -/

/-- A call is refused for its verb, its arguments or a class. -/
theorem Call.fault_ne_alreadyBound {v : Vocabulary} {c : Call Class} {e : Error}
    (h : c.fault v = some e) (name : String) : e ≠ .alreadyBound name := by
  have text : ∀ {a : Argument Class}, a.textFault c.verb = some e → e ≠ .alreadyBound name := by
    rintro (_ | cls) ha rfl
    · cases ha
    · cases ha
  have cls : ∀ {capability} {a : Argument Class}, a.classFault capability = some e →
      e ≠ .alreadyBound name := by
    rintro capability (_ | cls) ha rfl
    · cases ha
    · simp [Argument.classFault] at ha
  unfold Call.fault at h
  split at h
  · cases h
    exact fun he => by cases he
  split at h
  · obtain ⟨a, -, ha⟩ := List.exists_of_findSome?_eq_some h
    exact cls ha
  split at h
  · cases h
    exact fun he => by cases he
  split at h
  · obtain ⟨a, -, ha⟩ := List.exists_of_findSome?_eq_some h
    exact cls ha
  · obtain ⟨a, -, ha⟩ := List.exists_of_findSome?_eq_some h
    exact text ha

theorem ComponentType.build_ne_alreadyBound {type : ComponentType} {e : Error}
    (h : type.build.result = .error e) (name : String) : e ≠ .alreadyBound name := by
  cases outcome_iff.2 h with
  | refused calls valid fault => exact Call.fault_ne_alreadyBound fault name
  | _ => nofun

/-! ## Mounting -/

namespace Setting

variable (h : HostId) {type : ComponentType} (node : Node) (as : Handle)

/-- Where the metadata cannot be built, nothing but its definers is run. -/
theorem run_mount_error {e : Error} (hb : type.build.result = .error e) :
    (mount ⟨host, user⟩ h type node as).run w = .ok (.error e, w.ran type) := by
  refine Act.run_of_wp (Act.wp_step (Act.run_buildType w type) ?_)
  rw [hb]
  exact ⟨rfl, rfl⟩

section

variable {metadata : Metadata} (hb : type.build.result = .ok metadata) (hw : w.Genuine)
  (hl : ∀ l ∈ w.loans, OfNode l)
include hb hw hl

variable (host user) in
/-- While the operation holds the component that it has made, the events are bound. -/
theorem run_init_new :
    let c : Component := { type, metadata, host := h, node }
    ∃ v added,
      (init ⟨host, user⟩ w.nextComponent c).run
          (((w.ran type).withComponent c).pin w.nextComponent) =
        .ok (.ok (), v.pin w.nextComponent) ∧
      w.Subscribes (host h) w.nextComponent c added v ∧
      v = { w with
        components := w.components.insert w.nextComponent
          { c with subscriptions := ⟨(w.presentTarget (host h)).isSome, added⟩ }
        nextComponent := w.nextComponent + 1
        targets := v.targets
        nextListener := v.nextListener
        record := v.record } := by
  intro c
  let made : World κ := ((w.ran type).withComponent c).pin w.nextComponent
  have hc : made.components.get? w.nextComponent = some c := Dict.get?_insert_self ..
  have hself : made.setSubscriptions w.nextComponent c ∅ = made := by
    change ({ made with components := made.components.insert w.nextComponent c } : World κ) = made
    have hinsert : made.components.insert w.nextComponent c = made.components :=
      Dict.insert_insert ..
    rw [hinsert]
  have hconsistent : c.Consistent := ⟨hb, fun _ => rfl, nofun, List.nodup_nil⟩
  have hwp : (init ⟨host, user⟩ w.nextComponent c).Wp (fun _ => False)
      (fun r w' => Initialized host w.nextComponent c made r w') made :=
    wp_init_of hl hc hconsistent hself
  obtain ⟨r, bound, hrun, hinit⟩ := hwp.run_eq
  obtain ⟨rfl, added, hsub, hbound⟩ := hinit.fresh (w := made) hw rfl hself
  -- this is how the world is left, except that the operation holds the component
  let v : World κ := { w with
    components := w.components.insert w.nextComponent
      { c with subscriptions := ⟨(w.presentTarget (host h)).isSome, added⟩ }
    nextComponent := w.nextComponent + 1
    targets := bound.targets
    nextListener := bound.nextListener
    record := bound.record }
  have hset : made.setSubscriptions w.nextComponent c
      ⟨(made.presentTarget (host c.host)).isSome, added⟩ =
        ({ made with components := v.components } : World κ) := by
    have hinsert : (made.setSubscriptions w.nextComponent c
        ⟨(made.presentTarget (host c.host)).isSome, added⟩).components = v.components :=
      Dict.insert_insert ..
    rw [← hinsert]
    rfl
  have hv : bound = v.pin w.nextComponent := by
    rw [hset] at hbound
    rw [hbound]
    rfl
  exact ⟨v, added, hv ▸ hrun, ⟨hsub.absent, hsub.present, hsub.apart⟩, rfl⟩

/-- Where it can be built, the component is made and its events are bound. -/
theorem run_mount_ok :
    ∃ v added,
      (mount ⟨host, user⟩ h type node as).run w =
        .ok (.ok w.nextComponent, v.rebound as w.nextComponent) ∧
      w.Subscribes (host h) w.nextComponent { type, metadata, host := h, node } added v ∧
      v = { w with
        components := w.components.insert w.nextComponent
          { type, metadata, host := h, node,
            subscriptions := ⟨(w.presentTarget (host h)).isSome, added⟩ }
        nextComponent := w.nextComponent + 1
        targets := v.targets
        nextListener := v.nextListener
        record := v.record } := by
  obtain ⟨v, added, hrun, hsub, hv⟩ := run_init_new host user h node hb hw hl
  let told : World κ := { v with record := .mounted w.nextComponent :: v.record }
  have hsame : v.loans = w.loans := by rw [hv]
  have hloans : ∀ l ∈ told.loans, OfNode l := fun l hmem => hl l (hsame ▸ hmem)
  refine ⟨told, added, ?_, ⟨hsub.absent, hsub.present, hsub.apart⟩, ?_⟩
  · refine Act.run_of_wp (Act.wp_step (Act.run_buildType w type) ?_)
    rw [hb]
    refine Act.wp_step (Act.run_freshComponent _ { type, metadata, host := h, node })
      ((Act.wp_pinned ..).2 (Act.wp_step hrun ?_))
    exact (Act.wp_pinned ..).1 ((Act.wp_pinned_bindHandle (free_entries hloans · _) as
      w.nextComponent _).2 ⟨rfl, rfl⟩)
  · change ({ v with record := .mounted w.nextComponent :: v.record } : World κ) = _
    rw [hv]

end

end Setting

/-- **Mounting is all or nothing.** In every world that a run comes to, from the outside or by code
that is called meanwhile, whatever it does with components and listeners: mounting fails exactly
where the metadata of the type cannot be built, with the error of that, which is never that the
events are bound already. Then nothing has happened but that definers were run.

Otherwise there is a component more, with a new identity and the metadata, and what is stored for
the nodes of any host is as it was. If there are global events the component is bound: its target
has got a listener for each declared event, after those that it had, in the order of the
declarations, each calling the method that handles the event, and each different from all that are
registered anywhere; other targets are as they were. If there are none, no target has changed and
the component is not bound. All that is left to do is to put the component into its variable. -/
theorem mount_all_or_nothing (app : Application κ) (prog : Program κ α)
    {targets : Dict TargetId EventTarget} (memory : κ.Memory)
    (hempty : ∀ t target, targets.get? t = some target → target.listeners = []) {v : World κ}
    (hv : app.ReachesWithout (fun _ => World.Forges) prog (World.start targets memory) v)
    (user : Callbacks (Act κ)) (h : HostId) (type : ComponentType) (node : Node) (as : Handle) :
    (∀ e, type.build.result = .error e →
      (∀ name, e ≠ .alreadyBound name) ∧
      (Setting.mount ⟨app.host, user⟩ h type node as).run v =
        .ok (.error e, { v with record := (type.build.ran.map .defined).reverse ++ v.record })) ∧
    ∀ metadata, type.build.result = .ok metadata →
      v.components.get? v.nextComponent = none ∧
      ∃ w added,
        (Setting.mount ⟨app.host, user⟩ h type node as).run v =
          .ok (.ok v.nextComponent, w.rebound as v.nextComponent) ∧
        v.Subscribes (app.host h) v.nextComponent { type, metadata, host := h, node } added w ∧
        w = { v with
          components := v.components.insert v.nextComponent
            { type, metadata, host := h, node,
              subscriptions := ⟨(v.presentTarget (app.host h)).isSome, added⟩ }
          nextComponent := v.nextComponent + 1
          targets := w.targets
          nextListener := w.nextListener
          record := w.record } := by
  have hgenuine : v.Genuine := (genuine_guarded app.host).inv_of_reaches_one (fun hs => hs rfl)
    (fun t r hr => by rw [World.listeners_start hempty] at hr; cases hr) hv
  have hl : ∀ l ∈ v.loans, OfNode l := ((lending_sound app.host).guarded
    (q := fun _ => World.Forges) fun _ _ _ _ => trivial).inv_of_reaches_one (fun hs => hs rfl)
    (fun _ hl => by cases hl) hv
  have hten : Tenure none v := ((tenure_sound app.host).guarded
    (q := fun _ => World.Forges) fun _ _ _ _ => trivial).inv_of_reaches_one (fun hs => hs rfl)
    (tenure_start targets memory) hv
  refine ⟨fun e hb => ⟨ComponentType.build_ne_alreadyBound hb, Setting.run_mount_error h node as hb⟩,
    fun metadata hb => ⟨?_, Setting.run_mount_ok h node as hb hgenuine hl⟩⟩
  cases hc : v.components.get? v.nextComponent with
  | none => rfl
  | some c => exact absurd (hten.numbered _ _ (World.location_of_get? hc)) (Nat.lt_irrefl _)

/-- A second component of a type with an event gets a listener of its own. -/
theorem mount_all_or_nothing_ticker :
    ∃ (v w : World ⟨Unit, Empty⟩) (added : List Subscription),
      Ticker.application.ReachesWithout (fun _ => World.Forges) Ticker.program
        (World.start ∅ ()) v ∧
      (v.target 0).listeners.length = 1 ∧
      (Setting.mount ⟨Ticker.application.host, Callbacks.idle⟩ 0 Ticker.type ⟨1, ∅⟩
        ⟨0, "second"⟩).run v = .ok (.ok 1, w.rebound ⟨0, "second"⟩ 1) ∧
      (w.target 0).listeners = (v.target 0).listeners ++ added ∧
      added.map Subscription.call = [("tick", .method 1 ⟨0, "onTick"⟩)] := by
  let v : World ⟨Unit, Empty⟩ := Ticker.application.worldAfter 1 Ticker.program (World.start ∅ ())
  have hrun : (Ticker.application.exec 1 Ticker.program).run (World.start ∅ ()) = .ok ((), v) :=
    Application.run_eq_worldAfter (by decide +kernel)
  have hnext : v.nextComponent = 1 := by decide +kernel
  have hone : (v.target 0).listeners.length = 1 := by decide +kernel
  have hpresent : v.presentTarget (Ticker.application.host 0) = some 0 := by decide +kernel
  have hcode : Ticker.application.code.UsesEach fun _ => Op.Managed :=
    ⟨fun _ _ => trivial, fun _ => trivial, fun _ _ => trivial, fun _ _ _ => trivial,
      fun _ _ => trivial⟩
  have hmanaged : ∀ (_ : Caller) (u : World ⟨Unit, Empty⟩) op, Op.Managed op → ¬u.Forges op :=
    fun _ u op hop hf => by
      cases op with
      | add => exact hop
      | _ => exact hf
  have hprog : Ticker.program.Uses Op.Managed := ⟨trivial, fun _ => trivial⟩
  have hv : Ticker.application.ReachesWithout (fun _ => World.Forges) Ticker.program
      (World.start ∅ ()) v := .of_uses hmanaged hcode hprog (Application.reaches_of_exec hrun)
  obtain ⟨metadata, hbuilt, hevents⟩ : ∃ m, Ticker.type.build.result = .ok m ∧
      m.events = [⟨"tick", "onTick"⟩] := ⟨_, rfl, rfl⟩
  clear_value v
  obtain ⟨-, w, added, hmount, hsub, -⟩ := (mount_all_or_nothing Ticker.application Ticker.program
    () (fun _ _ h => by cases h) hv Callbacks.idle 0 Ticker.type ⟨1, ∅⟩ ⟨0, "second"⟩).2 metadata
    hbuilt
  rw [hnext] at hmount hsub
  obtain ⟨htarget, -, -, hcalls⟩ := hsub.present 0 hpresent
  refine ⟨v, w, added, hv, hone, hmount, congrArg EventTarget.listeners htarget, hcalls.trans ?_⟩
  rw [Component.calls, hevents]
  rfl

end LayeredViews
