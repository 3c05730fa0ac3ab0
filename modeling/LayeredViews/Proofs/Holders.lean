import LayeredViews.Proofs.Tenure

/-!
# Whoever is held exists

A component is dropped when nobody holds it any more, and no operation takes hold of one that does
not exist. So variables and operations under way hold components that exist.

* `World.Rooted`: every component that somebody holds exists.
* `rooted`: this as a contract. Every operation keeps it (`rooted_sound`), so it holds in every
  world that a run comes to (`rooted_of_reaches`).
-/

namespace LayeredViews

variable {κ : Client} {α : Type} {host : HostId → Host} {user : Callbacks (Act κ)}
  {w w' : World κ} {i : ComponentId}

/-- Every component that a variable or an operation holds exists. -/
def World.Rooted (w : World κ) : Prop :=
  ∀ i, w.InVariable i ∨ i ∈ w.pins → ∃ p, w.location i = some p

namespace World.Rooted

/-- The same are held, or fewer, and what exists still does. -/
theorem keep (hw : w.Rooted) (hh : w'.handles = w.handles) (hp : ∀ j ∈ w'.pins, j ∈ w.pins)
    (hl : ∀ j p, w.location j = some p → ∃ p', w'.location j = some p') : w'.Rooted := by
  intro j hj
  rw [World.InVariable, hh] at hj
  obtain ⟨p, hp⟩ := hw j (hj.imp_right (hp j))
  exact hl j p hp

/-- A component that is dropped is not held. -/
theorem without (hw : w.Rooted) (hi : w.holds i = false) (h : HostId)
    (selection : Cache.Selection) (cause : Cause) :
    ((w.withoutComponent i).discarded h selection cause).Rooted := by
  intro j hj
  obtain ⟨p, hp⟩ := hw j hj
  have hne : j ≠ i := by
    rintro rfl
    rcases hj with hvariable | hpin
    · exact Bool.noConfusion (hi.symm.trans (World.holds_of_inVariable hvariable))
    · simp [World.holds] at hi
      exact hi.2 hpin
  exact ⟨p, (World.location_withoutComponent ..).trans ((if_neg hne).trans hp)⟩

theorem withComponent (hw : w.Rooted) (c : Component) : (w.withComponent c).Rooted :=
  hw.keep rfl (fun _ => id) fun j p hj => by
    rw [World.location_withComponent]
    split
    · exact ⟨_, rfl⟩
    · exact ⟨p, hj⟩

theorem pin (hw : w.Rooted) {p : HostId × NodeId} (hi : w.location i = some p) :
    (w.pin i).Rooted := by
  rintro j (hj | hj)
  · exact hw j (.inl hj)
  · rcases List.mem_cons.1 hj with rfl | hj
    · exact ⟨p, hi⟩
    · exact hw j (.inr hj)

theorem unpin (hw : w.Rooted) : w.unpin.Rooted :=
  hw.keep rfl (fun _ => List.mem_of_mem_tail) fun _ p hp => ⟨p, hp⟩

/-- A component that exists is put into a variable. -/
theorem bound (hw : w.Rooted) (as : Handle) {p : HostId × NodeId} (hi : w.location i = some p) :
    World.Rooted { w with handles := w.handles.insert as i } := by
  rintro j (⟨x, hx⟩ | hj)
  · rw [Dict.get?_insert] at hx
    split at hx
    · exact Option.some.inj hx ▸ ⟨p, hi⟩
    · exact hw j (.inl ⟨x, hx⟩)
  · exact hw j (.inr hj)

theorem released (hw : w.Rooted) (as : Handle) :
    World.Rooted { w with handles := w.handles.erase as } := by
  rintro j (⟨x, hx⟩ | hj)
  · rw [Dict.get?_erase] at hx
    split at hx
    · cases hx
    · exact hw j (.inl ⟨x, hx⟩)
  · exact hw j (.inr hj)

end World.Rooted

/-- Every component that somebody holds exists. -/
def rooted : Contract κ := .leaving World.Rooted World.pins

theorem rooted_aloof : rooted.Aloof (κ := κ) where
  stays hw h := ⟨World.Rooted.keep hw h.handles (fun _ => h.pins ▸ id) fun j p hj =>
    ⟨p, (h.location j).trans hj⟩, h.pins⟩
  stops := Option.some_ne_none

/-- The same are held, and what exists still does. -/
theorem rooted_of_keep {a : Act κ α} (h : ∀ w, a.Wp (· ≠ none) (fun _ w' =>
      w'.handles = w.handles ∧ w'.pins = w.pins ∧
        ∀ j p, w.location j = some p → ∃ p', w'.location j = some p') w) : rooted.Kept a :=
  fun w hw => (h w).mono fun _ _ ⟨hh, hp, hl⟩ =>
    ⟨World.Rooted.keep hw hh (fun _ => hp ▸ id) hl, hp⟩

namespace Act

theorem rooted_settle (i : ComponentId) : rooted.Kept (κ := κ) (settle i) := by
  intro w hw
  exact .settle Option.some_ne_none ⟨hw, rfl⟩ fun hi _ _ => ⟨World.Rooted.without hw hi _ _ _, rfl⟩

/-- A component is held while `body` runs. -/
theorem rooted_pinned {body : Act κ α} (h : rooted.KeptFrom (w.pin i) body) :
    rooted.KeptFrom w (pinned i body) := by
  refine (wp_pinned ..).2 (h.mono fun x w' ⟨hw', hp⟩ => ?_)
  refine (rooted_settle i _ (World.Rooted.unpin hw')).mono fun _ w'' ⟨hw'', hp'⟩ => ⟨hw'', ?_⟩
  exact hp'.trans (congrArg List.tail hp)

theorem rooted_bindHandle {p : HostId × NodeId} (hw : w.Rooted) (as : Handle)
    (hi : w.location i = some p) : rooted.KeptFrom w (bindHandle as i) := by
  have hbound := hw.bound as hi
  unfold Contract.KeptFrom
  rw [wp_bindHandle]
  cases w.handles.get? as with
  | none => exact ⟨hbound, rfl⟩
  | some old => exact rooted_settle old _ hbound

theorem rooted_release (h : Handle) : rooted.Kept (κ := κ) (release h) := by
  intro w hw
  have hreleased := World.Rooted.released hw h
  rw [wp_release]
  cases w.handles.get? h with
  | none => exact ⟨hw, rfl⟩
  | some old => exact rooted_settle old _ hreleased

theorem rooted_running : rooted.Running (κ := κ) :=
  rooted_aloof.running fun i body h w hw => by
    rw [wp_withComponent]
    cases hc : w.components.get? i with
    | none => exact ⟨hw, rfl⟩
    | some c =>
      exact rooted_pinned
        (Contract.Kept.map (h c) _ (World.Rooted.pin hw (World.location_of_get? hc)))

theorem rooted_discard (h : HostId) (selection : Cache.Selection) (cause : Cause) :
    rooted.Kept (κ := κ) (discard h selection cause) :=
  rooted_of_keep fun w => by
    rw [wp_discard]
    split
    · exact Option.some_ne_none _
    · exact ⟨rfl, rfl, fun _ p hj => ⟨p, hj⟩⟩

theorem rooted_storing : rooted.Storing (κ := κ) where
  toRunning := rooted_running
  freshInstance := rooted_aloof.freshInstance
  freshList := rooted_aloof.freshList
  record _ := rooted_of_keep fun _ => ⟨rfl, rfl, fun _ p hj => ⟨p, hj⟩⟩
  updateEntry h n f := rooted_of_keep fun w => by
    rw [wp_updateEntry]
    split
    · exact Option.some_ne_none _
    · exact ⟨rfl, rfl, fun _ p hj => ⟨p, hj⟩⟩

theorem rooted_create (h : HostId) (type : ComponentType) (node : Node) (as : Handle) :
    rooted.Kept (κ := κ) (create h type node as) := by
  refine (rooted_running.buildType type).bind fun built => ?_
  cases built with
  | error e => exact .pure _
  | ok metadata =>
    intro w hw
    let c : Component := { type, metadata, host := h, node }
    rw [wp_bind, wp_freshComponent]
    have hadded : (w.withComponent c).Rooted := World.Rooted.withComponent hw c
    have hnew := (w.location_withComponent c w.nextComponent).trans (if_pos rfl)
    exact (rooted_bindHandle hadded as hnew).bind fun _ _ hend => hend

/-- A component may move: it exists as before. -/
theorem rooted_swapNode (id : ComponentId) (c : Component) (node : Node) :
    rooted.Kept (κ := κ) (swapNode id c node) := by
  refine rooted_aloof.lenient.lend _ _ (.get_bind fun w => ?_)
  refine Contract.Kept.bind (rooted_of_keep fun w => ?_) fun _ => .pure _
  rw [updateComponent, wp_modify]
  cases hc : w.components.get? id with
  | none => exact ⟨rfl, rfl, fun _ p hj => ⟨p, hj⟩⟩
  | some c' =>
    refine ⟨rfl, rfl, fun j p hj => ?_⟩
    dsimp only
    rw [World.location_setComponent]
    split
    · exact ⟨_, rfl⟩
    · exact ⟨p, hj⟩

theorem rooted_hold (id : ComponentId) (as : Handle) :
    rooted.Kept (Setting.perform ⟨host, user⟩ (.hold id as)) := by
  intro w hw
  unfold Setting.perform
  rw [wp_bind, wp_get]
  cases hc : w.components.get? id with
  | none =>
    simp only [Dict.contains, hc]
    exact ⟨hw, rfl⟩
  | some c =>
    simp only [Dict.contains, hc, Option.isSome_some]
    exact (rooted_bindHandle hw as (World.location_of_get? hc)).bind fun _ _ hend => hend

end Act

theorem Setting.rooted_mount (h : HostId) (type : ComponentType) (node : Node) (as : Handle) :
    rooted.Kept (mount ⟨host, user⟩ h type node as) := by
  refine (Act.rooted_running.buildType type).bind fun built => ?_
  cases built with
  | error e => exact .pure _
  | ok metadata =>
    intro w hw
    let c : Component := { type, metadata, host := h, node }
    rw [Act.wp_bind, Act.wp_freshComponent]
    have hadded : (w.withComponent c).Rooted := World.Rooted.withComponent hw c
    have hnew := (w.location_withComponent c w.nextComponent).trans (if_pos rfl)
    refine Act.rooted_pinned ?_
    refine (rooted_aloof.subscribing.init _ _ _ (hadded.pin hnew)).bind fun bound w' hw' => ?_
    cases bound with
    | error e => exact hw'
    | ok _ =>
      -- the component exists while the operation holds it
      have hmem : w.nextComponent ∈ w'.pins := by
        rw [show w'.pins = _ from hw'.2]
        exact List.mem_cons_self
      obtain ⟨p, hp⟩ := hw'.1 _ (.inr hmem)
      have hrecorded : World.Rooted { w' with record := .mounted w.nextComponent :: w'.record } :=
        World.Rooted.keep hw'.1 rfl (fun _ => id) fun _ p hj => ⟨p, hj⟩
      refine (Act.wp_bind _ _).2 ((Act.wp_record _).2 ?_)
      exact (Act.rooted_bindHandle hrecorded as hp).bind fun _ w'' ⟨hw'', hpins⟩ =>
        ⟨hw'', hpins.trans hw'.2⟩

/-- Every operation keeps the contract. -/
theorem rooted_sound (host : HostId → Host) : rooted.Sound (κ := κ) host fun _ => True where
  toOpen := rooted_aloof.toOpen
  perform user hu op _ := by
    have hrunning : rooted.Running (κ := κ) := Act.rooted_running
    have hclearing : rooted.Clearing (κ := κ) := { hrunning with discard := Act.rooted_discard }
    have hserving : rooted.Serving (κ := κ) host := rooted_aloof.serving hrunning
      (Act.rooted_storing.resolving.answering hrunning.toAttending)
    cases op with
    | create h type node as => exact Act.rooted_create h type node as
    | mount h type node as => exact Setting.rooted_mount h type node as
    | update id node =>
      exact hrunning.withComponent id fun c => hclearing.update id c node
        (Act.rooted_swapNode id c node)
    | remove id => exact hrunning.withComponent id fun c => hclearing.remove id c
    | unmount id =>
      exact hrunning.withComponent id fun c =>
        hclearing.unmount_of id c (hserving.beforeRemove id c)
    | hold id as => exact Act.rooted_hold id as
    | release h => exact Act.rooted_release h
    | reload h selection => exact Act.rooted_discard h selection _
    | _ => exact hserving.perform hu id

theorem rooted_start (targets : Dict TargetId EventTarget) (memory : κ.Memory) :
    (World.start targets memory).Rooted := by
  rintro i (⟨x, hx⟩ | hi)
  · cases hx
  · cases hi

/-- While an application runs, whoever holds a component holds one that exists. -/
theorem rooted_of_reaches (app : Application κ) (prog : Program κ α)
    (targets : Dict TargetId EventTarget) (memory : κ.Memory) {w : World κ}
    (h : app.Reaches prog (World.start targets memory) w) : w.Rooted :=
  Contract.inv_of_reaches (rooted_sound app.host) (fun hs => hs rfl)
    (Callbacks.uses_of_forall (fun _ => trivial) app.code)
    (Program.uses_of_forall (fun _ => trivial) prog) (rooted_start targets memory) h

end LayeredViews
