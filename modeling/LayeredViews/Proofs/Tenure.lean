import LayeredViews.Proofs.Calls
import LayeredViews.Proofs.Entries
import LayeredViews.Proofs.Staying

/-!
# Components exist as long as they are held

A component is dropped when the last of those who hold it lets it go: a variable of the application,
or an operation under way.

* `World.InVariable`: a variable of the application holds the component.
* `Tenure`: every component that exists is held, but perhaps for one that is about to be let go
  (`Act.wp_settle_tenure`).
* `tenure`: the contract that every component that exists is held. Every operation keeps it
  (`tenure_sound`), so it holds in every world that a run comes to (`tenure_of_reaches`); where a
  run ends, variables hold all components (`inVariable_of_exec`).
-/

namespace LayeredViews

variable {κ : Client} {α : Type}

instance : Std.Irrefl fun a b : Handle => a < b where
  irrefl a h := by
    rcases h with h | ⟨-, h⟩
    · exact Nat.lt_irrefl _ h
    · exact String.lt_irrefl _ h

instance : Std.Trichotomous fun a b : Handle => a < b where
  trichotomous a b hab hba := by
    obtain ⟨l, s⟩ := a
    obtain ⟨l', s'⟩ := b
    have hl : l = l' := by
      have : ¬l < l' := fun h => hab (.inl h)
      have : ¬l' < l := fun h => hba (.inl h)
      omega
    subst hl
    have hs : s = s' := String.le_antisymm (String.not_lt.1 fun h => hba (.inr ⟨rfl, h⟩))
      (String.not_lt.1 fun h => hab (.inr ⟨rfl, h⟩))
    rw [hs]

instance : Trans (fun a b : Handle => a < b) (fun a b : Handle => a < b)
    (fun a b : Handle => a < b) where
  trans {a b c} hab hbc := by
    rcases hab with hab | ⟨hl, hab⟩
    · exact .inl (hbc.elim (Nat.lt_trans hab) fun h => h.1 ▸ hab)
    · rcases hbc with hbc | ⟨hl', hbc⟩
      · exact .inl (hl ▸ hbc)
      · exact .inr ⟨hl.trans hl', String.lt_trans hab hbc⟩

/-- A variable of the application holds the component. -/
def World.InVariable (w : World κ) (i : ComponentId) : Prop := ∃ h, w.handles.get? h = some i

theorem World.holds_of_inVariable {w : World κ} {i : ComponentId} (h : w.InVariable i) :
    w.holds i = true := by
  obtain ⟨h, hi⟩ := h
  simp [holds, Dict.mem_values_of_get? hi]

/-- What exists is held, except perhaps for `loose`. -/
structure Tenure (loose : Option ComponentId) (w : World κ) : Prop where
  sorted : w.handles.Sorted
  numbered : w.Numbered
  held : ∀ i p, w.location i = some p → some i ≠ loose → w.InVariable i ∨ i ∈ w.pins

namespace Tenure

variable {w w' : World κ} {i : ComponentId} {loose : Option ComponentId}

theorem loosen (hw : Tenure none w) (i : ComponentId) : Tenure (some i) w where
  sorted := hw.sorted
  numbered := hw.numbered
  held j p hj _ := hw.held j p hj nofun

/-- The loose component is held after all, or it does not exist. -/
theorem tighten (hw : Tenure (some i) w)
    (h : ∀ p, w.location i = some p → w.InVariable i ∨ i ∈ w.pins) : Tenure none w where
  sorted := hw.sorted
  numbered := hw.numbered
  held j p hj _ := by
    by_cases hji : j = i
    · exact hji ▸ h p (hji ▸ hj)
    · exact hw.held j p hj fun he => hji (Option.some.inj he)

theorem inVariable_of_holds (hw : Tenure loose w) (h : w.holds i = true) :
    w.InVariable i ∨ i ∈ w.pins := by
  rw [World.holds, Bool.or_eq_true, List.contains_iff_mem, List.contains_iff_mem] at h
  exact h.imp_left hw.sorted.exists_get?

/-- The same components are held by the same. -/
theorem keep (hw : Tenure loose w) (hh : w'.handles = w.handles) (hp : w'.pins = w.pins)
    (hn : w'.nextComponent = w.nextComponent)
    (hl : ∀ i p, w'.location i = some p → ∃ p', w.location i = some p') : Tenure loose w' where
  sorted := hh ▸ hw.sorted
  numbered := hw.numbered.of_location hn hl
  held i p hi hne := by
    obtain ⟨p', hi'⟩ := hl i p hi
    rw [World.InVariable, hh, hp]
    exact hw.held i p' hi' hne

/-- A component that is dropped need not be held. -/
theorem without (hw : Tenure (some i) w) (h : HostId) (selection : Cache.Selection)
    (cause : Cause) : Tenure none ((w.withoutComponent i).discarded h selection cause) := by
  have hkept : Tenure (some i) ((w.withoutComponent i).discarded h selection cause) :=
    hw.keep rfl rfl rfl fun _ p hj => ⟨p, World.location_of_withoutComponent hj⟩
  refine hkept.tighten fun p hp => ?_
  have hnone : (w.withoutComponent i).location i = none := by
    rw [World.location_withoutComponent, if_pos rfl]
  cases hnone.symm.trans hp

theorem withComponent (hw : Tenure none w) (c : Component) :
    Tenure (some w.nextComponent) (w.withComponent c) where
  sorted := hw.sorted
  numbered := hw.numbered.withComponent c
  held j p hj hne := by
    rw [World.location_withComponent, if_neg fun he => hne (congrArg some he)] at hj
    exact hw.held j p hj nofun

/-- A variable that holds the loose component lets go of the one that it held. -/
theorem bound (hw : Tenure (some i) w) (as : Handle) :
    Tenure (w.handles.get? as) { w with handles := w.handles.insert as i } where
  sorted := hw.sorted.insert as i
  numbered := hw.numbered
  held j p hj hne := by
    by_cases hji : j = i
    · exact .inl ⟨as, by rw [Dict.get?_insert_self, hji]⟩
    · refine (hw.held j p hj fun he => hji (Option.some.inj he)).imp_left fun ⟨h, hh⟩ => ⟨h, ?_⟩
      have has : h ≠ as := fun he => hne (he ▸ hh.symm)
      rw [Dict.get?_insert_of_ne _ _ has, hh]

theorem released (hw : Tenure none w) (as : Handle) :
    Tenure (w.handles.get? as) { w with handles := w.handles.erase as } where
  sorted := hw.sorted.erase as
  numbered := hw.numbered
  held j p hj hne := by
    refine (hw.held j p hj nofun).imp_left fun ⟨h, hh⟩ => ⟨h, ?_⟩
    have has : h ≠ as := fun he => hne (he ▸ hh.symm)
    rw [Dict.get?_erase, if_neg has, hh]

theorem pin (hw : Tenure (some i) w) : Tenure none (w.pin i) :=
  Tenure.tighten (i := i) ⟨hw.sorted, hw.numbered, fun j p hj hne =>
    (hw.held j p hj hne).imp_right (List.mem_cons_of_mem i)⟩ fun _ _ => .inr List.mem_cons_self

theorem unpin (hw : Tenure none w) {pins : List ComponentId} (hp : w.pins = i :: pins) :
    Tenure (some i) w.unpin where
  sorted := hw.sorted
  numbered := hw.numbered
  held j p hj hne := by
    refine (hw.held j p hj nofun).imp_right fun hmem => ?_
    rw [hp] at hmem
    have hj : j ∈ pins := (List.mem_cons.1 hmem).resolve_left fun he => hne (congrArg some he)
    rw [World.unpin, hp]
    exact hj

end Tenure

/-- Every component that exists is held. -/
def tenure : Contract κ :=
  .leaving (Tenure none) World.pins

/-- The same components are held by the same. -/
theorem tenure_of_keep {a : Act κ α} (h : ∀ w, a.Wp (· ≠ none) (fun _ w' =>
      w'.handles = w.handles ∧ w'.pins = w.pins ∧ w'.nextComponent = w.nextComponent ∧
        ∀ i p, w'.location i = some p → ∃ p', w.location i = some p') w) : tenure.Kept a :=
  fun w hw => (h w).mono fun _ _ ⟨hh, hp, hn, hl⟩ => ⟨hw.keep hh hp hn hl, hp⟩

theorem tenure_aloof : tenure.Aloof (κ := κ) where
  stays hw h :=
    ⟨hw.keep h.handles h.pins h.nextComponent fun i p hi => ⟨p, h.location i ▸ hi⟩, h.pins⟩
  stops := Option.some_ne_none

namespace Act

variable {w : World κ} {i : ComponentId}

/-- A loose component is dropped unless it is held. -/
theorem wp_settle_tenure (hw : Tenure (some i) w) :
    (settle i).Wp (· ≠ none) (fun _ w' => Tenure none w' ∧ w'.pins = w.pins) w := by
  rw [wp_settle]
  split
  · next hh => exact ⟨hw.tighten fun _ _ => hw.inVariable_of_holds hh, rfl⟩
  · cases hc : w.components.get? i with
    | none =>
      refine ⟨hw.tighten fun p hp => ?_, rfl⟩
      rw [World.location, hc] at hp
      cases hp
    | some c =>
      dsimp only
      split
      · simp
      · exact ⟨hw.without _ _ _, rfl⟩

/-- A component that is held while `body` runs may be loose before and after. -/
theorem wp_pinned_tenure (hw : Tenure (some i) w) {body : Act κ α} (h : tenure.Kept body) :
    (pinned i body).Wp (· ≠ none) (fun _ w' => Tenure none w' ∧ w'.pins = w.pins) w := by
  rw [wp_pinned]
  refine (h _ hw.pin).mono fun x w' ⟨hw', hp⟩ => ?_
  refine (wp_settle_tenure (hw'.unpin hp)).mono fun _ w'' ⟨hw'', hp'⟩ => ⟨hw'', hp'.trans ?_⟩
  rw [World.unpin, hp]
  rfl

theorem wp_bindHandle_tenure (hw : Tenure (some i) w) (as : Handle) :
    (bindHandle as i).Wp (· ≠ none) (fun _ w' => Tenure none w' ∧ w'.pins = w.pins) w := by
  have hbound := hw.bound as
  rw [wp_bindHandle]
  cases ho : w.handles.get? as with
  | none => exact ⟨ho ▸ hbound, rfl⟩
  | some old => exact wp_settle_tenure (ho ▸ hbound)

theorem tenure_release (h : Handle) : tenure.Kept (κ := κ) (release h) := by
  intro w hw
  have hreleased := hw.released h
  rw [wp_release]
  cases ho : w.handles.get? h with
  | none => exact ⟨hw, rfl⟩
  | some old => exact wp_settle_tenure (ho ▸ hreleased)

theorem tenure_running : tenure.Running (κ := κ) :=
  tenure_aloof.running fun i body h w hw => by
    rw [wp_withComponent]
    cases w.components.get? i with
    | none => exact ⟨hw, rfl⟩
    | some c => exact wp_pinned_tenure (hw.loosen i) (h c).map

theorem tenure_storing : tenure.Storing (κ := κ) where
  toRunning := tenure_running
  freshInstance := tenure_aloof.freshInstance
  freshList := tenure_aloof.freshList
  record _ := tenure_of_keep fun _ => ⟨rfl, rfl, rfl, fun _ p hi => ⟨p, hi⟩⟩
  updateEntry h n f := tenure_of_keep fun w => by
    rw [wp_updateEntry]
    split
    · simp
    · exact ⟨rfl, rfl, rfl, fun _ p hi => ⟨p, hi⟩⟩

theorem tenure_discard (h : HostId) (selection : Cache.Selection) (cause : Cause) :
    tenure.Kept (κ := κ) (discard h selection cause) :=
  tenure_of_keep fun w => by
    rw [wp_discard]
    split
    · simp
    · exact ⟨rfl, rfl, rfl, fun _ p hi => ⟨p, hi⟩⟩

theorem tenure_create (h : HostId) (type : ComponentType) (node : Node) (as : Handle) :
    tenure.Kept (κ := κ) (create h type node as) := by
  refine (tenure_running.buildType type).bind fun built => ?_
  cases built with
  | error e => exact .pure _
  | ok metadata =>
    intro w hw
    rw [wp_bind, wp_freshComponent]
    exact (wp_bindHandle_tenure (hw.withComponent _) as).bind fun _ _ h => h

/-- A component may move: it is held as before. -/
theorem tenure_swapNode (id : ComponentId) (c : Component) (node : Node) :
    tenure.Kept (κ := κ) (swapNode id c node) := by
  refine tenure_aloof.lenient.lend _ _ (.get_bind fun w => ?_)
  refine Contract.Kept.bind (tenure_of_keep fun w => ?_) fun _ => .pure _
  rw [updateComponent, wp_modify]
  cases hc : w.components.get? id with
  | none => exact ⟨rfl, rfl, rfl, fun _ p hi => ⟨p, hi⟩⟩
  | some c' =>
    refine ⟨rfl, rfl, rfl, fun i p hi => ?_⟩
    dsimp only at hi
    rw [World.location_setComponent] at hi
    split at hi
    · next he => exact ⟨_, he ▸ World.location_of_get? hc⟩
    · exact ⟨p, hi⟩

end Act

section

variable {host : HostId → Host} {user : Callbacks (Act κ)}

theorem Setting.tenure_mount (h : HostId) (type : ComponentType) (node : Node) (as : Handle) :
    tenure.Kept (mount ⟨host, user⟩ h type node as) := by
  refine (Act.tenure_running.buildType type).bind fun built => ?_
  cases built with
  | error e => exact .pure _
  | ok metadata =>
    intro w hw
    rw [Act.wp_bind, Act.wp_freshComponent]
    refine Act.wp_pinned_tenure (hw.withComponent _) ?_
    refine (tenure_aloof.subscribing.init _ _).bind fun bound => ?_
    cases bound with
    | error e => exact .pure _
    | ok _ =>
      refine Contract.Kept.bind (tenure_aloof.idle trivial) fun _ => ?_
      exact Contract.Kept.bind (fun w hw => Act.wp_bindHandle_tenure (hw.loosen _) as) fun _ =>
        .pure _

variable (κ host) in
theorem tenure_working : tenure.Working (κ := κ) host where
  toServing := tenure_aloof.serving Act.tenure_running
    (Act.tenure_storing.resolving.answering Act.tenure_running.toAttending)
  discard := Act.tenure_discard
  create := Act.tenure_create
  mount := Setting.tenure_mount
  bindHandle as i _ hw := Act.wp_bindHandle_tenure (hw.loosen i) as
  release := Act.tenure_release

end

/-- Every operation keeps the contract. -/
theorem tenure_sound (host : HostId → Host) : tenure.Sound (κ := κ) host fun _ => True where
  toOpen := tenure_aloof.toOpen
  perform user hu op _ := by
    have hW : tenure.Working host := tenure_working κ host
    cases op with
    | update id node =>
      exact hW.withComponent id fun c => hW.update id c node (Act.tenure_swapNode id c node)
    | _ => exact hW.perform hu fun _ _ => nofun

theorem tenure_start (targets : Dict TargetId EventTarget) (memory : κ.Memory) :
    Tenure none (World.start targets memory) where
  sorted := Dict.Sorted.empty
  numbered _ _ hi := by cases hi
  held _ _ hi := by cases hi

section

variable (app : Application κ) (prog : Program κ α) (targets : Dict TargetId EventTarget)
  (memory : κ.Memory)

/-- While an application runs, every component that exists is held. -/
theorem tenure_of_reaches {w : World κ} (h : app.Reaches prog (World.start targets memory) w) :
    Tenure none w :=
  Contract.inv_of_reaches (tenure_sound app.host) (fun hs => hs rfl)
    (Callbacks.uses_of_forall (fun _ => trivial) app.code)
    (Program.uses_of_forall (fun _ => trivial) prog) (tenure_start targets memory) h

/-- Where a run ends, variables of the application hold every component that exists. -/
theorem inVariable_of_exec {depth : Nat} {a : α} {v : World κ}
    (h : (app.exec depth prog).run (World.start targets memory) = .ok (a, v)) {i : ComponentId}
    {p : HostId × NodeId} (hi : v.location i = some p) : v.InVariable i := by
  have kept : tenure.Kept (app.exec depth prog) :=
    (tenure_sound app.host).exec (Callbacks.uses_of_forall (fun _ => trivial) app.code) depth
      (Program.uses_of_forall (fun _ => trivial) prog)
  obtain ⟨hv, hpins⟩ := (kept _ (tenure_start targets memory)).of_run h
  refine (hv.held i p hi nofun).resolve_right fun hmem => ?_
  rw [show v.pins = [] from hpins] at hmem
  cases hmem

end

end LayeredViews
