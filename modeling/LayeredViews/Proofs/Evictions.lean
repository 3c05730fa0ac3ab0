import LayeredViews.Proofs.Memo
import LayeredViews.Proofs.Tenure

/-!
# What takes the entry of a node away

What is resolved is stored for a node, and more than one component may be on it: the ones that were
unmounted before and are still held count as well. Whichever of them goes takes the entry along.

* `World.Keeps h n w w'`: the entry of a node was not dropped on the way from `w` to `w'`.
* `World.Evicts h n`: the operation selects the entry in a reload, or takes a component away from
  the node.
* `guarding`: the contract of code that does not drop the entry. All operations keep it that do not
  evict the entry (`guarding_sparing`), so a run that drops it has called one that does
  (`calls_of_not_keeps`).
* `Relics.application`: an application that unmounts a component and mounts another one on its node
  (`entry_lost_to_unmounted`).
-/

namespace LayeredViews

variable {κ : Client} {α β : Type}

namespace World

/-- The entry of the node is not dropped on the way from `w` to `w'`. -/
structure Keeps (h : HostId) (n : NodeId) (w w' : World κ) : Prop where
  record : ∃ new, w'.record = new ++ w.record ∧ ∀ cause, .dropped h n cause ∉ new
  entry : n ∈ (w.cache h).keys → n ∈ (w'.cache h).keys

/-- The variable is the only one that holds the component. -/
def LastIn (w : World κ) (i : ComponentId) (as : Handle) : Prop :=
  w.handles.get? as = some i ∧ ∀ h, w.handles.get? h = some i → h = as

/-- The operation takes the component away from the node: it moves it to another one, removes it,
or empties the last variable that holds it. -/
def Dismisses (w : World κ) (i : ComponentId) (n : NodeId) : Op → Prop
  | .update j node => j = i ∧ node.id ≠ n
  | .remove j | .unmount j => j = i
  | .hold j as => j ≠ i ∧ w.LastIn i as
  | .release as | .create _ _ _ as | .mount _ _ _ as => w.LastIn i as
  | _ => False

/-- The operation selects the entry of the node in a reload, takes a component away from the node,
or moves one there that no variable holds, so that it will go with the operation under way. -/
def Evicts (h : HostId) (n : NodeId) (w : World κ) (op : Op) : Prop :=
  (∃ s, op = .reload h s ∧ s.selects n (w.entry h n) = true) ∨
  (∃ i, w.location i = some (h, n) ∧ w.Dismisses i n op) ∨
  ∃ i node m, op = .update i node ∧ node.id = n ∧ w.location i = some (h, m) ∧ m ≠ n ∧
    ¬w.InVariable i

variable {w w' w'' : World κ} {h : HostId} {n : NodeId} {i : ComponentId} {as : Handle}

/-- Another variable holds the component as well. -/
theorem InVariable.other (hi : w.InVariable i) (hlast : ¬w.LastIn i as) :
    ∃ h, h ≠ as ∧ w.handles.get? h = some i := by
  obtain ⟨h, hh⟩ := hi
  by_cases he : h = as
  · subst he
    refine Classical.byContradiction fun hnone => hlast ⟨hh, fun h' hh' => ?_⟩
    exact Classical.byContradiction fun hne => hnone ⟨h', hne, hh'⟩
  · exact ⟨h, he, hh⟩

namespace Keeps

theorem of_caches (new : List (Occurrence κ)) (hc : w'.caches = w.caches)
    (hr : w'.record = new ++ w.record) (hn : ∀ o ∈ new, o.Spares) : w.Keeps h n w' where
  record := ⟨new, hr, fun _ hd => hn _ hd⟩
  entry hk := by
    rw [cache, hc]
    exact hk

theorem of_eq (hc : w'.caches = w.caches) (hr : w'.record = w.record) : w.Keeps h n w' :=
  .of_caches [] hc hr fun _ => nofun

theorem trans (hk : w.Keeps h n w') (hk' : w'.Keeps h n w'') : w.Keeps h n w'' where
  record := by
    obtain ⟨new, hr, hn⟩ := hk.record
    obtain ⟨new', hr', hn'⟩ := hk'.record
    refine ⟨new' ++ new, by rw [hr', hr, List.append_assoc], fun cause hd => ?_⟩
    exact (List.mem_append.1 hd).elim (hn' cause) (hn cause)
  entry := hk'.entry ∘ hk.entry

/-- Entries are the same at the beginning. -/
theorem before (hk : w'.Keeps h n w'') (hc : w'.caches = w.caches) (hr : w'.record = w.record) :
    w.Keeps h n w'' := trans (.of_eq hc hr) hk

/-- Entries are the same in the end. -/
theorem after (hk : w.Keeps h n w') (hc : w''.caches = w'.caches) (hr : w''.record = w'.record) :
    w.Keeps h n w'' := hk.trans (.of_eq hc hr)

/-- A drop that does not select the entry. -/
theorem discarded (hw : w.Tidy) {h' : HostId} {selection : Cache.Selection}
    (hs : ¬(h' = h ∧ selection.selects n (w.entry h n) = true)) (cause : Cause) :
    w.Keeps h n (w.discarded h' selection cause) where
  record := by
    refine ⟨_, rfl, fun cause' hd => ?_⟩
    obtain ⟨m, hm, he⟩ := List.mem_map.1 (List.mem_reverse.1 hd)
    cases he
    obtain ⟨e, hget, hsel⟩ := (mem_reload hw).1 hm
    exact hs ⟨rfl, entry_of_get? hget ▸ hsel⟩
  entry hk := (mem_keys_discarded hw).2 ⟨hk, hs⟩

end Keeps

theorem Stays.keeps (hs : w.Stays w') : w.Keeps h n w' := by
  obtain ⟨new, hr, hn⟩ := hs.record
  refine .of_caches new hs.caches hr fun o ho => ?_
  have hidle := hn o ho
  cases o with
  | dropped => exact hidle.elim
  | _ => trivial

end World

/-- Code runs while `pins` are held for good. A component on the node, except perhaps for `loose`,
is one of them, or a variable holds it. -/
structure Guarded (h : HostId) (n : NodeId) (pins : List ComponentId) (loose : Option ComponentId)
    (w : World κ) : Prop where
  tidy : w.Tidy
  numbered : w.Numbered
  pinned : ∀ i ∈ pins, i ∈ w.pins
  held : ∀ i, w.location i = some (h, n) → some i ≠ loose → w.InVariable i ∨ i ∈ pins

namespace Guarded

variable {w w' : World κ} {h : HostId} {n : NodeId} {pins : List ComponentId}
  {loose : Option ComponentId} {i : ComponentId} {as : Handle}

theorem loosen (hw : Guarded h n pins none w) (i : ComponentId) : Guarded h n pins (some i) w where
  tidy := hw.tidy
  numbered := hw.numbered
  pinned := hw.pinned
  held j hj _ := hw.held j hj nofun

/-- No component has come to the node. -/
theorem keep (hw : Guarded h n pins loose w) (ht : w'.Tidy)
    (hn : w'.nextComponent = w.nextComponent) (hh : w'.handles = w.handles)
    (hp : ∀ i ∈ pins, i ∈ w'.pins)
    (hl : ∀ i p, w'.location i = some p → w.location i = some p) : Guarded h n pins loose w' where
  tidy := ht
  numbered := hw.numbered.of_location hn fun i p hi => ⟨p, hl i p hi⟩
  pinned := hp
  held i hi hne := by
    rw [World.InVariable, hh]
    exact hw.held i (hl i _ hi) hne

theorem stays (hw : Guarded h n pins loose w) (hs : w.Stays w') : Guarded h n pins loose w' :=
  hw.keep (fun h => hs.cache h ▸ hw.tidy h) hs.nextComponent hs.handles
    (fun i hi => hs.pins ▸ hw.pinned i hi) fun i _ hi => hs.location i ▸ hi

theorem discarded (hw : Guarded h n pins loose w) (h' : HostId) (selection : Cache.Selection)
    (cause : Cause) : Guarded h n pins loose (w.discarded h' selection cause) :=
  hw.keep (hw.tidy.discarded h' selection cause) rfl rfl hw.pinned fun _ _ hi => hi

theorem withComponent (hw : Guarded h n pins none w) (c : Component) :
    Guarded h n pins (some w.nextComponent) (w.withComponent c) where
  tidy := hw.tidy
  numbered := hw.numbered.withComponent c
  pinned := hw.pinned
  held j hj hne := by
    rw [World.location_withComponent, if_neg fun he => hne (congrArg some he)] at hj
    exact hw.held j hj nofun

theorem pin (hw : Guarded h n pins loose w) (i : ComponentId) : Guarded h n pins loose (w.pin i) :=
  ⟨hw.tidy, hw.numbered, fun j hj => List.mem_cons_of_mem i (hw.pinned j hj), hw.held⟩

theorem unpin (hw : Guarded h n pins loose w) (hp : ∀ i ∈ pins, i ∈ w.unpin.pins) :
    Guarded h n pins loose w.unpin := ⟨hw.tidy, hw.numbered, hp, hw.held⟩

/-- A variable holds the loose component and lets go of what it held, which is not the last to hold
a component on the node. -/
theorem bound (hw : Guarded h n pins (some i) w)
    (hlast : ∀ j, w.location j = some (h, n) → j ≠ i → ¬w.LastIn j as) :
    Guarded h n pins none { w with handles := w.handles.insert as i } where
  tidy := hw.tidy
  numbered := hw.numbered
  pinned := hw.pinned
  held j hj _ := by
    by_cases hji : j = i
    · exact .inl ⟨as, by rw [Dict.get?_insert_self, hji]⟩
    · refine (hw.held j hj fun he => hji (Option.some.inj he)).imp_left fun hin => ?_
      obtain ⟨h', hne, hh'⟩ := hin.other (hlast j hj hji)
      exact ⟨h', by rw [Dict.get?_insert_of_ne _ _ hne, hh']⟩

theorem released (hw : Guarded h n pins none w)
    (hlast : ∀ j, w.location j = some (h, n) → ¬w.LastIn j as) :
    Guarded h n pins none { w with handles := w.handles.erase as } where
  tidy := hw.tidy
  numbered := hw.numbered
  pinned := hw.pinned
  held j hj _ := by
    refine (hw.held j hj nofun).imp_left fun hin => ?_
    obtain ⟨h', hne, hh'⟩ := hin.other (hlast j hj)
    exact ⟨h', by rw [Dict.get?_erase, if_neg hne, hh']⟩

/-- A component that a variable holds may come to the node. -/
theorem moved (hw : Guarded h n pins none w) {c : Component} (hc : w.components.get? i = some c)
    {node : Node} (hi : c.host = h → node.id = n → c.node.id ≠ n → w.InVariable i) :
    Guarded h n pins none (w.setComponent i { c with node }) where
  tidy := hw.tidy
  numbered := hw.numbered.setComponent hc _
  pinned := hw.pinned
  held j hj _ := by
    rw [World.location_setComponent] at hj
    split at hj
    · next he =>
      subst he
      obtain ⟨hhost, hnode⟩ := Prod.mk.inj (Option.some.inj hj)
      by_cases hsame : c.node.id = n
      · refine hw.held j ?_ nofun
        rw [World.location_of_get? hc]
        exact congrArg some (Prod.ext hhost hsame)
      · exact .inl (hi hhost hnode hsame)
    · exact hw.held j hj nofun

end Guarded

/-- The entry of a node is not dropped, while code runs that holds `pins`. -/
def guarding (h : HostId) (n : NodeId) (pins : List ComponentId) : Contract κ where
  inv := Guarded h n pins none
  step w w' := w'.pins = w.pins ∧ w.Keeps h n w'
  stops _ := True
  refl _ := ⟨rfl, .of_eq rfl rfl⟩
  trans hs hs' := ⟨hs'.1.trans hs.1, hs.2.trans hs'.2⟩

section

variable {h : HostId} {n : NodeId} {pins : List ComponentId} {w : World κ}

theorem guarding_aloof : (guarding h n pins).Aloof (κ := κ) where
  stays hw hs := ⟨hw.stays hs, hs.pins, hs.keeps⟩
  stops _ := trivial

namespace Act

theorem guarding_discard {h' : HostId} {selection : Cache.Selection} (cause : Cause)
    (hw : Guarded h n pins none w)
    (hs : ¬(h' = h ∧ selection.selects n (w.entry h n) = true)) :
    (guarding h n pins).KeptFrom w (discard h' selection cause) := by
  unfold Contract.KeptFrom
  rw [wp_discard]
  split
  · trivial
  · exact ⟨hw.discarded h' selection cause, rfl, .discarded hw.tidy hs cause⟩

/-- A component that nobody holds is not on the node. -/
theorem guarding_settle (i : ComponentId) : (guarding h n pins).Kept (κ := κ) (settle i) := by
  intro w hw
  refine .settle (fun _ => trivial) ⟨hw, (guarding h n pins).refl w⟩ fun hfree c hc => ?_
  have hnot : ¬(c.host = h ∧ c.node.id = n) := by
    rintro ⟨rfl, rfl⟩
    refine Bool.eq_false_iff.1 hfree ?_
    rcases hw.held i (World.location_of_get? hc) (Option.some_ne_none i) with hin | hin
    · exact World.holds_of_inVariable hin
    · simp [World.holds, hw.pinned i hin]
  have hgone : Guarded h n pins none (w.withoutComponent i) :=
    hw.keep hw.tidy rfl rfl hw.pinned fun _ _ hj => World.location_of_withoutComponent hj
  refine ⟨hgone.discarded _ _ _, rfl, ?_⟩
  refine (World.Keeps.discarded hgone.tidy (fun hs => hnot ⟨hs.1, ?_⟩) _).before rfl rfl
  exact (eq_of_beq hs.2).symm

theorem guarding_holding : (guarding h n pins).Holding (κ := κ) where
  settle := guarding_settle
  pin hw := hw.pin
  unpin {w w' c} hw hw' hs := by
    have hpins : w'.unpin.pins = w.pins := by
      rw [World.unpin, hs.1]
      rfl
    have hkeeps : w.Keeps h n w' := hs.2.before rfl rfl
    exact ⟨hw'.unpin fun i hi => hpins ▸ hw.pinned i hi, hpins, hkeeps.after rfl rfl⟩

theorem guarding_running : (guarding h n pins).Running (κ := κ) :=
  guarding_aloof.running guarding_holding.keptWithComponent

theorem guarding_storing : (guarding h n pins).Storing (κ := κ) where
  toRunning := guarding_running
  freshInstance := guarding_aloof.freshInstance
  freshList := guarding_aloof.freshList
  record {o} ho w hw := by
    refine ⟨hw.keep hw.tidy rfl rfl hw.pinned fun _ _ hi => hi, rfl, ?_⟩
    exact .of_caches [o] rfl rfl (by simpa using ho)
  updateEntry h' m f w hw := by
    rw [wp_updateEntry]
    split
    · trivial
    · refine ⟨hw.keep (hw.tidy.setCache ((hw.tidy h').insert m _)) rfl rfl hw.pinned
        fun _ _ hi => hi, rfl, ⟨[], rfl, fun _ => nofun⟩, fun hk => ?_⟩
      obtain ⟨e, hget⟩ := Dict.mem_keys.1 hk
      rw [World.cache_setCache]
      split
      · next he =>
        subst he
        rw [Dict.mem_keys, Dict.get?_insert]
        split
        · exact ⟨_, rfl⟩
        · exact ⟨e, hget⟩
      · exact hk

theorem guarding_bindHandle {i : ComponentId} {as : Handle} (hw : Guarded h n pins (some i) w)
    (hlast : ∀ j, w.location j = some (h, n) → j ≠ i → ¬w.LastIn j as) :
    (guarding h n pins).KeptFrom w (bindHandle as i) := by
  have hbound := hw.bound hlast
  have hkeeps : w.Keeps h n { w with handles := w.handles.insert as i } := .of_eq rfl rfl
  unfold Contract.KeptFrom
  rw [wp_bindHandle]
  cases w.handles.get? as with
  | none => exact ⟨hbound, rfl, hkeeps⟩
  | some old => exact (guarding_settle old).after ⟨hbound, rfl, hkeeps⟩

theorem guarding_release {as : Handle} (hw : Guarded h n pins none w)
    (hlast : ∀ j, w.location j = some (h, n) → ¬w.LastIn j as) :
    (guarding h n pins).KeptFrom w (release as) := by
  have hreleased := hw.released hlast
  have hkeeps : w.Keeps h n { w with handles := w.handles.erase as } := .of_eq rfl rfl
  unfold Contract.KeptFrom
  rw [wp_release]
  cases w.handles.get? as with
  | none => exact ⟨hw, (guarding h n pins).refl w⟩
  | some old => exact (guarding_settle old).after ⟨hreleased, rfl, hkeeps⟩

theorem guarding_create {h' : HostId} {type : ComponentType} {node : Node} {as : Handle}
    (hw : Guarded h n pins none w)
    (hlast : ∀ j, w.location j = some (h, n) → ¬w.LastIn j as) :
    (guarding h n pins).KeptFrom w (create h' type node as) := by
  unfold Contract.KeptFrom create
  rw [wp_bind, wp_buildType]
  obtain ⟨hran, -, hkran⟩ := guarding_aloof.stays hw (.of_ran type.build.ran)
  cases type.build.result with
  | error e => exact ⟨hran, rfl, hkran⟩
  | ok metadata =>
    dsimp only
    rw [wp_bind, wp_freshComponent]
    have hadded := hran.withComponent { type, metadata, host := h', node }
    refine (guarding_bindHandle hadded fun j hj hne => ?_).bind fun _ w' ⟨hw', hp, hk⟩ => ?_
    · rw [World.location_withComponent, if_neg hne] at hj
      exact hlast j hj
    · exact ⟨hw', hp, hkran.trans (hk.before rfl rfl)⟩

/-- What is stored for the node of a component is dropped, and this is not the node. -/
theorem guarding_remove {i : ComponentId} {c : Component} {m : NodeId}
    (hw : Guarded h n pins none w) (hi : w.location i = some (c.host, m))
    (hne : ¬(c.host = h ∧ m = n)) :
    (guarding h n pins).KeptFrom w (remove i c) := by
  have hnode : (w.current i c).node.id = m := World.current_node_id hi
  unfold Contract.KeptFrom remove
  rw [wp_bind, wp_nodeOf]
  split
  · trivial
  · refine (guarding_discard _ hw fun hs => hne ⟨hs.1, ?_⟩).bind fun _ _ hw' => hw'
    exact hnode.symm.trans (eq_of_beq hs.2).symm

/-- A component moves, neither away from the node, nor to it with no variable to hold it. -/
theorem guarding_update {i : ComponentId} {node : Node} (hw : Guarded h n pins none w)
    (haway : w.location i = some (h, n) → node.id = n)
    (hto : ∀ m, node.id = n → w.location i = some (h, m) → m ≠ n → w.InVariable i) :
    (guarding h n pins).KeptFrom w (withComponent i fun c => update i c node) := by
  refine guarding_holding.withComponent_at hw fun c hc hpin => ?_
  have hpresent : (w.pin i).components.get? i = some c := hc
  have hloc : w.location i = some (c.host, c.node.id) := World.location_of_get? hc
  have hmoved : Guarded h n pins none ((w.pin i).setComponent i { c with node }) :=
    hpin.moved hpresent fun hhost hnode hne => hto _ hnode (hhost ▸ hloc) hne
  have hcurrent : ((w.pin i).setComponent i { c with node }).current i c = { c with node } :=
    World.current_of_get? (Dict.get?_insert_self _ _ _) c
  unfold Contract.KeptFrom update
  rw [wp_bind, wp_swapNode hpresent]
  split
  · trivial
  rw [wp_bind, wp_nodeOf]
  split
  · trivial
  rw [hcurrent, wp_ite]
  split
  · exact ⟨hmoved, rfl, .of_eq rfl rfl⟩
  · next hne =>
    refine (guarding_discard _ hmoved fun hs => hne ?_).bind fun _ w' ⟨hw', hp, hk⟩ =>
      ⟨hw', hp, hk.before rfl rfl⟩
    have hn : n = c.node.id := eq_of_beq hs.2
    rw [← hn, haway (by rw [hloc, hs.1, hn])]

end Act

variable {host : HostId → Host} {user : Callbacks (Act κ)}

namespace Setting

omit host user in
theorem wp_bindAll_ok {id : ComponentId} {c : Component} {s : Subscriptions}
    (hs : s.bound = false) (h : HostId) (host : HostId → Host) (user : Callbacks (Act κ))
    (w : World κ) :
    (bindAll ⟨host, user⟩ h id c s).Wp (fun _ => True) (fun r _ => r.1 = .ok ()) w := by
  unfold bindAll
  refine (Act.Wp.any _ w).bind fun present w₁ _ => ?_
  cases present with
  | none => rfl
  | some t =>
    rw [hs]
    exact (Act.Wp.any _ w₁).bind fun _ _ _ => rfl

/-- The events of a component that has none bound can be bound. -/
theorem wp_init_ok {id : ComponentId} {c : Component} {w : World κ}
    (hs : (w.current id c).subscriptions.bound = false) :
    (init ⟨host, user⟩ id c).Wp (fun _ => True) (fun r _ => r = .ok ()) w := by
  unfold init Act.withSubscriptions
  rw [Act.wp_bind, Act.wp_lend]
  split
  · trivial
  · rw [Act.wp_bind, Act.wp_get]
    refine (wp_bindAll_ok hs c.host host user _).bind fun ⟨r, s'⟩ w' hr => ?_
    obtain rfl : r = .ok () := hr
    exact (Act.Wp.any _ w').bind fun _ _ _ => rfl

/-- A component that was just made binds its events and gets into a variable. -/
theorem guarding_mounting {w : World κ} {i : ComponentId} {c : Component} {as : Handle}
    (hw : Guarded h n pins (some i) w) (hc : w.components.get? i = some c)
    (hs : c.subscriptions.bound = false)
    (hlast : ∀ j, w.location j = some (h, n) → j ≠ i → ¬w.LastIn j as) :
    (guarding h n pins).KeptFrom w (Act.pinned i do
      match ← init ⟨host, user⟩ i c with
      | .error e => return .error e
      | .ok () =>
        Act.record (.mounted i)
        Act.bindHandle as i
        return (.ok i : Except Error ComponentId)) := by
  have hinit : (init ⟨host, user⟩ i c).Wp (fun _ => True)
      (fun r w' => (True ∧ (w.pin i).Stays w') ∧ r = .ok ()) (w.pin i) := by
    refine Act.Wp.and ((stays_aloof.subscribing.init i c _ trivial).weaken fun _ _ => trivial) ?_
    refine wp_init_ok ?_
    rw [World.current_of_get? (w := w.pin i) hc]
    exact hs
  unfold Contract.KeptFrom
  rw [Act.wp_pinned, Act.wp_bind]
  refine hinit.mono fun r w₂ ⟨⟨_, hstays⟩, hr⟩ => ?_
  subst hr
  let w₃ : World κ := { w₂ with record := .mounted i :: w₂.record }
  have hw₃ : Guarded h n pins (some i) w₃ :=
    ((hw.pin i).stays hstays).stays (.of_idle (o := .mounted i) trivial)
  have hlast₃ : ∀ j, w₃.location j = some (h, n) → j ≠ i → ¬w₃.LastIn j as := by
    intro j hj hne hl
    rw [World.LastIn, show w₃.handles = w.handles from hstays.handles] at hl
    exact hlast j (hstays.location j ▸ hj) hne hl
  dsimp only
  rw [Act.wp_bind, Act.wp_record]
  refine (Act.guarding_bindHandle hw₃ hlast₃).bind fun _ w₄ ⟨hw₄, hp, hk⟩ => ?_
  have hpins : w₄.unpin.pins = w.pins := by
    rw [World.unpin, hp, show w₃.pins = i :: w.pins from hstays.pins]
    rfl
  have hkeeps : w.Keeps h n w₄ := by
    have hbefore : w.Keeps h n w₂ := (World.Stays.keeps hstays).before rfl rfl
    have hnoted : w₂.Keeps h n w₃ := World.Stays.keeps (.of_idle (o := .mounted i) trivial)
    exact hbefore.trans (hnoted.trans hk)
  refine (Act.guarding_settle i).after ⟨?_, hpins, hkeeps.after rfl rfl⟩
  exact hw₄.unpin fun j hj => hpins ▸ hw.pinned j hj

theorem guarding_mount {w : World κ} {h' : HostId} {type : ComponentType} {node : Node}
    {as : Handle} (hw : Guarded h n pins none w)
    (hlast : ∀ j, w.location j = some (h, n) → ¬w.LastIn j as) :
    (guarding h n pins).KeptFrom w (mount ⟨host, user⟩ h' type node as) := by
  unfold Contract.KeptFrom mount
  rw [Act.wp_bind, Act.wp_buildType]
  obtain ⟨hran, -, hkran⟩ := guarding_aloof.stays hw (.of_ran type.build.ran)
  cases type.build.result with
  | error e => exact ⟨hran, rfl, hkran⟩
  | ok metadata =>
    dsimp only
    rw [Act.wp_bind, Act.wp_freshComponent]
    have hadded := hran.withComponent { type, metadata, host := h', node }
    refine (guarding_mounting hadded (Dict.get?_insert_self _ _ _) rfl fun j hj hne => ?_).mono
      fun _ w' ⟨hw', hp, hk⟩ => ⟨hw', hp, hkran.trans (hk.before rfl rfl)⟩
    rw [World.location_withComponent, if_neg hne] at hj
    exact hlast j hj

/-- A component that is not on the node is unmounted. -/
theorem guarding_unmount {w : World κ} {i : ComponentId} (hw : Guarded h n pins none w)
    (hi : w.location i ≠ some (h, n)) :
    (guarding h n pins).KeptFrom w (Act.withComponent i fun c => unmount ⟨host, user⟩ i c) := by
  refine Act.guarding_holding.withComponent_at hw fun c hc hpin => ?_
  have hloc : w.location i = some (c.host, c.node.id) := World.location_of_get? hc
  have hbefore : (beforeRemove ⟨host, user⟩ i c).Wp (fun _ => True)
      (fun _ w' => True ∧ (w.pin i).Stays w') (w.pin i) :=
    (stays_aloof.subscribing.beforeRemove i c _ trivial).weaken fun _ _ => trivial
  refine hbefore.bind fun _ w₁ ⟨_, hs⟩ => ?_
  have hne : ¬(c.host = h ∧ c.node.id = n) := by
    rintro ⟨rfl, rfl⟩
    exact hi hloc
  refine (Act.guarding_remove (hpin.stays hs) ((hs.location i).trans hloc) hne).bind
    fun _ w₂ ⟨hw₂, hp, hk⟩ => ?_
  exact (guarding_aloof.idle (o := .unmounted i) trivial).after
    ⟨hw₂, hp.trans hs.pins, hs.keeps.trans hk⟩

end Setting

/-- The operations that do not evict the entry of a node do not drop it. -/
theorem guarding_sparing (host : HostId → Host) (h : HostId) (n : NodeId)
    (pins : List ComponentId) :
    (guarding h n pins).Sparing (κ := κ) host (World.Evicts h n) where
  toOpen := guarding_aloof.toOpen
  stopped := trivial
  perform user hu op w hw hop := by
    have hserving : (guarding h n pins).Serving (κ := κ) host :=
      guarding_aloof.serving Act.guarding_running
        (Act.guarding_storing.resolving.answering Act.guarding_running.toAttending)
    have hstay : ∀ i, w.location i = some (h, n) → ¬w.Dismisses i n op := fun i hi hd =>
      hop (.inr (.inl ⟨i, hi, hd⟩))
    cases op with
    | create h' type node as => exact Act.guarding_create hw hstay
    | mount h' type node as => exact Setting.guarding_mount hw hstay
    | update i node =>
      refine Act.guarding_update hw (fun hi => ?_) fun m hnode hi hne => ?_
      · exact Classical.byContradiction fun hne => hstay i hi ⟨rfl, hne⟩
      · exact Classical.byContradiction fun hin =>
          hop (.inr (.inr ⟨i, node, m, rfl, hnode, hi, hne, hin⟩))
    | remove i =>
      refine Act.guarding_holding.withComponent_at hw fun c hc hpin => ?_
      refine Act.guarding_remove hpin (World.location_of_get? (w := w) hc) ?_
      rintro ⟨rfl, rfl⟩
      exact hstay i (World.location_of_get? hc) rfl
    | unmount i => exact Setting.guarding_unmount hw fun hi => hstay i hi rfl
    | hold i as =>
      refine (Act.wp_bind _ _).2 ((Act.wp_get).2 ?_)
      by_cases hc : w.components.contains i = true
      · simp only [hc]
        refine (Act.guarding_bindHandle (hw.loosen i) fun j hj hne hl => ?_).bind fun _ _ hw' => hw'
        exact hstay j hj ⟨fun he => hne he.symm, hl⟩
      · simp only [hc]
        exact ⟨hw, (guarding h n pins).refl w⟩
    | release as => exact Act.guarding_release hw hstay
    | reload h' selection =>
      refine Act.guarding_discard _ hw fun hsel => hop (.inl ⟨selection, ?_, hsel.2⟩)
      rw [hsel.1]
    | _ => exact hserving.perform hu id w hw

end

/-! ## Runs -/

/-- **What drops an entry.** When a run that starts anywhere in the life of an application has
dropped the entry of a node, it has called an operation that selects the entry in a reload, or one
that takes a component away from the node: it moves it to another, removes it, or empties the last
variable that holds it. -/
theorem calls_of_not_keeps (app : Application κ) (before : Program κ β) (prog : Program κ α)
    (targets : Dict TargetId EventTarget) (memory : κ.Memory) {w v : World κ}
    (hw : app.Reaches before (World.start targets memory) w) {depth : Nat} {a : α}
    (hrun : (app.exec depth prog).run w = .ok (a, v)) {h : HostId} {n : NodeId}
    (hgone : ¬w.Keeps h n v) : app.Calls prog w (World.Evicts h n) := by
  have htenure := tenure_of_reaches app before targets memory hw
  have hguarded : Guarded h n w.pins none w :=
    ⟨(memoized_of_reaches hw).tidy, htenure.numbered, fun _ hi => hi,
      fun i hi _ => htenure.held i _ hi nofun⟩
  refine Classical.byContradiction fun hcalls => hgone ?_
  exact (((guarding_sparing app.host h n w.pins).exec hguarded hcalls depth).of_run hrun).2.2

/-! ## A component that was unmounted -/

/-- Whether the component was mounted and not unmounted since, by what has happened, latest
first. -/
def mounted (i : ComponentId) : List (Occurrence κ) → Bool
  | [] => false
  | .mounted j :: past => j == i || mounted i past
  | .unmounted j :: past => j != i && mounted i past
  | _ :: past => mounted i past

/-- Whether a mounted component other than `j` is on the node. -/
def World.crowded (w : World κ) (j : Option ComponentId) (h : HostId) (n : NodeId) : Bool :=
  w.components.entries.any fun (i, c) =>
    some i != j && mounted i w.record && c.host == h && c.node.id == n

/-- Whether the operation puts a component onto a node that a mounted one of the host is on. Without
such operations no two mounted components of a host are ever on one node. -/
def World.crowds (w : World κ) : Op → Bool
  | .create h _ node _ | .mount h _ node _ => w.crowded none h node.id
  | .update j node =>
    match w.components.get? j with
    | some c => w.crowded (some j) c.host node.id
    | none => false
  | _ => false

namespace Relics

def model : Class := Class.viewModel 0 "Greeting" ⟨0, "Greeting"⟩

def type : ComponentType where
  own :=
    { label := "Greeting"
      definer := some ⟨"Greeting",
        [⟨"name", [.text "greeting"]⟩, ⟨"viewmodel", [.ofClass model]⟩]⟩ }

/-- An application whose code does nothing. -/
def application : Application ⟨Unit, Empty⟩ := ⟨fun _ => {}, .idle⟩

/-- Mounts two components on a node, one after the other, and asks the second one for its view
model. -/
def before : Program ⟨Unit, Empty⟩ Unit :=
  .call (.mount 0 type ⟨1, ∅⟩ ⟨0, "former"⟩) fun _ => .call (.unmount 0) fun _ =>
  .call (.mount 0 type ⟨1, ∅⟩ ⟨0, "present"⟩) fun _ => .call (.model 1) fun _ => .done ()

/-- Lets the first one go. -/
def program : Program ⟨Unit, Empty⟩ Unit := .call (.release ⟨0, "former"⟩) fun _ => .done ()

/-- The world with an entry, and that without. -/
def middle : World ⟨Unit, Empty⟩ := application.worldAfter 2 before (World.start ∅ ())

def last : World ⟨Unit, Empty⟩ := application.worldAfter 2 program middle

theorem run_before : (application.exec 2 before).run (World.start ∅ ()) = .ok ((), middle) :=
  Application.run_eq_worldAfter (by decide +kernel)

theorem run_program : (application.exec 2 program).run middle = .ok ((), last) :=
  Application.run_eq_worldAfter (by decide +kernel)

/-- The entry is gone. -/
theorem not_keeps : ¬middle.Keeps 0 1 last := fun hk =>
  absurd (hk.entry (by decide +kernel)) (by decide +kernel)

/-- The program takes nothing away that belongs to the second component. -/
theorem not_dismisses : ¬application.Calls program middle fun u op =>
    (∃ s, op = .reload 0 s ∧ s.selects 1 (u.entry 0 1) = true) ∨ u.Dismisses 1 1 op := by
  let q (u : World ⟨Unit, Empty⟩) : Op → Bool
    | .release as => u.handles.get? as == some 1
    | _ => true
  refine Application.not_calls_of_avoids (q := q) (fun u op hop => ?_) rfl ?_
  · cases op with
    | release as =>
      rcases hop with ⟨s, he, -⟩ | hlast
      · cases he
      · exact beq_iff_eq.2 hlast.1
    | _ => rfl
  · decide +kernel

end Relics

/-- Letting go of an unmounted component takes away the entry of its node. -/
theorem calls_of_not_keeps_relics :
    Relics.application.Reaches Relics.before (World.start ∅ ()) Relics.middle ∧
      (Relics.application.exec 2 Relics.program).run Relics.middle = .ok ((), Relics.last) ∧
      ¬Relics.middle.Keeps 0 1 Relics.last ∧
      Relics.application.Calls Relics.program Relics.middle (World.Evicts 0 1) := by
  have hw := Application.reaches_of_exec Relics.run_before
  exact ⟨hw, Relics.run_program, Relics.not_keeps,
    calls_of_not_keeps Relics.application Relics.before Relics.program ∅ () hw Relics.run_program
      Relics.not_keeps⟩

/-- It is not so that what is stored for the node of a mounted component is dropped only on its own
account, not even where code calls nothing back and no two mounted components are on one node. -/
theorem entry_lost_to_unmounted :
    ¬∀ (κ : Client) (app : Application κ) (before prog : Program κ Unit) (memory : κ.Memory)
      (depth : Nat) (w v : World κ) (i : ComponentId) (h : HostId) (n : NodeId),
      app.code.Uses (fun _ => False) →
      ¬app.Calls before (World.start ∅ memory) (fun u op => u.crowds op = true) →
      (app.exec depth before).run (World.start ∅ memory) = .ok ((), w) →
      mounted i w.record = true → w.location i = some (h, n) →
      ¬app.Calls prog w (fun u op => u.crowds op = true) →
      (app.exec depth prog).run w = .ok ((), v) → ¬w.Keeps h n v →
      app.Calls prog w fun u op =>
        (∃ s, op = .reload h s ∧ s.selects n (u.entry h n) = true) ∨ u.Dismisses i n op := by
  intro hown
  refine Relics.not_dismisses ?_
  refine hown _ Relics.application Relics.before Relics.program () 2 Relics.middle Relics.last 1 0 1
    ⟨fun _ _ => trivial, fun _ => trivial, fun _ _ => trivial, fun _ _ _ => trivial,
      fun _ _ => trivial⟩ ?_ Relics.run_before (by decide +kernel) (by decide +kernel) ?_
    Relics.run_program Relics.not_keeps
  · exact Application.not_calls_of_avoids (q := World.crowds) (fun _ _ h => h) rfl
      (by decide +kernel)
  · exact Application.not_calls_of_avoids (q := World.crowds) (fun _ _ h => h) rfl
      (by decide +kernel)

end LayeredViews
