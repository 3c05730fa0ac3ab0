import LayeredViews.Proofs.Entries
import LayeredViews.Proofs.Keeping
import LayeredViews.Proofs.Registry

/-!
# Steps that leave listeners alone

Resolving, rendering, moving and dropping components, and dropping entries, have nothing to do with
listeners.

* `World.Still`: listeners are left alone, and no component has got others; `World.Spared`: and none
  was bound or unbound.
* `World.Hearing`: an invariant that such steps keep, and that does not tell which components are
  rendered. Then the contract of it, which leaves what is in use, is kept by what operations are
  made of that do not bind events (`World.Hearing.filing`, `World.Hearing.handling`).
-/

namespace LayeredViews

variable {κ : Client} {α : Type}

/-- The occurrence is that the events of a component were bound or unbound. -/
def Occurrence.Binds : Occurrence κ → Prop
  | .initialized _ | .unbound _ => True
  | _ => False

theorem Occurrence.Routine.not_binds {o : Occurrence κ} (ho : o.Routine) : ¬o.Binds := by
  cases o with
  | initialized => exact ho.elim
  | unbound => exact ho.elim
  | _ => exact id

theorem Occurrence.Resolves.not_binds {o : Occurrence κ} (ho : o.Resolves) : ¬o.Binds := by
  cases o with
  | initialized => exact ho.elim
  | unbound => exact ho.elim
  | _ => exact id

theorem EventTarget.Holds.of_listeners {t t' : EventTarget} {s : Subscription}
    (h : t.Holds s) (ht : t'.listeners = t.listeners) : t'.Holds s := by
  unfold Holds at h ⊢
  rwa [ht]

theorem EventTarget.listeners_switch (t : EventTarget) (on : Bool) :
    (t.switch on).listeners = t.listeners := by
  unfold switch
  split <;> rfl

namespace World

/-- Listeners are left alone, and no component has got others. -/
structure Still (w w' : World κ) : Prop where
  ordered : w.components.Sorted → w'.components.Sorted
  /-- A component was there before, except that it may have moved to another node. -/
  components : ∀ id c', w'.components.get? id = some c' →
    ∃ c node, w.components.get? id = some c ∧ c' = { c with node }
  listeners : ∀ t, (w'.target t).listeners = (w.target t).listeners
  loans : w'.loans = w.loans
  nextComponent : w.nextComponent ≤ w'.nextComponent
  nextListener : w.nextListener ≤ w'.nextListener

/-- Listeners are left alone, and no component was bound or unbound; the runtimes have the global
events that they had. -/
structure Spared (w w' : World κ) : Prop extends w.Still w' where
  present : ∀ t, (w'.target t).present = (w.target t).present
  switchable : ∀ t, (w'.target t).switchable = (w.target t).switchable
  record : ∃ new, w'.record = new ++ w.record ∧ ∀ o ∈ new, ¬o.Binds

section

variable {w w' : World κ}

theorem Still.of_eq (hc : w'.components = w.components) (ht : w'.targets = w.targets)
    (hl : w'.loans = w.loans) (hn : w'.nextComponent = w.nextComponent)
    (hn' : w.nextListener ≤ w'.nextListener) : w.Still w' where
  ordered h := hc ▸ h
  components id c' h := ⟨c', c'.node, hc ▸ h, rfl⟩
  listeners t := by simp only [World.target, ht]
  loans := hl
  nextComponent := Nat.le_of_eq hn.symm
  nextListener := hn'

theorem Spared.of_still (h : w.Still w') (ht : w'.targets = w.targets)
    (hr : ∃ new, w'.record = new ++ w.record ∧ ∀ o ∈ new, ¬o.Binds) : w.Spared w' where
  toStill := h
  present t := by simp only [World.target, ht]
  switchable t := by simp only [World.target, ht]
  record := hr

/-- The record is as it was. -/
theorem Spared.of_eq (hc : w'.components = w.components) (ht : w'.targets = w.targets)
    (hl : w'.loans = w.loans) (hn : w'.nextComponent = w.nextComponent)
    (hn' : w.nextListener ≤ w'.nextListener) (hr : w'.record = w.record) : w.Spared w' :=
  .of_still (.of_eq hc ht hl hn hn') ht ⟨[], hr, nofun⟩

theorem Spared.refl (w : World κ) : w.Spared w := .of_eq rfl rfl rfl rfl (Nat.le_refl _) rfl

theorem Spared.of_record (new : List (Occurrence κ)) (hn : ∀ o ∈ new, ¬o.Binds) :
    w.Spared { w with record := new ++ w.record } :=
  .of_still (.of_eq rfl rfl rfl rfl (Nat.le_refl _)) rfl ⟨new, rfl, hn⟩

theorem Spared.trans {w'' : World κ} (h : w.Spared w') (h' : w'.Spared w'') : w.Spared w'' where
  ordered hw := h'.ordered (h.ordered hw)
  components id c'' hc'' := by
    obtain ⟨c', node', hc', rfl⟩ := h'.components id c'' hc''
    obtain ⟨c, node, hc, rfl⟩ := h.components id c' hc'
    exact ⟨c, node', hc, rfl⟩
  listeners t := (h'.listeners t).trans (h.listeners t)
  loans := h'.loans.trans h.loans
  nextComponent := Nat.le_trans h.nextComponent h'.nextComponent
  nextListener := Nat.le_trans h.nextListener h'.nextListener
  present t := (h'.present t).trans (h.present t)
  switchable t := (h'.switchable t).trans (h.switchable t)
  record := by
    obtain ⟨new, hr, hn⟩ := h.record
    obtain ⟨new', hr', hn'⟩ := h'.record
    refine ⟨new' ++ new, by rw [hr', hr, List.append_assoc], fun o ho => ?_⟩
    exact (List.mem_append.1 ho).elim (hn' o) (hn o)

theorem Spared.discarded (w : World κ) (h : HostId) (selection : Cache.Selection)
    (cause : Cause) : w.Spared (w.discarded h selection cause) :=
  .of_still (.of_eq rfl rfl rfl rfl (Nat.le_refl _)) rfl ⟨_, rfl, fun o ho => by
    obtain ⟨_, -, rfl⟩ := List.mem_map.1 (List.mem_reverse.1 ho)
    exact id⟩

theorem Spared.withoutComponent (w : World κ) (c : ComponentId) :
    w.Spared (w.withoutComponent c) := by
  refine .of_still ⟨fun h => h.erase c, fun id c' hc' => ?_, fun _ => rfl, rfl, Nat.le_refl _,
    Nat.le_refl _⟩ rfl ⟨[], rfl, nofun⟩
  rw [World.withoutComponent, Dict.get?_erase] at hc'
  split at hc'
  · cases hc'
  · exact ⟨c', c'.node, hc', rfl⟩

/-- A runtime that cannot be switched keeps its global events. -/
theorem Spared.switch {t : TargetId} (on : Bool) (h : (w.target t).switchable = false) :
    w.Spared (w.setTarget t ((w.target t).switch on)) := by
  have hsame : (w.target t).switch on = w.target t := by
    rw [EventTarget.switch, h]
    rfl
  refine ⟨⟨id, fun _ c h => ⟨c, c.node, h, rfl⟩, fun t' => ?_, rfl, Nat.le_refl _,
    Nat.le_refl _⟩, fun t' => ?_, fun t' => ?_, [], rfl, nofun⟩
  all_goals
    rw [World.target_setTarget]
    split
    · next he => rw [hsame, he]
    · rfl

/-- A component that exists moves to another node. -/
theorem Spared.moved {id : ComponentId} {c : Component} (hc : w.components.get? id = some c)
    (node : Node) : w.Spared (w.setComponent id { c with node }) := by
  refine .of_still ⟨fun h => h.insert id _, fun id' c' hc' => ?_, fun _ => rfl, rfl, Nat.le_refl _,
    Nat.le_refl _⟩ rfl ⟨[], rfl, nofun⟩
  rw [World.setComponent, Dict.get?_insert] at hc'
  split at hc'
  · next he => exact ⟨c, node, he ▸ hc, (Option.some.inj hc').symm⟩
  · exact ⟨c', c'.node, hc', rfl⟩

end

/-- The invariant is about listeners and about what components have subscribed to; it is one of
worlds in which nothing is in use but the nodes of components that are rendered. -/
structure Hearing (inv : World κ → Prop) : Prop where
  spared : ∀ {w w'}, inv w → w.Spared w' → inv w'
  lent : ∀ {w}, inv w → ∀ id, inv { w with loans := (.node id, .read) :: w.loans }
  back : ∀ {w w'}, inv w → inv w' → inv { w' with loans := w.loans }

namespace Hearing

variable {inv : World κ → Prop} (hH : Hearing inv)
include hH

theorem of_spared {a : Act κ α} (h : ∀ w, a.Wp (· ≠ none) (fun _ w' => w.Spared w') w) :
    (Contract.leaving inv World.loans).Kept a :=
  fun w hw => (h w).mono fun _ _ hs => ⟨hH.spared hw hs, hs.loans⟩

theorem discard (h : HostId) (selection : Cache.Selection) (cause : Cause) :
    (Contract.leaving inv World.loans).Kept (Act.discard h selection cause) :=
  hH.of_spared fun w => by
    rw [Act.wp_discard]
    split
    · exact Option.some_ne_none _
    · exact .discarded ..

theorem settle (c : ComponentId) : (Contract.leaving inv World.loans).Kept (Act.settle c) :=
  hH.of_spared fun w => .settle Option.some_ne_none (.refl w) fun _ _ _ =>
    (Spared.withoutComponent w c).trans (.discarded ..)

theorem handling : (Contract.leaving inv World.loans).Handling where
  toHolding := .of_pins hH.settle fun hw _ =>
    ⟨hH.spared hw (.of_eq rfl rfl rfl rfl (Nat.le_refl _) rfl), rfl⟩
  handles hw _ := ⟨hH.spared hw (.of_eq rfl rfl rfl rfl (Nat.le_refl _) rfl), rfl⟩

theorem recorded {o : Occurrence κ} (ho : ¬o.Binds) :
    (Contract.leaving inv World.loans).Kept (Act.record o) :=
  hH.of_spared fun _ => .of_record [o] fun _ h => List.mem_singleton.1 h ▸ ho

theorem attending : (Contract.leaving inv World.loans).Attending where
  routine ho := hH.recorded ho.not_binds
  read cell f := hH.of_spared fun w => by
    rw [Act.wp_read]
    split
    · exact Option.some_ne_none _
    · exact .refl w
  lendNode id body h w hw := by
    rw [Act.wp_lend]
    split
    · exact Option.some_ne_none _
    · refine (h _ (hH.lent hw id)).mono fun x w' ⟨hw', hloans⟩ => ?_
      have hback : w'.loans.tail = w.loans := by
        rw [hloans]
        rfl
      rw [hback]
      exact ⟨hH.back hw hw', rfl⟩
  withComponent := hH.handling.keptWithComponent

theorem clearing : (Contract.leaving inv World.loans).Clearing where
  toAttending := hH.attending
  discard := hH.discard

theorem filing : (Contract.leaving inv World.loans).Filing where
  toAttending := hH.attending
  freshInstance _ := hH.of_spared fun _ => .of_eq rfl rfl rfl rfl (Nat.le_refl _) rfl
  freshList _ := hH.of_spared fun _ => .of_eq rfl rfl rfl rfl (Nat.le_refl _) rfl
  filed ho := hH.recorded ho.not_binds
  updateEntry h n f := hH.of_spared fun w => by
    rw [Act.wp_updateEntry]
    split
    · exact Option.some_ne_none _
    · exact .of_eq rfl rfl rfl rfl (Nat.le_refl _) rfl

theorem swapNode (id : ComponentId) (c : Component) (node : Node) :
    (Contract.leaving inv World.loans).Kept (Act.swapNode id c node) :=
  hH.of_spared fun w => by
    unfold Act.swapNode
    rw [Act.wp_lend]
    split
    · exact Option.some_ne_none _
    · rw [Act.wp_bind, Act.wp_get, Act.wp_bind, Act.updateComponent, Act.wp_modify, Act.wp_pure]
      cases hc : w.components.get? id with
      | none => exact .refl w
      | some c' => exact .moved hc node

end Hearing

end World

end LayeredViews
