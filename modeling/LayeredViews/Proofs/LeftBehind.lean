import LayeredViews.Proofs.Tenure
import LayeredViews.Proofs.Unheard

/-!
# Listeners that are left behind

A component retains the listeners that it has registered, and gives them back when it is unbound. It
does not give them back when it is dropped.

* `World.Retained`: a component that exists, is bound and is held by a variable retains the
  listener.
* `World.Deserted`: a component was dropped while it was bound.
* `listeners_of_exec`: after a run every registered listener is retained, or it is that of a
  component that has deserted it. Where no component has, nothing is registered once all components
  are gone.
* `listener_left_behind`: a component deserts its listener when it is dropped without being
  unmounted.
-/

namespace LayeredViews

variable {κ : Client} {α : Type}

/-- Component `i` has registered the subscription on the target and retains it: it exists, is bound,
and a variable holds it. -/
def World.Retained (host : HostId → Host) (w : World κ) (t : TargetId) (s : Subscription)
    (i : ComponentId) : Prop :=
  w.InVariable i ∧ ∃ c, w.components.get? i = some c ∧ (host c.host).target = some t ∧
    c.subscriptions.bound = true ∧ s ∈ c.subscriptions.entries

/-- The component was initialized, it was not unbound since, and now it is gone. -/
def World.Deserted (w : World κ) (i : ComponentId) : Prop :=
  i < w.nextComponent ∧ w.components.get? i = none ∧ Lively i w.record

/-- After an operation that unbinds a component, the component has not deserted anything, whether or
not it is still there. -/
theorem Retired.not_deserted {w : World κ} {i : ComponentId} (h : Retired i w.record) :
    ¬w.Deserted i := fun hd => h.not_lively hd.2.2

section

variable {host : HostId → Host} {w : World κ}

/-- A component that has a listener registered retains it, or is gone. -/
theorem Attributed.retained_or_deserted {others : Prop} {i : ComponentId}
    (hw : Attributed host others i w) (hvar : ∀ p, w.location i = some p → w.InVariable i)
    {t : TargetId} {r : Subscription} (hr : r ∈ (w.target t).listeners) {m : Method}
    (hm : r.listener.callback = .method i m) : w.Retained host t r i ∨ w.Deserted i := by
  obtain ⟨hlt, hlively, hent⟩ := hw.owned t r hr m hm
  cases hc : w.components.get? i with
  | none => exact .inr ⟨hlt, hc, hlively⟩
  | some c =>
    obtain ⟨ht, hmem⟩ := hent c hc
    have hbound : c.subscriptions.bound = true := by
      refine (Bool.eq_false_or_eq_true _).resolve_right fun hb => ?_
      rw [(hw.consistent i c hc).unbound hb] at hmem
      cases hmem
    exact .inl ⟨hvar _ (World.location_of_get? hc), c, hc, ht, hbound, hmem⟩

/-- A target without listeners has nobody to call. -/
theorem Subscribed.dispatch_nobody (hw : Subscribed host w) {t : TargetId}
    (ht : (w.target t).listeners = []) (user : Callbacks (Act κ)) (event : GlobalEvent) :
    (Setting.dispatch ⟨host, user⟩ t event).run w = .ok (0, w) := by
  have hnone : (w.target t).listening event.name = [] := by rw [EventTarget.listening, ht]; rfl
  rw [hw.dispatch_run, hnone]
  rfl

end

/-- **Listeners after a run.** On runtimes that have global events, and where components register
all listeners: when a run has ended, every registered listener calls a method of a component that
retains it, or of one that was dropped while it was bound. If no component was, then nothing is
registered once all components are gone, and a dispatch calls nobody. -/
theorem listeners_of_exec (app : Application κ) (prog : Program κ α)
    {targets : Dict TargetId EventTarget} (memory : κ.Memory) (hf : Fresh targets)
    (hcode : app.code.Uses Op.Managed) (hprog : prog.Uses Op.Managed) {depth : Nat} {a : α}
    {v : World κ} (hrun : (app.exec depth prog).run (World.start targets memory) = .ok (a, v)) :
    (∀ t, ∀ r ∈ (v.target t).listeners, ∃ i m, r.listener.callback = .method i m ∧
      (v.Retained app.host t r i ∨ v.Deserted i)) ∧
    ((∀ i, ¬v.Deserted i) → (∀ i, v.components.get? i = none) →
      ∀ t, (v.target t).listeners = [] ∧ ∀ (user : Callbacks (Act κ)) event,
        (Setting.dispatch ⟨app.host, user⟩ t event).run v = .ok (0, v)) := by
  have hinv : ∀ i, Attributed app.host False i v := fun i =>
    (((attributed_managing app.host False i).sound.exec hcode depth hprog _
      (attributed_start hf memory)).of_run hrun).1
  have howner : ∀ t, ∀ r ∈ (v.target t).listeners, ∃ i m, r.listener.callback = .method i m ∧
      (v.Retained app.host t r i ∨ v.Deserted i) := by
    intro t r hr
    obtain ⟨i, m, hm⟩ := (hinv 0).named.resolve_left id t r hr
    exact ⟨i, m, hm, (hinv i).retained_or_deserted
      (fun _ hi => inVariable_of_exec app prog targets memory hrun hi) hr hm⟩
  refine ⟨howner, fun hkept hgone t => ?_⟩
  have hempty : (v.target t).listeners = [] := by
    refine List.eq_nil_iff_forall_not_mem.2 fun r hr => ?_
    obtain ⟨i, m, -, ⟨-, c, hc, -⟩ | hd⟩ := howner t r hr
    · rw [hgone i] at hc
      cases hc
    · exact hkept i hd
  exact ⟨hempty, (hinv 0).toSubscribed.dispatch_nobody hempty⟩

namespace Quitter

/-- Mounts two components with the same event; unmounts the first one and lets it go. -/
def orderly : Program ⟨Unit, Empty⟩ Unit :=
  Closer.mounting <| .call (.unmount 0) fun _ => .call (.release ⟨0, "first"⟩) fun _ => .done ()

/-- Mounts a component and lets it go. -/
def program : Program ⟨Unit, Empty⟩ Unit :=
  .call (.mount 0 Ticker.type ⟨1, ∅⟩ ⟨0, "only"⟩) fun _ =>
  .call (.release ⟨0, "only"⟩) fun _ => .done ()

theorem code_uses : Ticker.application.code.Uses Op.Managed :=
  ⟨fun _ _ => trivial, fun _ => trivial, fun _ _ => trivial, fun _ _ _ => trivial,
    fun _ _ => trivial⟩

theorem orderly_uses : orderly.Uses Op.Managed :=
  ⟨trivial, fun _ => ⟨trivial, fun _ => ⟨trivial, fun _ => ⟨trivial, fun _ => trivial⟩⟩⟩⟩

end Quitter

/-- Of two components with the same event, one of them unmounted and dropped, the other one retains
the only listener. -/
theorem listeners_of_exec_orderly :
    ∃ v r, Fresh ∅ ∧ Ticker.application.code.Uses Op.Managed ∧ Quitter.orderly.Uses Op.Managed ∧
      (Ticker.application.exec 1 Quitter.orderly).run (World.start ∅ ()) = .ok ((), v) ∧
      v.components.get? 0 = none ∧ (v.target 0).listeners = [r] ∧
      ∃ i, v.Retained Ticker.application.host 0 r i := by
  let v : World ⟨Unit, Empty⟩ := Ticker.application.worldAfter 1 Quitter.orderly (World.start ∅ ())
  have hrun : (Ticker.application.exec 1 Quitter.orderly).run (World.start ∅ ()) = .ok ((), v) :=
    Application.run_eq_worldAfter (by decide +kernel)
  have hf : Fresh ∅ := fun _ _ h => by cases h
  have hgone : (v.components.get? 0).isNone = true := by decide +kernel
  have hone : (v.target 0).listeners.length = 1 := by decide +kernel
  obtain ⟨r, hr⟩ := List.length_eq_one_iff.1 hone
  have hnone : ∀ i, ¬v.Deserted i := by
    intro i hd
    have hnext : v.nextComponent = 2 := by decide +kernel
    have hretired : Retired 0 v.record := retired_sound (by decide +kernel)
    have hpresent : (v.components.get? 1).isSome = true := by decide +kernel
    have hlt : i < 2 := hnext ▸ hd.1
    obtain rfl | rfl := Nat.le_one_iff_eq_zero_or_eq_one.1 (Nat.le_of_lt_succ hlt)
    · exact hretired.not_deserted hd
    · simp [hd.2.1] at hpresent
  obtain ⟨i, m, -, hi⟩ := (listeners_of_exec Ticker.application Quitter.orderly () hf
    Quitter.code_uses Quitter.orderly_uses hrun).1 0 r (hr ▸ List.mem_singleton_self r)
  exact ⟨v, r, hf, Quitter.code_uses, Quitter.orderly_uses, hrun, Option.isNone_iff_eq_none.1 hgone,
    hr, i, hi.resolve_right (hnone i)⟩

/-- It is not so that after every run all registered listeners are retained by components that are
held: one may be left when there is no component any more. -/
theorem listener_left_behind :
    ¬∀ (κ : Client) (app : Application κ) (prog : Program κ Unit) (memory : κ.Memory)
      (depth : Nat) (v : World κ), app.code.Uses Op.Managed → prog.Uses Op.Managed →
      (app.exec depth prog).run (World.start ∅ memory) = .ok ((), v) →
        ∀ t, ∀ r ∈ (v.target t).listeners, ∃ i, v.Retained app.host t r i := by
  intro hretained
  let v : World ⟨Unit, Empty⟩ := Ticker.application.worldAfter 1 Quitter.program (World.start ∅ ())
  have hrun : (Ticker.application.exec 1 Quitter.program).run (World.start ∅ ()) = .ok ((), v) :=
    Application.run_eq_worldAfter (by decide +kernel)
  have hone : (v.target 0).listeners.length = 1 := by decide +kernel
  obtain ⟨r, hr⟩ := List.length_eq_one_iff.1 hone
  obtain ⟨i, -, c, hc, -⟩ := hretained _ Ticker.application Quitter.program () 1 v
    Quitter.code_uses ⟨trivial, fun _ => ⟨trivial, fun _ => trivial⟩⟩ hrun 0 r
    (hr ▸ List.mem_singleton_self r)
  have hempty : v.components.entries = [] := List.isEmpty_iff.1 (by decide +kernel)
  rw [Dict.get?, hempty] at hc
  cases hc

end LayeredViews
