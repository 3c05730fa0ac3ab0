import LayeredViews.Proofs.Keeping

/-!
# Contracts about what is stored

What is stored for nodes does not depend on components, handles, targets, or on what is in use.

* `World.Calm`: a step that leaves the entries alone and records nothing about them.
* `Contract.Calming`: calm steps and drops keep the contract; then so do all operations that
  resolve nothing (`Contract.Calming.perform`).
* `Contract.Calming.sound`: where the operations that resolve keep it too, all do.
-/

namespace LayeredViews

variable {κ : Client} {α : Type}

/-- The entries are left alone, and nothing is recorded that is about them. -/
structure World.Calm (w w' : World κ) : Prop where
  caches : w'.caches = w.caches
  record : ∃ new, w'.record = new ++ w.record ∧ ∀ o ∈ new, o.Idle
  instances : w.nextInstance ≤ w'.nextInstance
  lists : w.nextList ≤ w'.nextList
  nodes : w.nextNode ≤ w'.nextNode

namespace World.Calm

variable {w w' : World κ}

theorem of_le (hc : w'.caches = w.caches) (hr : w'.record = w.record)
    (hi : w.nextInstance ≤ w'.nextInstance) (hl : w.nextList ≤ w'.nextList)
    (hn : w.nextNode ≤ w'.nextNode) : w.Calm w' :=
  ⟨hc, ⟨[], hr, by simp⟩, hi, hl, hn⟩

theorem of_eq (hc : w'.caches = w.caches) (hr : w'.record = w.record)
    (hi : w'.nextInstance = w.nextInstance) (hl : w'.nextList = w.nextList)
    (hn : w'.nextNode = w.nextNode) : w.Calm w' :=
  .of_le hc hr (Nat.le_of_eq hi.symm) (Nat.le_of_eq hl.symm) (Nat.le_of_eq hn.symm)

theorem of_record (new : List (Occurrence κ)) (hn : ∀ o ∈ new, o.Idle) :
    w.Calm { w with record := new ++ w.record } :=
  ⟨rfl, ⟨new, rfl, hn⟩, Nat.le_refl _, Nat.le_refl _, Nat.le_refl _⟩

/-- An instance is numbered. -/
theorem counted (w : World κ) : w.Calm { w with nextInstance := w.nextInstance + 1 } :=
  .of_le rfl rfl (Nat.le_succ _) (Nat.le_refl _) (Nat.le_refl _)

/-- A list of views is numbered. -/
theorem listed (w : World κ) : w.Calm { w with nextList := w.nextList + 1 } :=
  .of_le rfl rfl (Nat.le_refl _) (Nat.le_succ _) (Nat.le_refl _)

/-- A node is numbered. -/
theorem placed (w : World κ) : w.Calm { w with nextNode := w.nextNode + 1 } :=
  .of_le rfl rfl (Nat.le_refl _) (Nat.le_refl _) (Nat.le_succ _)

theorem trans {w'' : World κ} (h : w.Calm w') (h' : w'.Calm w'') : w.Calm w'' where
  caches := h'.caches.trans h.caches
  record := by
    obtain ⟨new, hr, hn⟩ := h.record
    obtain ⟨new', hr', hn'⟩ := h'.record
    refine ⟨new' ++ new, by rw [hr', hr, List.append_assoc], fun o ho => ?_⟩
    exact (List.mem_append.1 ho).elim (hn' o) (hn o)
  instances := Nat.le_trans h.instances h'.instances
  lists := Nat.le_trans h.lists h'.lists
  nodes := Nat.le_trans h.nodes h'.nodes

theorem cache (h : w.Calm w') (host : HostId) : w'.cache host = w.cache host := by
  simp only [World.cache, h.caches]

theorem entry (h : w.Calm w') (host : HostId) (n : NodeId) : w'.entry host n = w.entry host n := by
  simp only [World.entry, h.cache]

end World.Calm

namespace Contract

variable (C : Contract κ)

/-- The contract is about what is stored, and not about what is in use. -/
structure Calming : Prop where
  calm : ∀ {w w'}, C.inv w → w.Calm w' → C.inv w' ∧ C.step w w'
  discard : ∀ h selection cause, C.Kept (Act.discard h selection cause)
  stops : ∀ e, C.stops (some e)

variable {C}

namespace Calming

variable (hC : C.Calming)
include hC

theorem of_calm {a : Act κ α} (h : ∀ w, a.Wp C.stops (fun _ w' => w.Calm w') w) : C.Kept a :=
  fun w hw => (h w).mono fun _ _ hcalm => hC.calm hw hcalm

theorem idle {o : Occurrence κ} (ho : o.Idle) : C.Kept (Act.record o) :=
  hC.of_calm fun w => World.Calm.of_record [o] (by simpa using ho)

theorem lenient : C.Lenient where
  loans hw _ := hC.calm hw (.of_eq rfl rfl rfl rfl rfl)
  conflict _ := hC.stops _

theorem modify {f : World κ → World κ} (hf : ∀ w : World κ, w.Calm (f w)) :
    C.Kept (modify f : Act κ PUnit) := hC.of_calm hf

theorem settle (c : ComponentId) : C.Kept (Act.settle c) := by
  intro w hw
  unfold Act.settle
  rw [Act.wp_bind, Act.wp_get]
  by_cases hh : w.holds c = true
  · simpa [hh] using ⟨hw, C.refl w⟩
  · simp only [hh]
    cases w.components.get? c with
    | none => exact ⟨hw, C.refl w⟩
    | some comp =>
      have calm : w.Calm { w with components := w.components.erase c } := .of_eq rfl rfl rfl rfl rfl
      exact ((hC.discard _ _ _).bind fun _ => .pure ()).after (hC.calm hw calm)

theorem tended : C.Tended where
  toHolding := .of_pins hC.settle fun hw _ => hC.calm hw (.of_eq rfl rfl rfl rfl rfl)
  discard := hC.discard
  read := hC.lenient.read
  lendNode _ _ h := hC.lenient.lend _ _ h
  handles hw _ := hC.calm hw (.of_eq rfl rfl rfl rfl rfl)
  idle := hC.idle

theorem updateComponent (id : ComponentId) (f : Component → Component) :
    C.Kept (Act.updateComponent id f) :=
  hC.modify fun w => by
    cases w.components.get? id with
    | none => exact .of_eq rfl rfl rfl rfl rfl
    | some c => exact .of_eq rfl rfl rfl rfl rfl

/-- Calm steps and drops are what the operations that resolve nothing are made of. -/
theorem binding : C.Binding where
  toTended := hC.tended
  updateTarget _ _ := hC.lenient.lend _ _ (hC.modify fun _ => .of_eq rfl rfl rfl rfl rfl)
  freshListener _ := hC.of_calm fun _ => .of_eq rfl rfl rfl rfl rfl
  freshComponent _ := hC.of_calm fun _ => .of_eq rfl rfl rfl rfl rfl
  withSubscriptions id _ _ h :=
    hC.lenient.lend _ _ (.get_bind fun _ => (h _).bind fun ⟨a, _⟩ =>
      (hC.updateComponent id _).bind fun _ => .pure a)

theorem swapNode (id : ComponentId) (c : Component) (node : Node) :
    C.Kept (Act.swapNode id c node) :=
  hC.lenient.lend _ _ (.get_bind fun w => (hC.updateComponent id _).bind fun _ =>
    .pure (w.current id c).node)

theorem steady {host : HostId → Host} : C.Steady host where
  toClearing := hC.tended.toClearing
  freshListener := hC.binding.freshListener
  bind id := hC.tended.withComponent id fun c => hC.binding.init id c
  unbind id := hC.tended.withComponent id fun c => hC.binding.beforeRemove id c
  placed hw := hC.calm hw (.placed _)
  switched hw _ _ := hC.calm hw (.of_eq rfl rfl rfl rfl rfl)
  create := hC.binding.create
  mount := hC.binding.mount
  unmount id := hC.tended.withComponent id fun c => hC.binding.unmount id c
  bindHandle := hC.tended.bindHandle
  release := hC.tended.release

/-- An operation that does not resolve. -/
theorem perform {host : HostId → Host} {user : Callbacks (Act κ)} (hu : C.KeptBy user) {op : Op}
    (hr : ¬op.Resolves) : C.Kept (Setting.perform ⟨host, user⟩ op) := by
  by_cases hg : op.Registers
  · exact hC.binding.toRegistering.perform hC.tended.toAttending hg
  · cases op with
    | update id node =>
      exact hC.tended.withComponent id fun c => hC.tended.update id c node (hC.swapNode id c node)
    | _ => exact hC.steady.perform hu hr hg fun _ _ => nofun

theorem toOpen : C.Open where
  exhausted := hC.stops _
  memory hw _ := hC.calm hw (.of_eq rfl rfl rfl rfl rfl)
  note hw n := hC.calm hw (.of_record [.noted n] (by simp [Occurrence.Idle, Occurrence.Plain]))

/-- Every operation keeps the contract. -/
theorem sound {host : HostId → Host} (hR : C.Resolving host) : C.Sound host fun _ => True where
  toOpen := hC.toOpen
  perform user hu op _ := by
    by_cases hr : op.Resolves
    · exact (hR.answering hC.tended.toAttending).perform hu hr
    · exact hC.perform hu hr

end Calming

end Contract

end LayeredViews
