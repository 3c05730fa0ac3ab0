import LayeredViews.Proofs.Owning

/-!
# Reasoning about actions

`Act.Wp E a Q w`: from the world `w` the action `a` ends with a value and a world of which `Q`
holds, or it stops for a reason of which `E` holds. With `E` false this says that the action does
not stop.

The `wp_*` lemmas go through an action step by step; those of the basic steps are `simp` lemmas.
`World.discarded` is the world after `Act.discard`, `World.pin` and `World.unpin` are those in which
`Act.pinned` begins and ends to hold a component.
-/

namespace LayeredViews

variable {κ : Client} {α β : Type}

/-- What holds where an action ends, and of the reason why it stops. -/
def Act.Wp (E : Option Halt → Prop) (a : Act κ α) (Q : α → World κ → Prop) (w : World κ) : Prop :=
  match a.run w with
  | .ok (x, w') => Q x w'
  | .error e => E e

namespace World

/-- The world after entries of a host were dropped. -/
def discarded (w : World κ) (h : HostId) (selection : Cache.Selection) (cause : Cause) :
    World κ :=
  { w with
    caches := w.caches.insert h ((w.cache h).reload selection).2
    record := (((w.cache h).reload selection).1.map fun node => .dropped h node cause).reverse ++
      w.record }

/-- The world without a component. -/
def withoutComponent (w : World κ) (c : ComponentId) : World κ :=
  { w with components := w.components.erase c }

/-- The world in which an operation holds a component more. -/
def pin (w : World κ) (c : ComponentId) : World κ := { w with pins := c :: w.pins }

/-- The world in which the operation that was last to hold a component has let it go. -/
def unpin (w : World κ) : World κ := { w with pins := w.pins.tail }

theorem current_of_get? {w : World κ} {id : ComponentId} {c : Component}
    (hc : w.components.get? id = some c) (c' : Component) : w.current id c' = c := by
  rw [current, Dict.getD, hc, Option.getD_some]

end World

namespace Act

variable {E : Option Halt → Prop} {Q : α → World κ → Prop} {w : World κ}

/-! ## The steps of a monad -/

@[simp] theorem wp_pure (x : α) : Wp E (pure x) Q w ↔ Q x w := Iff.rfl

@[simp] theorem wp_throw (e : Option Halt) : Wp E (throw e : Act κ α) Q w ↔ E e := Iff.rfl

@[simp] theorem wp_get {Q : World κ → World κ → Prop} : Wp E get Q w ↔ Q w w := Iff.rfl

@[simp] theorem wp_set {Q : PUnit → World κ → Prop} (w' : World κ) :
    Wp E (set w') Q w ↔ Q ⟨⟩ w' := Iff.rfl

@[simp] theorem wp_modify {Q : PUnit → World κ → Prop} (f : World κ → World κ) :
    Wp E (modify f) Q w ↔ Q ⟨⟩ (f w) := Iff.rfl

@[simp] theorem wp_bind (a : Act κ β) (f : β → Act κ α) :
    Wp E (a >>= f) Q w ↔ Wp E a (fun x w' => Wp E (f x) Q w') w := by
  unfold Wp
  rw [StateT.run_bind]
  cases a.run w with
  | ok p => exact Iff.rfl
  | error e => exact Iff.rfl

@[simp] theorem wp_map (f : β → α) (a : Act κ β) :
    Wp E (f <$> a) Q w ↔ Wp E a (fun x w' => Q (f x) w') w := by
  rw [← bind_pure_comp, wp_bind]
  exact Iff.rfl

theorem wp_ite {c : Prop} [Decidable c] (a b : Act κ α) :
    Wp E (if c then a else b) Q w ↔ if c then Wp E a Q w else Wp E b Q w := by
  split <;> exact Iff.rfl

/-- Where `Q` holds and follows `Q'`. -/
theorem Wp.mono {a : Act κ α} {Q' : α → World κ → Prop} (h : Wp E a Q w)
    (hQ : ∀ x w', Q x w' → Q' x w') : Wp E a Q' w := by
  unfold Wp at h ⊢
  cases hr : a.run w with
  | ok p =>
    rw [hr] at h
    exact hQ _ _ h
  | error e =>
    rw [hr] at h
    exact h

/-- Where the reasons to stop are among others. -/
theorem Wp.weaken {a : Act κ α} {E' : Option Halt → Prop} (h : Wp E a Q w)
    (hE : ∀ e, E e → E' e) : Wp E' a Q w := by
  unfold Wp at h ⊢
  cases hr : a.run w with
  | ok p =>
    rw [hr] at h
    exact h
  | error e =>
    rw [hr] at h
    exact hE e h

/-- Nothing is asked for. -/
theorem Wp.any (a : Act κ α) (w : World κ) : Wp (fun _ => True) a (fun _ _ => True) w := by
  unfold Wp
  cases a.run w with
  | ok p => trivial
  | error e => trivial

theorem Wp.and {a : Act κ α} {Q' : α → World κ → Prop} (h : Wp E a Q w) (h' : Wp E a Q' w) :
    Wp E a (fun x w' => Q x w' ∧ Q' x w') w := by
  unfold Wp at h h' ⊢
  cases hr : a.run w with
  | ok p =>
    rw [hr] at h h'
    exact ⟨h, h'⟩
  | error e =>
    rw [hr] at h
    exact h

/-- What an action does whether or not it is known why it may stop. -/
theorem Wp.and_any {a : Act κ α} {Q' : α → World κ → Prop} (h : Wp E a Q w)
    (h' : Wp (fun _ => True) a Q' w) : Wp E a (fun x w' => Q x w' ∧ Q' x w') w := by
  unfold Wp at h h' ⊢
  cases hr : a.run w with
  | ok p =>
    rw [hr] at h h'
    exact ⟨h, h'⟩
  | error e =>
    rw [hr] at h
    exact h

theorem Wp.of_run {a : Act κ α} {x : α} {w' : World κ} (h : Wp E a Q w)
    (hr : a.run w = .ok (x, w')) : Q x w' := by
  rw [Wp, hr] at h
  exact h

theorem Wp.of_stop {a : Act κ α} {e : Option Halt} (h : Wp E a Q w)
    (hr : a.run w = .error e) : E e := by
  rw [Wp, hr] at h
  exact h

/-- An action that stops. -/
theorem wp_stop_iff {a : Act κ α} {e : Option Halt} :
    Wp (· = e) a (fun _ _ => False) w ↔ a.run w = .error e := by
  unfold Wp
  cases a.run w with
  | ok p => simp
  | error e' => simp

theorem Wp.bind {a : Act κ β} {f : β → Act κ α} {P : β → World κ → Prop} (h : Wp E a P w)
    (hf : ∀ x w', P x w' → Wp E (f x) Q w') : Wp E (a >>= f) Q w :=
  (wp_bind a f).2 (h.mono hf)

/-- An action that does not stop ends. -/
theorem Wp.run_eq {a : Act κ α} (h : Wp (fun _ => False) a Q w) :
    ∃ x w', a.run w = .ok (x, w') ∧ Q x w' := by
  unfold Wp at h
  cases hr : a.run w with
  | ok p =>
    rw [hr] at h
    exact ⟨p.1, p.2, rfl, h⟩
  | error e =>
    rw [hr] at h
    exact h.elim

/-- An action whose end is known. -/
theorem run_of_wp {a : Act κ α} {x : α} {v : World κ}
    (h : Wp (fun _ => False) a (fun y u => y = x ∧ u = v) w) : a.run w = .ok (x, v) := by
  obtain ⟨_, _, hr, rfl, rfl⟩ := h.run_eq
  exact hr

theorem run_bind_of {a : Act κ α} {f : α → Act κ β} {x : α} {v : World κ}
    (h : a.run w = .ok (x, v)) : (a >>= f).run w = (f x).run v := by
  rw [StateT.run_bind, h]
  rfl

/-! ## Parts of the world in use -/

@[simp] theorem wp_record {Q : Unit → World κ → Prop} (o : Occurrence κ) :
    Wp E (record o) Q w ↔ Q () { w with record := o :: w.record } := Iff.rfl

theorem wp_lend (cell : Cell) (access : Access) (body : Act κ α) :
    Wp E (lend cell access body) Q w ↔
      if w.conflicts cell access then E (some (.conflict cell))
      else Wp E body (fun x w' => Q x { w' with loans := w'.loans.tail })
        { w with loans := (cell, access) :: w.loans } := by
  unfold lend
  rw [wp_bind, wp_get, wp_ite]
  split
  · exact Iff.rfl
  · simp only [wp_bind, wp_set, wp_modify, wp_pure]

theorem wp_read (cell : Cell) (f : World κ → α) :
    Wp E (read cell f) Q w ↔
      if w.conflicts cell .read then E (some (.conflict cell))
      else Q (f { w with loans := (cell, .read) :: w.loans }) w := wp_lend cell .read _

theorem wp_write {Q : Unit → World κ → Prop} (cell : Cell) (f : World κ → World κ) :
    Wp E (write cell f) Q w ↔
      if w.conflicts cell .write then E (some (.conflict cell))
      else Q () { f { w with loans := (cell, .write) :: w.loans } with
        loans := (f { w with loans := (cell, .write) :: w.loans }).loans.tail } :=
  wp_lend cell .write _

theorem wp_nodeOf {Q : Node → World κ → Prop} (id : ComponentId) (c : Component) :
    Wp E (nodeOf id c) Q w ↔
      if w.conflicts (.node id) .read then E (some (.conflict (.node id)))
      else Q (w.current id c).node w := wp_read _ _

theorem wp_entryOf {Q : Entry → World κ → Prop} (h : HostId) (node : NodeId) :
    Wp E (entryOf h node) Q w ↔
      if w.conflicts (.entries h) .read then E (some (.conflict (.entries h)))
      else Q (w.entry h node) w := wp_read _ _

theorem wp_updateEntry {Q : Unit → World κ → Prop} (h : HostId) (node : NodeId)
    (f : Entry → Entry) :
    Wp E (updateEntry h node f) Q w ↔
      if w.conflicts (.entries h) .write then E (some (.conflict (.entries h)))
      else Q () (w.setCache h ((w.cache h).insert node (f (w.entry h node)))) := by
  unfold updateEntry
  rw [wp_lend]
  split
  · exact Iff.rfl
  · simp only [wp_bind, wp_get, wp_set, giveUp_nothing, wp_pure]
    exact Iff.rfl

theorem wp_forM_cons {γ : Type} {Q : PUnit → World κ → Prop} (x : γ) (l : List γ)
    (f : γ → Act κ PUnit) :
    Wp E ((x :: l).forM f) Q w ↔ Wp E (f x) (fun _ w' => Wp E (l.forM f) Q w') w :=
  wp_bind (f x) fun _ => l.forM f

/-- Notes about the members of a list come one after the other. -/
theorem wp_forM_record {Q : PUnit → World κ → Prop} {γ : Type} (l : List γ)
    (o : γ → Occurrence κ) :
    Wp E (l.forM fun x => record (o x)) Q w ↔
      Q ⟨⟩ { w with record := (l.map o).reverse ++ w.record } := by
  induction l generalizing w with
  | nil => exact Iff.rfl
  | cons x rest ih =>
    rw [wp_forM_cons, wp_record, ih]
    simp

theorem wp_takeOut {Q : Nat × List Instance → World κ → Prop} (h : HostId)
    (selection : Cache.Selection) (cause : Cause) :
    Wp E (takeOut h selection cause) Q w ↔
      if w.conflicts (.entries h) .write then E (some (.conflict (.entries h)))
      else Q (((w.cache h).reload selection).1.length, (w.cache h).instances selection)
        (w.discarded h selection cause) := by
  unfold takeOut
  rw [wp_lend]
  split
  · exact Iff.rfl
  · simp only [wp_bind, wp_get, wp_set, wp_forM_record, wp_pure]
    exact Iff.rfl

theorem wp_discard {Q : Nat → World κ → Prop} (h : HostId) (selection : Cache.Selection)
    (cause : Cause) :
    Wp E (discard h selection cause) Q w ↔
      if w.conflicts (.entries h) .write then E (some (.conflict (.entries h)))
      else Q ((w.cache h).reload selection).1.length (w.discarded h selection cause) := by
  unfold discard
  rw [wp_bind, wp_takeOut]
  simp only [wp_bind, giveUp_nothing, wp_pure]

theorem wp_settle {Q : Unit → World κ → Prop} (c : ComponentId) :
    Wp E (settle c) Q w ↔
      if w.holds c then Q () w
      else match w.components.get? c with
        | none => Q () w
        | some comp =>
          if w.conflicts (.entries comp.host) .write then E (some (.conflict (.entries comp.host)))
          else Q () ((w.withoutComponent c).discarded comp.host (.node comp.node.id)
            (.release c)) := by
  unfold settle
  rw [wp_bind, wp_get]
  by_cases hh : w.holds c = true
  · simp [hh]
  · simp only [hh]
    cases w.components.get? c with
    | none => simp
    | some comp =>
      simp [wp_discard]
      rfl

/-- Letting a component go drops it, with what is stored for its node, or changes nothing. -/
theorem Wp.settle {Q : Unit → World κ → Prop} {c : ComponentId} (stops : ∀ halt, E (some halt))
    (stays : Q () w)
    (drops : w.holds c = false → ∀ comp, w.components.get? c = some comp →
      Q () ((w.withoutComponent c).discarded comp.host (.node comp.node.id) (.release c))) :
    Wp E (Act.settle c) Q w := by
  rw [wp_settle]
  split
  · exact stays
  · next hfree =>
    cases hc : w.components.get? c with
    | none => exact stays
    | some comp =>
      dsimp only
      split
      · exact stops _
      · exact drops (by simpa using hfree) comp hc

theorem wp_pinned (c : ComponentId) (body : Act κ α) :
    Wp E (pinned c body) Q w ↔
      Wp E body (fun x w' => Wp E (settle c) (fun _ => Q x) w'.unpin) (w.pin c) := by
  simp only [pinned, wp_bind, wp_modify, wp_pure]
  exact Iff.rfl

theorem wp_withComponent {Q : Option α → World κ → Prop} (c : ComponentId)
    (body : Component → Act κ α) :
    Wp E (withComponent c body) Q w ↔
      match w.components.get? c with
      | none => Q none w
      | some comp => Wp E (pinned c (some <$> body comp)) Q w := by
  unfold withComponent
  rw [wp_bind, wp_get]
  cases w.components.get? c with
  | none => exact Iff.rfl
  | some comp => exact Iff.rfl

/-- An operation stops where its body does. -/
theorem withComponent_stop {c : ComponentId} {body : Component → Act κ α} {comp : Component}
    {e : Option Halt} (hc : w.components.get? c = some comp)
    (h : (body comp).run (w.pin c) = .error e) : (withComponent c body).run w = .error e := by
  refine wp_stop_iff.1 ?_
  rw [wp_withComponent, hc]
  dsimp only
  rw [wp_pinned, wp_map]
  exact (wp_stop_iff.2 h).mono fun _ _ hfalse => hfalse.elim

/-! ## Steps of the operations -/

@[simp] theorem wp_freshInstance {Q : Instance → World κ → Prop} (factory : Factory) :
    Wp E (freshInstance factory) Q w ↔
      Q ⟨w.nextInstance, factory⟩ { w with nextInstance := w.nextInstance + 1 } := Iff.rfl

@[simp] theorem wp_freshList {Q : ViewList → World κ → Prop} (views : List ResolvedView) :
    Wp E (freshList views) Q w ↔
      Q ⟨w.nextList, views⟩ { w with nextList := w.nextList + 1 } := Iff.rfl

@[simp] theorem wp_freshListener {Q : Listener → World κ → Prop} (callback : Callback) :
    Wp E (freshListener callback) Q w ↔
      Q ⟨w.nextListener, callback⟩ { w with nextListener := w.nextListener + 1 } := Iff.rfl

@[simp] theorem wp_freshComponent {Q : ComponentId → World κ → Prop} (c : Component) :
    Wp E (freshComponent c) Q w ↔
      Q w.nextComponent
        { w.setComponent w.nextComponent c with nextComponent := w.nextComponent + 1 } := Iff.rfl

theorem wp_updateTarget {Q : Unit → World κ → Prop} (t : TargetId)
    (f : EventTarget → EventTarget) :
    Wp E (updateTarget t f) Q w ↔
      if w.conflicts (.listeners t) .write then E (some (.conflict (.listeners t)))
      else Q () (w.setTarget t (f (w.target t))) := wp_write _ _

@[simp] theorem wp_buildType {Q : Except Error Metadata → World κ → Prop} (type : ComponentType) :
    Wp E (buildType type) Q w ↔
      Q type.build.result
        { w with record := (type.build.ran.map .defined).reverse ++ w.record } := by
  simp only [buildType, wp_bind, wp_forM_record, wp_pure]

theorem wp_swapNode {Q : Node → World κ → Prop} {id : ComponentId} {c : Component}
    (hc : w.components.get? id = some c) (node : Node) :
    Wp E (swapNode id c node) Q w ↔
      if w.conflicts (.node id) .write then E (some (.conflict (.node id)))
      else Q c.node (w.setComponent id { c with node }) := by
  unfold swapNode updateComponent
  rw [wp_lend]
  split
  · exact Iff.rfl
  · simp only [wp_bind, wp_get, wp_modify, wp_pure, hc]
    show Q (w.current id c).node (w.setComponent id { c with node }) ↔ _
    rw [World.current_of_get? hc]

theorem wp_bindHandle {Q : Unit → World κ → Prop} (as : Handle) (c : ComponentId) :
    Wp E (bindHandle as c) Q w ↔
      match w.handles.get? as with
      | some old => Wp E (settle old) Q { w with handles := w.handles.insert as c }
      | none => Q () { w with handles := w.handles.insert as c } := by
  unfold bindHandle
  simp only [wp_bind, wp_get, wp_set]
  cases w.handles.get? as with
  | some old => exact Iff.rfl
  | none => exact Iff.rfl

theorem wp_release {Q : Bool → World κ → Prop} (h : Handle) :
    Wp E (release h) Q w ↔
      match w.handles.get? h with
      | some old =>
        Wp E (settle old) (fun _ => Q true) { w with handles := w.handles.erase h }
      | none => Q false w := by
  unfold release
  simp only [wp_bind, wp_get]
  cases w.handles.get? h with
  | some old => simp only [wp_bind, wp_set, wp_pure]
  | none => exact Iff.rfl

end Act

end LayeredViews
