import LayeredViews.Proofs.Memo

/-!
# Whose an instance is

Views and view models are made for a node of a host, and what they keep is theirs. Code that calls
back may move the component while it is resolved, drop what is stored or resolve the node anew, so
an instance may be replaced; it is never given for another node.

* `Resolved.instances`: the instances of a view model, or of views and the view models bound to
  them.
* `Separate`: what is stored for different nodes, or by different hosts, has no instance in common,
  and views are bound to view models that were stored for their own node.
* `separate`: the contract; every operation keeps it (`separate_sound`).
-/

namespace LayeredViews

variable {κ : Client} {α β : Type}

/-- The instances of something resolved: a view model, or views with the view models bound to
them. -/
def Resolved.instances : Resolved → List InstanceId
  | .model m => [m.inst.id]
  | .views l => l.views.flatMap fun v => v.inst.id :: (v.model.map fun m => m.inst.id).toList

theorem Resolved.mem_instances_model {m : Model} {i : InstanceId} :
    i ∈ (Resolved.model m).instances ↔ i = m.inst.id := by
  rw [instances, List.mem_singleton]

theorem Resolved.mem_instances_views {l : ViewList} {i : InstanceId} :
    i ∈ (Resolved.views l).instances ↔
      ∃ v ∈ l.views, i = v.inst.id ∨ ∃ m, v.model = some m ∧ i = m.inst.id := by
  simp only [instances, List.mem_flatMap, List.mem_cons, Option.mem_toList, Option.map_eq_some_iff]
  constructor
  · rintro ⟨v, hv, rfl | ⟨m, hm, rfl⟩⟩
    · exact ⟨v, hv, .inl rfl⟩
    · exact ⟨v, hv, .inr ⟨m, hm, rfl⟩⟩
  · rintro ⟨v, hv, rfl | ⟨m, hm, rfl⟩⟩
    · exact ⟨v, hv, .inl rfl⟩
    · exact ⟨v, hv, .inr ⟨m, hm, rfl⟩⟩

/-- Nothing that has the instance was stored. -/
def Unstored (i : InstanceId) (past : List (Occurrence κ)) : Prop :=
  ∀ h n x, .stored h n x ∈ past → i ∉ x.instances

/-- No instance belongs to two nodes, or to two hosts. -/
structure Separate (w : World κ) : Prop where
  tidy : w.Tidy
  /-- What the entries have was stored, -/
  entries : ∀ h n a x, (w.entry h n).get? a = some x → .stored h n x ∈ w.record
  /-- and so was what was given. -/
  given : ∀ h n x, .gave h n x ∈ w.record → .stored h n x ∈ w.record
  numbered : ∀ h n x, .stored h n x ∈ w.record → ∀ i ∈ x.instances, i < w.nextInstance
  apart : ∀ h n x h' n' y, .stored h n x ∈ w.record → .stored h' n' y ∈ w.record →
    ∀ i, i ∈ x.instances → i ∈ y.instances → h = h' ∧ n = n'
  /-- Views are bound to view models of their own node. -/
  bound : ∀ h n l, .stored h n (.views l) ∈ w.record → ∀ v ∈ l.views, ∀ m, v.model = some m →
    .stored h n (.model m) ∈ w.record

/-- What code may do while something is resolved: it makes new instances and leaves alone those
that are not stored. -/
structure World.Grows (w w' : World κ) : Prop where
  record : ∃ new, w'.record = new ++ w.record
  next : w.nextInstance ≤ w'.nextInstance
  nodes : w.nextNode ≤ w'.nextNode
  unstored : ∀ i, i < w.nextInstance → Unstored i w.record → Unstored i w'.record

theorem World.Grows.refl (w : World κ) : w.Grows w :=
  ⟨⟨[], rfl⟩, Nat.le_refl _, Nat.le_refl _, fun _ _ h => h⟩

theorem World.Grows.trans {w₁ w₂ w₃ : World κ} (h : w₁.Grows w₂) (h' : w₂.Grows w₃) :
    w₁.Grows w₃ where
  record := by
    obtain ⟨new, hnew⟩ := h.record
    obtain ⟨new', hnew'⟩ := h'.record
    exact ⟨new' ++ new, by rw [hnew', hnew, List.append_assoc]⟩
  next := Nat.le_trans h.next h'.next
  nodes := Nat.le_trans h.nodes h'.nodes
  unstored i hi hu := h'.unstored i (Nat.lt_of_lt_of_le hi h.next) (h.unstored i hi hu)

theorem World.Grows.stored {w w' : World κ} (h : w.Grows w') {o : Occurrence κ}
    (ho : o ∈ w.record) : o ∈ w'.record := by
  obtain ⟨new, hnew⟩ := h.record
  rw [hnew]
  exact List.mem_append_right _ ho

/-- The contract between the operations and the code that they call. -/
def separate : Contract κ where
  inv := Separate
  step := World.Grows
  refl := World.Grows.refl
  trans := World.Grows.trans

@[simp] theorem separate_stops (e : Option Halt) : separate.stops (κ := κ) e ↔ e ≠ none := Iff.rfl

namespace Separate

variable {w w' : World κ} {h : HostId} {n : NodeId} {a : Aspect} {x : Resolved}

/-! ## Steps that store nothing -/

/-- Nothing is stored, and what is given was stored before. -/
theorem keep (hw : Separate w) {new : List (Occurrence κ)} (hr : w'.record = new ++ w.record)
    (hs : ∀ h n x, .stored h n x ∉ new)
    (hg : ∀ h n x, .gave h n x ∈ new → .stored h n x ∈ w.record)
    (hnext : w.nextInstance ≤ w'.nextInstance) (hnodes : w.nextNode ≤ w'.nextNode) (tidy : w'.Tidy)
    (he : ∀ h n a x, (w'.entry h n).get? a = some x → (w.entry h n).get? a = some x) :
    Separate w' ∧ w.Grows w' := by
  have stored_iff : ∀ h n x, .stored h n x ∈ w'.record ↔ .stored h n x ∈ w.record := by
    intro h n x
    rw [hr, List.mem_append]
    exact or_iff_right (hs h n x)
  refine ⟨⟨tidy, fun h n a x hx => ?_, fun h n x hx => ?_, fun h n x hx i hi => ?_,
    fun h n x h' n' y hx hy => ?_, fun h n l hl v hv m hm => ?_⟩,
    ⟨new, hr⟩, hnext, hnodes, fun i _ hu h n x hx => ?_⟩
  · exact (stored_iff h n x).2 (hw.entries h n a x (he h n a x hx))
  · rw [hr, List.mem_append] at hx
    rcases hx with hx | hx
    · exact (stored_iff h n x).2 (hg h n x hx)
    · exact (stored_iff h n x).2 (hw.given h n x hx)
  · exact Nat.lt_of_lt_of_le (hw.numbered h n x ((stored_iff h n x).1 hx) i hi) hnext
  · exact hw.apart h n x h' n' y ((stored_iff h n x).1 hx) ((stored_iff h' n' y).1 hy)
  · exact (stored_iff h n _).2 (hw.bound h n l ((stored_iff h n _).1 hl) v hv m hm)
  · exact hu h n x ((stored_iff h n x).1 hx)

theorem calm (hw : Separate w) (hc : w.Calm w') : Separate w' ∧ w.Grows w' := by
  obtain ⟨new, hr, hidle⟩ := hc.record
  refine hw.keep hr (fun h n x hx => hidle _ hx) (fun h n x hx => (hidle _ hx).elim) hc.instances
    hc.nodes (fun h => ?_) fun h n a x hx => ?_
  · rw [hc.cache]
    exact hw.tidy h
  · rwa [hc.entry] at hx

theorem discarded (hw : Separate w) (h : HostId) (selection : Cache.Selection) (cause : Cause) :
    Separate (w.discarded h selection cause) ∧ w.Grows (w.discarded h selection cause) := by
  refine hw.keep rfl (fun h' n x hx => ?_) (fun h' n x hx => ?_) (Nat.le_refl _)
    (Nat.le_refl _) (hw.tidy.discarded h selection cause) fun h' n a x hx => ?_
  · simp at hx
  · simp at hx
  · rw [World.entry_discarded hw.tidy] at hx
    split at hx
    · simp at hx
    · exact hx

/-- A note about a resolution. -/
theorem note (hw : Separate w) {o : Occurrence κ} (hs : ∀ h n x, .stored h n x ≠ o)
    (hg : ∀ h n x, .gave h n x = o → .stored h n x ∈ w.record) :
    Separate { w with record := o :: w.record } ∧ w.Grows { w with record := o :: w.record } :=
  hw.keep (List.singleton_append (l := w.record)).symm
    (fun h n x hx => hs h n x (List.mem_singleton.1 hx))
    (fun h n x hx => hg h n x (List.mem_singleton.1 hx)) (Nat.le_refl _) (Nat.le_refl _) hw.tidy
    fun _ _ _ _ hx => hx

theorem gave (hw : Separate w) (hx : .stored h n x ∈ w.record) :
    Separate { w with record := .gave h n x :: w.record } ∧
      w.Grows { w with record := .gave h n x :: w.record } := by
  refine hw.note (fun _ _ _ => nofun) fun h' n' y hy => ?_
  cases hy
  exact hx

/-! ## Storing -/

/-- Storing something whose instances are new, but for that of the view model stored for the node
that its views are bound to. -/
theorem store (hw : Separate w) (hlt : ∀ i ∈ x.instances, i < w.nextInstance)
    (hown : ∀ i ∈ x.instances, Unstored i w.record ∨
      ∃ m, .stored h n (.model m) ∈ w.record ∧ i = m.inst.id)
    (hbound : ∀ l, x = .views l → ∀ v ∈ l.views, ∀ m, v.model = some m →
      .stored h n (.model m) ∈ w.record)
    {f : Entry → Entry} (hf : ∀ e a, (f e).get? a = if a = x.aspect then some x else e.get? a) :
    Separate { w.setCache h ((w.cache h).insert n (f (w.entry h n))) with
      record := .stored h n x :: w.record } := by
  -- An instance of what is stored, in something stored before, is that of a view model of the node.
  have hbefore : ∀ i ∈ x.instances, ∀ h' n' y, .stored h' n' y ∈ w.record → i ∈ y.instances →
      h = h' ∧ n = n' := by
    intro i hi h' n' y hy hiy
    rcases hown i hi with hu | ⟨m, hm, rfl⟩
    · exact absurd hiy (hu h' n' y hy)
    · exact hw.apart h n _ h' n' y hm hy _ (Resolved.mem_instances_model.2 rfl) hiy
  refine ⟨hw.tidy.setCache ((hw.tidy h).insert n _), fun h' n' a y hy => ?_, fun h' n' y hy => ?_,
    fun h' n' y hy i hi => ?_, fun h₁ n₁ y₁ h₂ n₂ y₂ h1 h2 i hi₁ hi₂ => ?_,
    fun h' n' l hl v hv m hm => ?_⟩
  · change (((w.setCache h _).entry h' n').get? a) = some y at hy
    rw [World.entry_setCache_insert] at hy
    split at hy
    · next hc =>
      obtain ⟨rfl, rfl⟩ := hc
      rw [hf] at hy
      split at hy
      · obtain rfl := Option.some.inj hy
        exact List.mem_cons_self
      · exact List.mem_cons_of_mem _ (hw.entries h' n' a y hy)
    · exact List.mem_cons_of_mem _ (hw.entries h' n' a y hy)
  · have hy : .gave h' n' y ∈ w.record := by simpa using hy
    exact List.mem_cons_of_mem _ (hw.given h' n' y hy)
  · rcases List.mem_cons.1 hy with he | hy
    · cases he
      exact hlt i hi
    · exact hw.numbered h' n' y hy i hi
  · rcases List.mem_cons.1 h1 with he₁ | h1
    · cases he₁
      rcases List.mem_cons.1 h2 with he₂ | h2
      · cases he₂
        exact ⟨rfl, rfl⟩
      · exact hbefore i hi₁ h₂ n₂ y₂ h2 hi₂
    · rcases List.mem_cons.1 h2 with he₂ | h2
      · cases he₂
        obtain ⟨rfl, rfl⟩ := hbefore i hi₂ h₁ n₁ y₁ h1 hi₁
        exact ⟨rfl, rfl⟩
      · exact hw.apart h₁ n₁ y₁ h₂ n₂ y₂ h1 h2 i hi₁ hi₂
  · rcases List.mem_cons.1 hl with he | hl
    · cases he
      exact List.mem_cons_of_mem _ (hbound l rfl v hv m hm)
    · exact List.mem_cons_of_mem _ (hw.bound h' n' l hl v hv m hm)

/-- The end of a resolution that has begun in `w`: what it made is stored and given. -/
theorem finish (hw' : Separate w') (hgrows : w.Grows w')
    (hown : ∀ i ∈ x.instances, Made Unstored w i w' ∨
      ∃ m, .stored h n (.model m) ∈ w'.record ∧ i = m.inst.id)
    (hbound : ∀ l, x = .views l → ∀ v ∈ l.views, ∀ m, v.model = some m →
      .stored h n (.model m) ∈ w'.record)
    {f : Entry → Entry} (hf : ∀ e a, (f e).get? a = if a = x.aspect then some x else e.get? a) :
    let v : World κ := { w'.setCache h ((w'.cache h).insert n (f (w'.entry h n))) with
      record := .gave h n x :: .stored h n x :: w'.record }
    Separate v ∧ w.Grows v := by
  have hstore := hw'.store (x := x) (h := h) (n := n) (fun i hi => ?_) (fun i hi => ?_) hbound hf
  · have hunstored : ∀ i, i < w.nextInstance → Unstored i w.record →
        Unstored i (.stored h n x :: w'.record) := by
      intro i hi hu h' n' y hy hiy
      rcases List.mem_cons.1 hy with he | hy
      · cases he
        rcases hown i hiy with hmade | ⟨m, hm, rfl⟩
        · exact absurd hi (Nat.not_lt.2 hmade.since)
        · exact hgrows.unstored _ hi hu _ _ _ hm (Resolved.mem_instances_model.2 rfl)
      · exact hgrows.unstored i hi hu h' n' y hy hiy
    obtain ⟨new, hnew⟩ := hgrows.record
    have hstep : w.Grows { w'.setCache h ((w'.cache h).insert n (f (w'.entry h n))) with
        record := .stored h n x :: w'.record } :=
      ⟨⟨.stored h n x :: new, by simp [hnew]⟩, hgrows.next, hgrows.nodes, hunstored⟩
    obtain ⟨hgave, hgiven⟩ := hstore.gave List.mem_cons_self
    exact ⟨hgave, hstep.trans hgiven⟩
  · rcases hown i hi with hmade | ⟨m, hm, rfl⟩
    · exact hmade.before
    · exact hw'.numbered h n _ hm _ (Resolved.mem_instances_model.2 rfl)
  · exact (hown i hi).imp_left Made.new

end Separate

theorem separate_calming : separate.Calming (κ := κ) where
  calm := Separate.calm
  discard h selection cause w hw := by
    rw [Act.wp_discard]
    split
    · simp
    · exact hw.discarded h selection cause
  stops := Option.some_ne_none

/-- The next instance is in nothing that was stored. -/
theorem separate_numbering : separate.Numbering (κ := κ) Unstored where
  toCalming := separate_calming
  next h := h.next
  new hw h n x hx hi := Nat.lt_irrefl _ (hw.numbered h n x hx _ hi)
  still h := h.unstored

/-! ## Resolutions -/

namespace Setting

variable {host : HostId → Host} {user : Callbacks (Act κ)} (hu : separate.KeptBy user)
include hu

/-- A view model is given for the node that the component had when it was asked, and was stored for
it. -/
theorem separate_modelWithSources (id : ComponentId) (c : Component) :
    separate.Yields (modelWithSources ⟨host, user⟩ id c) fun w result w' =>
      ∀ m, result.1 = .ok m → .stored c.host (w.current id c).node.id (.model m) ∈ w'.record := by
  intro w hw
  show (modelWithSources ⟨host, user⟩ id c).Wp (· ≠ none)
    (fun result w' => (Separate w' ∧ w.Grows w') ∧ ∀ m, result.1 = .ok m →
      .stored c.host (w.current id c).node.id (.model m) ∈ w'.record) w
  unfold modelWithSources
  rw [Act.wp_bind, Act.wp_nodeOf]
  split
  · simp
  rw [Act.wp_bind, Act.wp_entryOf]
  split
  · simp
  generalize (w.current id c).node.id = n
  cases hm : (w.entry c.host n).model with
  | some m =>
    have hstored : .stored c.host n (.model m) ∈ w.record :=
      hw.entries c.host n .model _ (by simp [hm])
    refine ⟨hw.gave hstored, fun m' he => ?_⟩
    cases he
    exact List.mem_cons_of_mem _ hstored
  | none =>
    obtain ⟨hbegun, hbegin⟩ := hw.note (o := .resolving c.host n .model) (fun _ _ _ => nofun)
      fun _ _ _ => nofun
    dsimp only
    rw [Act.wp_bind, Act.wp_record]
    refine (separate_numbering.resolveModel hu c _ hbegun).bind
      fun ⟨model, paths⟩ w₁ ⟨⟨hw₁, hstep₁⟩, hmade⟩ => ?_
    have hstep : w.Grows w₁ := hbegin.trans hstep₁
    cases model with
    | error e =>
      obtain ⟨hfailed, hfail⟩ := hw₁.note (o := .failed c.host n .model) (fun _ _ _ => nofun)
        fun _ _ _ => nofun
      exact ⟨⟨hfailed, hstep.trans hfail⟩, fun m he => by cases he⟩
    | ok m =>
      have hnew : Made Unstored w m.inst.id w₁ :=
        separate_numbering.made_since hbegin (hmade m rfl)
      rw [Act.wp_bind, Act.wp_updateEntry]
      split
      · simp
      have hfinish := hw₁.finish (h := c.host) (n := n) (x := .model m) hstep
        (fun i hi => .inl (Resolved.mem_instances_model.1 hi ▸ hnew)) (fun l he => by cases he)
        (Entry.get?_withModel m paths)
      refine ⟨hfinish, fun m' he => ?_⟩
      cases he
      exact List.mem_cons_of_mem _ List.mem_cons_self

omit hu in
theorem separate_views_fail (c : Component) (n : NodeId) (e : Error) :
    separate.Kept (κ := κ) (views.fail c n e) := fun _ hw =>
  hw.note (fun _ _ _ => nofun) fun _ _ _ => nofun

/-- Views that are bound to a view model of the node are stored for the node. -/
theorem separate_views_resolve (c : Component) (n : NodeId) (model : Option Model)
    (paths : List String) {w : World κ} (hw : Separate w)
    (hmodel : ∀ m, model = some m → .stored c.host n (.model m) ∈ w.record) :
    (views.resolve ⟨host, user⟩ c n model paths).Wp (· ≠ none)
      (fun _ w' => Separate w' ∧ w.Grows w') w := by
  refine (separate_numbering.resolveViews hu c.host model _ w hw).bind
    fun ⟨resolved, more⟩ w₁ ⟨⟨hw₁, hstep₁⟩, hviews⟩ => ?_
  cases resolved with
  | error e => exact (separate_views_fail c n e).after ⟨hw₁, hstep₁⟩
  | ok list =>
    dsimp only
    rw [Act.wp_bind, Act.wp_freshList]
    obtain ⟨hw₂, hstep₂⟩ := hw₁.calm (.listed w₁)
    rw [Act.wp_bind, Act.wp_updateEntry]
    split
    · simp
    have hbound : ∀ m, model = some m → .stored c.host n (.model m) ∈ w₁.record :=
      fun m he => hstep₁.stored (hmodel m he)
    refine hw₂.finish (x := .views ⟨w₁.nextList, list⟩) (hstep₁.trans hstep₂) (fun i hi => ?_)
      (fun l he v hv m hm => ?_) (Entry.get?_withViews _ (paths ++ more))
    · obtain ⟨v, hv, hcase⟩ := Resolved.mem_instances_views.1 hi
      obtain ⟨hvm, hmade⟩ := hviews list rfl v hv
      rcases hcase with rfl | ⟨m, hm, rfl⟩
      · exact .inl (separate_numbering.made_still hmade hstep₂)
      · exact .inr ⟨m, hbound m (hvm.symm.trans hm), rfl⟩
    · cases he
      exact hbound m ((hviews list rfl v hv).1.symm.trans hm)

theorem separate_views (id : ComponentId) (c : Component) :
    separate.Kept (views ⟨host, user⟩ id c) := by
  intro w hw
  rw [views_eq]
  rw [Act.wp_bind, Act.wp_nodeOf]
  split
  · simp
  rw [Act.wp_bind, Act.wp_entryOf]
  split
  · simp
  cases hl : (w.entry c.host (w.current id c).node.id).views with
  | some l =>
    exact hw.gave (hw.entries c.host _ .views _ (by simp [hl]))
  | none =>
    obtain ⟨hbegun, hbegin⟩ := hw.note
      (o := .resolving c.host (w.current id c).node.id .views) (fun _ _ _ => nofun)
      fun _ _ _ => nofun
    dsimp only
    rw [Act.wp_bind, Act.wp_record]
    -- The component is still on the node, as no code was run since its node was read.
    refine (separate_modelWithSources hu id c _ hbegun).bind
      fun ⟨model, paths⟩ w₁ ⟨⟨hw₁, hstep₁⟩, hmodel⟩ => ?_
    have hstep : w.Grows w₁ := hbegin.trans hstep₁
    have resolve : ∀ model : Option Model, (∀ m, model = some m →
          .stored c.host (w.current id c).node.id (.model m) ∈ w₁.record) →
        (views.resolve ⟨host, user⟩ c (w.current id c).node.id model paths).Wp (· ≠ none)
          (fun _ w' => Separate w' ∧ w.Grows w') w₁ := fun model hm =>
      (separate_views_resolve hu c _ model paths hw₁ hm).mono fun _ _ ⟨hw', hs⟩ =>
        ⟨hw', hstep.trans hs⟩
    cases model with
    | ok m =>
      refine resolve (some m) fun m' he => ?_
      cases he
      exact hmodel m rfl
    | error e =>
      dsimp only
      rw [Act.wp_ite]
      split
      · exact resolve none fun _ he => by cases he
      · exact (separate_views_fail c _ e).after ⟨hw₁, hstep⟩

end Setting

/-- Every operation keeps the contract. -/
theorem separate_sound (host : HostId → Host) : separate.Sound (κ := κ) host fun _ => True :=
  separate_calming.sound {
    instantiate := fun hu cls capability => (separate_numbering.instantiate hu cls capability).kept
    modelWithSources := fun hu id c => (Setting.separate_modelWithSources hu id c).kept
    views := Setting.separate_views }

theorem separate_start (targets : Dict TargetId EventTarget) (memory : κ.Memory) :
    Separate (World.start targets memory) where
  tidy _ := Dict.Sorted.empty
  entries h n a x hx := by cases a <;> cases hx
  given _ _ _ hx := by cases hx
  numbered _ _ _ hx := by cases hx
  apart _ _ _ _ _ _ hx := by cases hx
  bound _ _ _ hl := by cases hl

end LayeredViews
