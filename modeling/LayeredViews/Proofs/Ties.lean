import Mathlib.Data.List.Forall2
import LayeredViews.Proofs.Instances
import LayeredViews.Proofs.Passive

/-!
# What corresponds in two runs

Two runs may number the same things differently.

* `Ties`: which nodes, components, instances and lists of views of two runs correspond. Ties are
  one to one (`Ties.OneToOne`), and a run may go on to tie what it makes (`Ties.Grows`).
* `Instance.Alike`, and the same for what contains instances: equal but for numbers, which are tied.
* `Share`: the nodes, components, instances and lists of one run that are tied.
-/

namespace LayeredViews

/-! ## Ties -/

/-- Which things of two runs correspond. -/
structure Ties where
  node : NodeId → NodeId → Prop
  component : ComponentId → ComponentId → Prop
  inst : InstanceId → InstanceId → Prop
  list : Nat → Nat → Prop

/-- A relation between numbers, and a pair more. -/
def tie (r : Nat → Nat → Prop) (a b : Nat) : Nat → Nat → Prop := fun i j => r i j ∨ i = a ∧ j = b

theorem tie_biUnique {r : Nat → Nat → Prop} (h : Relator.BiUnique r) {a b : Nat}
    (ha : ∀ j, ¬r a j) (hb : ∀ i, ¬r i b) : Relator.BiUnique (tie r a b) := by
  constructor
  · rintro i j k (hi | ⟨rfl, rfl⟩) (hj | ⟨rfl, hk⟩)
    · exact h.1 hi hj
    · exact absurd (hk ▸ hi) (hb i)
    · exact absurd hj (hb j)
    · rfl
  · rintro i j k (hi | ⟨rfl, rfl⟩) (hj | ⟨hk, rfl⟩)
    · exact h.2 hi hj
    · exact absurd (hk ▸ hi) (ha j)
    · exact absurd hj (ha k)
    · rfl

theorem exists_tie {r : Nat → Nat → Prop} {a b i : Nat} :
    (∃ j, tie r a b i j) ↔ (∃ j, r i j) ∨ i = a := by
  constructor
  · rintro ⟨j, h | ⟨rfl, -⟩⟩
    · exact .inl ⟨j, h⟩
    · exact .inr rfl
  · rintro (⟨j, h⟩ | rfl)
    · exact ⟨j, .inl h⟩
    · exact ⟨b, .inr ⟨rfl, rfl⟩⟩

theorem exists_tie' {r : Nat → Nat → Prop} {a b j : Nat} :
    (∃ i, tie r a b i j) ↔ (∃ i, r i j) ∨ j = b := by
  constructor
  · rintro ⟨i, h | ⟨-, rfl⟩⟩
    · exact .inl ⟨i, h⟩
    · exact .inr rfl
  · rintro (⟨i, h⟩ | rfl)
    · exact ⟨i, .inl h⟩
    · exact ⟨a, .inr ⟨rfl, rfl⟩⟩

namespace Ties

/-- No number is tied to two others. -/
structure OneToOne (T : Ties) : Prop where
  node : Relator.BiUnique T.node
  component : Relator.BiUnique T.component
  inst : Relator.BiUnique T.inst
  list : Relator.BiUnique T.list

/-- The same nodes are tied, and whatever was tied is. -/
structure Grows (T U : Ties) : Prop where
  node : U.node = T.node
  component : ∀ i j, T.component i j → U.component i j
  inst : ∀ i j, T.inst i j → U.inst i j
  list : ∀ i j, T.list i j → U.list i j

theorem Grows.refl (T : Ties) : T.Grows T := ⟨rfl, fun _ _ h => h, fun _ _ h => h, fun _ _ h => h⟩

theorem Grows.trans {T U V : Ties} (h : T.Grows U) (h' : U.Grows V) : T.Grows V where
  node := h'.node.trans h.node
  component i j hij := h'.component i j (h.component i j hij)
  inst i j hij := h'.inst i j (h.inst i j hij)
  list i j hij := h'.list i j (h.list i j hij)

/-- Two components more are tied. -/
def withComponent (T : Ties) (i j : ComponentId) : Ties :=
  { T with component := tie T.component i j }

/-- Two instances more are tied. -/
def withInst (T : Ties) (i j : InstanceId) : Ties := { T with inst := tie T.inst i j }

/-- Two lists more are tied. -/
def withList (T : Ties) (i j : Nat) : Ties := { T with list := tie T.list i j }

theorem grows_withComponent (T : Ties) (i j : ComponentId) : T.Grows (T.withComponent i j) :=
  ⟨rfl, fun _ _ => .inl, fun _ _ h => h, fun _ _ h => h⟩

theorem grows_withInst (T : Ties) (i j : InstanceId) : T.Grows (T.withInst i j) :=
  ⟨rfl, fun _ _ h => h, fun _ _ => .inl, fun _ _ h => h⟩

theorem grows_withList (T : Ties) (i j : Nat) : T.Grows (T.withList i j) :=
  ⟨rfl, fun _ _ h => h, fun _ _ h => h, fun _ _ => .inl⟩

end Ties

/-! ## Equal but for numbers -/

variable {α β : Type} {T U : Ties}

/-- Both fail in the same way, or both give values that `r` relates. -/
inductive SameOutcome (r : α → β → Prop) : Except Error α → Except Error β → Prop
  | ok {a : α} {b : β} (h : r a b) : SameOutcome r (.ok a) (.ok b)
  | error (e : Error) : SameOutcome r (.error e) (.error e)

theorem SameOutcome.imp {r s : α → β → Prop} (h : ∀ a b, r a b → s a b) {x : Except Error α}
    {y : Except Error β} (hxy : SameOutcome r x y) : SameOutcome s x y := by
  cases hxy with
  | ok hab => exact .ok (h _ _ hab)
  | error e => exact .error e

theorem rel_imp {r s : α → β → Prop} (h : ∀ a b, r a b → s a b) {x : Option α}
    {y : Option β} (hxy : Option.Rel r x y) : Option.Rel s x y := by
  cases hxy with
  | some hab => exact .some (h _ _ hab)
  | none => exact .none

theorem rel_left {r : α → β → Prop} {x : Option α} {y : Option β} (h : Option.Rel r x y) {a : α}
    (ha : x = some a) : ∃ b, y = some b ∧ r a b := by
  cases h with
  | some hab => exact ⟨_, rfl, Option.some.inj ha ▸ hab⟩
  | none => cases ha

theorem rel_right {r : α → β → Prop} {x : Option α} {y : Option β} (h : Option.Rel r x y) {b : β}
    (hb : y = some b) : ∃ a, x = some a ∧ r a b := by
  cases h with
  | some hab => exact ⟨_, rfl, Option.some.inj hb ▸ hab⟩
  | none => cases hb

/-- Instances of one factory that are tied. -/
structure Instance.Alike (T : Ties) (x y : Instance) : Prop where
  factory : x.factory = y.factory
  tied : T.inst x.id y.id

structure Model.Alike (T : Ties) (x y : Model) : Prop where
  name : x.name = y.name
  inst : x.inst.Alike T y.inst

structure ResolvedView.Alike (T : Ties) (x y : ResolvedView) : Prop where
  label : x.label = y.label
  inst : x.inst.Alike T y.inst
  model : Option.Rel (Model.Alike T) x.model y.model

structure ViewList.Alike (T : Ties) (x y : ViewList) : Prop where
  tied : T.list x.id y.id
  views : List.Forall₂ (ResolvedView.Alike T) x.views y.views

structure Entry.Alike (T : Ties) (x y : Entry) : Prop where
  views : Option.Rel (ViewList.Alike T) x.views y.views
  model : Option.Rel (Model.Alike T) x.model y.model
  sources : x.sources = y.sources

theorem Instance.Alike.grow (h : T.Grows U) {x y : Instance} (hxy : x.Alike T y) : x.Alike U y :=
  ⟨hxy.factory, h.inst _ _ hxy.tied⟩

theorem Model.Alike.grow (h : T.Grows U) {x y : Model} (hxy : x.Alike T y) : x.Alike U y :=
  ⟨hxy.name, hxy.inst.grow h⟩

theorem ResolvedView.Alike.grow (h : T.Grows U) {x y : ResolvedView} (hxy : x.Alike T y) :
    x.Alike U y :=
  ⟨hxy.label, hxy.inst.grow h, rel_imp (fun _ _ => Model.Alike.grow h) hxy.model⟩

theorem ViewList.Alike.grow (h : T.Grows U) {x y : ViewList} (hxy : x.Alike T y) : x.Alike U y :=
  ⟨h.list _ _ hxy.tied, hxy.views.imp fun _ _ => ResolvedView.Alike.grow h⟩

theorem Entry.Alike.grow (h : T.Grows U) {x y : Entry} (hxy : x.Alike T y) : x.Alike U y where
  views := rel_imp (fun _ _ => ViewList.Alike.grow h) hxy.views
  model := rel_imp (fun _ _ => Model.Alike.grow h) hxy.model
  sources := hxy.sources

theorem Entry.Alike.empty : (∅ : Entry).Alike T ∅ := ⟨.none, .none, rfl⟩

theorem Entry.Alike.consult {x y : Entry} (h : x.Alike T y) (paths : List String) :
    (x.consult paths).Alike T (y.consult paths) where
  views := h.views
  model := h.model
  sources := by rw [Entry.consult, Entry.consult, h.sources]

theorem Entry.Alike.withModel {x y : Entry} (h : x.Alike T y) {m m' : Model} (hm : m.Alike T m')
    (paths : List String) : (x.withModel m paths).Alike T (y.withModel m' paths) :=
  { h.consult paths with model := .some hm }

theorem Entry.Alike.withViews {x y : Entry} (h : x.Alike T y) {l l' : ViewList}
    (hl : l.Alike T l') (paths : List String) :
    (x.withViews l paths).Alike T (y.withViews l' paths) :=
  { h.consult paths with views := .some hl }

/-- Entries that are alike are selected alike, but for what is said of nodes. -/
theorem Entry.Alike.selects_source {x y : Entry} (h : x.Alike T y) (path : String)
    (n n' : NodeId) : Cache.Selection.selects (.source path) n x =
      Cache.Selection.selects (.source path) n' y := by
  simp only [Cache.Selection.selects, h.sources]

theorem Model.Alike.anonymous {x y : Model} (h : x.Alike T y) : x.anonymous = y.anonymous := by
  obtain ⟨name, id, factory⟩ := x
  obtain ⟨name', id', factory'⟩ := y
  obtain rfl : name = name' := h.name
  obtain rfl : factory = factory' := h.inst.factory
  rfl

/-! ## What entries have -/

/-- The entry has the instance. -/
def Entry.Has (e : Entry) (i : InstanceId) : Prop := ∃ a x, e.get? a = some x ∧ i ∈ x.instances

theorem Entry.not_has_empty (i : InstanceId) : ¬(∅ : Entry).Has i := by
  rintro ⟨a, x, hx, -⟩
  simp at hx

theorem Entry.has_withModel {e : Entry} {m : Model} {paths : List String} {i : InstanceId}
    (h : (e.withModel m paths).Has i) : i = m.inst.id ∨ e.Has i := by
  obtain ⟨a, x, hx, hi⟩ := h
  rw [get?_withModel] at hx
  split at hx
  · obtain rfl := Option.some.inj hx
    exact .inl (Resolved.mem_instances_model.1 hi)
  · exact .inr ⟨a, x, hx, hi⟩

theorem Entry.has_withViews {e : Entry} {l : ViewList} {paths : List String} {i : InstanceId}
    (h : (e.withViews l paths).Has i) : i ∈ (Resolved.views l).instances ∨ e.Has i := by
  obtain ⟨a, x, hx, hi⟩ := h
  rw [get?_withViews] at hx
  split at hx
  · obtain rfl := Option.some.inj hx
    exact .inl hi
  · exact .inr ⟨a, x, hx, hi⟩

theorem Entry.has_model {e : Entry} {m : Model} (h : e.model = some m) : e.Has m.inst.id :=
  ⟨.model, .model m, by rw [get?_model, h, Option.map_some], Resolved.mem_instances_model.2 rfl⟩

theorem Entry.has_views {e : Entry} {l : ViewList} (h : e.views = some l) {i : InstanceId}
    (hi : i ∈ (Resolved.views l).instances) : e.Has i :=
  ⟨.views, .views l, by rw [get?_views, h, Option.map_some], hi⟩

/-! ## Shares -/

/-- What belongs together in a run. -/
structure Share where
  node : NodeId → Prop
  component : ComponentId → Prop
  inst : InstanceId → Prop
  list : Nat → Prop

namespace Ties

/-- What is tied in the first run. -/
def left (T : Ties) : Share where
  node n := ∃ n', T.node n n'
  component i := ∃ i', T.component i i'
  inst i := ∃ i', T.inst i i'
  list i := ∃ i', T.list i i'

/-- What is tied in the second run. -/
def right (T : Ties) : Share where
  node n := ∃ n', T.node n' n
  component i := ∃ i', T.component i' i
  inst i := ∃ i', T.inst i' i
  list i := ∃ i', T.list i' i

end Ties

/-- What alike views have is tied. -/
theorem ResolvedView.Alike.tied {v v' : ResolvedView} (h : v.Alike T v') :
    (∀ i, (i = v.inst.id ∨ ∃ m, v.model = some m ∧ i = m.inst.id) → T.left.inst i) ∧
      ∀ i, (i = v'.inst.id ∨ ∃ m, v'.model = some m ∧ i = m.inst.id) → T.right.inst i := by
  constructor
  · rintro i (rfl | ⟨m, hm, rfl⟩)
    · exact ⟨_, h.inst.tied⟩
    · obtain ⟨m', -, hmm⟩ := rel_left h.model hm
      exact ⟨_, hmm.inst.tied⟩
  · rintro i (rfl | ⟨m, hm, rfl⟩)
    · exact ⟨_, h.inst.tied⟩
    · obtain ⟨m', -, hmm⟩ := rel_right h.model hm
      exact ⟨_, hmm.inst.tied⟩

theorem exists_of_forall₂ {r : α → β → Prop} {l : List α} {l' : List β}
    (h : List.Forall₂ r l l') {a : α} (ha : a ∈ l) : ∃ b, r a b := by
  induction h with
  | nil => cases ha
  | cons hab _ ih =>
    rcases List.mem_cons.1 ha with rfl | ha
    · exact ⟨_, hab⟩
    · exact ih ha

/-- What lists of alike views have is tied. -/
theorem ViewList.Alike.instances {l l' : ViewList} (h : l.Alike T l') :
    (∀ i ∈ (Resolved.views l).instances, T.left.inst i) ∧
      ∀ i ∈ (Resolved.views l').instances, T.right.inst i := by
  refine ⟨fun i hi => ?_, fun i hi => ?_⟩
  · obtain ⟨v, hv, hcase⟩ := Resolved.mem_instances_views.1 hi
    obtain ⟨v', hvv⟩ := exists_of_forall₂ h.views hv
    exact hvv.tied.1 i hcase
  · obtain ⟨v', hv', hcase⟩ := Resolved.mem_instances_views.1 hi
    obtain ⟨v, hvv⟩ := exists_of_forall₂ h.views.flip hv'
    exact ResolvedView.Alike.tied (v := v) hvv |>.2 i hcase

/-- What alike entries have is tied. -/
theorem Entry.Alike.has {x y : Entry} (h : x.Alike T y) :
    (∀ i, x.Has i → T.left.inst i) ∧ ∀ i, y.Has i → T.right.inst i := by
  constructor
  · rintro i ⟨a, r, hr, hi⟩
    cases a with
    | model =>
      obtain ⟨m, hm, rfl⟩ := Option.map_eq_some_iff.1 hr
      obtain ⟨m', -, hmm⟩ := rel_left h.model hm
      exact Resolved.mem_instances_model.1 hi ▸ ⟨_, hmm.inst.tied⟩
    | views =>
      obtain ⟨l, hl, rfl⟩ := Option.map_eq_some_iff.1 hr
      obtain ⟨l', -, hll⟩ := rel_left h.views hl
      exact hll.instances.1 i hi
  · rintro i ⟨a, r, hr, hi⟩
    cases a with
    | model =>
      obtain ⟨m, hm, rfl⟩ := Option.map_eq_some_iff.1 hr
      obtain ⟨m', -, hmm⟩ := rel_right h.model hm
      exact Resolved.mem_instances_model.1 hi ▸ ⟨_, hmm.inst.tied⟩
    | views =>
      obtain ⟨l, hl, rfl⟩ := Option.map_eq_some_iff.1 hr
      obtain ⟨l', -, hll⟩ := rel_right h.views hl
      exact hll.instances.2 i hi

end LayeredViews
