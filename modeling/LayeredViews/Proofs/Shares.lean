import LayeredViews.Proofs.Private
import LayeredViews.Proofs.Registry
import LayeredViews.Proofs.Tenure
import LayeredViews.Proofs.Ties

/-!
# A share of a world

Some of the variables of an application hold components on nodes that no other component is ever
on. Those components, their nodes, and the instances made for the nodes are the share of these
variables.

* `World.Divided`: what exists belongs either to a share or to the rest. Steps that keep to one side
  leave a world divided.
* `World.Undisturbed w v`: between `w` and `v` the share was left alone; `World.Beside w v`: and `v`
  is divided as `w` was. What is done to the rest leaves the share alone.
* `World.settled`: the world after a component was let go.
-/

namespace LayeredViews

variable {κ : Client} {S : Type} {host : HostId → Host} {mine : Handle → Bool} {s : Share}
  {w v u : World κ}

/-! ## Divided worlds -/

/-- What exists belongs to the share or to the rest of the world: the variables `mine` hold the
components of the share, which are on the nodes of the share and find their classes in registries;
the entries of those nodes have the instances of the share. -/
structure World.Divided (host : HostId → Host) (mine : Handle → Bool) (s : Share) (w : World κ) :
    Prop where
  tidy : w.Tidy
  sorted : w.handles.Sorted
  held : ∀ x i, w.handles.get? x = some i → i < w.nextComponent ∧ (mine x = true ↔ s.component i)
  placed : ∀ i c, w.components.get? i = some c → (s.component i ↔ s.node c.node.id)
  served : ∀ i c, w.components.get? i = some c → s.component i →
    ∃ classes, (host c.host).loader = .registry classes
  stored : ∀ h n i, (w.entry h n).Has i → i < w.nextInstance ∧ (s.inst i ↔ s.node n)
  component : ∀ i, s.component i → i < w.nextComponent
  inst : ∀ i, s.inst i → i < w.nextInstance
  list : ∀ i, s.list i → i < w.nextList

namespace World

theorem entry_of_caches (h : v.caches = w.caches) (hst : HostId) (n : NodeId) :
    v.entry hst n = w.entry hst n := by
  unfold entry cache
  rw [h]

theorem tidy_of_caches (h : v.caches = w.caches) (hw : w.Tidy) : v.Tidy := fun hst => by
  unfold cache
  rw [h]
  exact hw hst

end World

namespace World.Divided

/-- Nothing has happened to handles, components and entries. -/
theorem of_eq (hw : w.Divided host mine s) (hh : v.handles = w.handles)
    (hc : v.components = w.components) (he : v.caches = w.caches)
    (hn : v.nextComponent = w.nextComponent) (hi : w.nextInstance ≤ v.nextInstance)
    (hl : w.nextList ≤ v.nextList) : v.Divided host mine s where
  tidy := tidy_of_caches he hw.tidy
  sorted := hh ▸ hw.sorted
  held x i hx := hn ▸ hw.held x i (hh ▸ hx)
  placed i c hi := hw.placed i c (hc ▸ hi)
  served i c hi := hw.served i c (hc ▸ hi)
  stored h n i hi' := by
    rw [entry_of_caches he] at hi'
    obtain ⟨hlt, hiff⟩ := hw.stored h n i hi'
    exact ⟨Nat.lt_of_lt_of_le hlt hi, hiff⟩
  component i hi := hn ▸ hw.component i hi
  inst i hi' := Nat.lt_of_lt_of_le (hw.inst i hi') hi
  list i hi' := Nat.lt_of_lt_of_le (hw.list i hi') hl

/-- A variable holds a component of its side. -/
theorem bound (hw : w.Divided host mine s) {as : Handle} {i : ComponentId}
    (hi : i < w.nextComponent) (hm : mine as = true ↔ s.component i) :
    World.Divided host mine s { w with handles := w.handles.insert as i } where
  tidy := hw.tidy
  sorted := hw.sorted.insert as i
  held x j hx := by
    change (w.handles.insert as i).get? x = some j at hx
    rw [Dict.get?_insert] at hx
    split at hx
    · next he =>
      obtain rfl := Option.some.inj hx
      rw [he]
      exact ⟨hi, hm⟩
    · exact hw.held x j hx
  placed := hw.placed
  served := hw.served
  stored := hw.stored
  component := hw.component
  inst := hw.inst
  list := hw.list

theorem released (hw : w.Divided host mine s) (x : Handle) :
    World.Divided host mine s { w with handles := w.handles.erase x } where
  tidy := hw.tidy
  sorted := hw.sorted.erase x
  held y j hy := by
    change (w.handles.erase x).get? y = some j at hy
    rw [Dict.get?_erase] at hy
    split at hy
    · cases hy
    · exact hw.held y j hy
  placed := hw.placed
  served := hw.served
  stored := hw.stored
  component := hw.component
  inst := hw.inst
  list := hw.list

theorem withoutComponent (hw : w.Divided host mine s) (i : ComponentId) :
    (w.withoutComponent i).Divided host mine s := by
  have hget : ∀ {j c}, (w.withoutComponent i).components.get? j = some c →
      w.components.get? j = some c := fun {j c} hj => by
    rw [World.withoutComponent, Dict.get?_erase] at hj
    split at hj
    · cases hj
    · exact hj
  exact {
    tidy := hw.tidy
    sorted := hw.sorted
    held := hw.held
    placed := fun j c hj => hw.placed j c (hget hj)
    served := fun j c hj => hw.served j c (hget hj)
    stored := hw.stored
    component := hw.component
    inst := hw.inst
    list := hw.list }

theorem discarded (hw : w.Divided host mine s) (h : HostId) (selection : Cache.Selection)
    (cause : Cause) : (w.discarded h selection cause).Divided host mine s where
  tidy := hw.tidy.discarded h selection cause
  sorted := hw.sorted
  held := hw.held
  placed := hw.placed
  served := hw.served
  stored h' n i hi := by
    rw [entry_discarded hw.tidy] at hi
    split at hi
    · exact absurd hi (Entry.not_has_empty i)
    · exact hw.stored h' n i hi
  component := hw.component
  inst := hw.inst
  list := hw.list

/-- A component that exists is changed, and stays on its side. -/
theorem setComponent (hw : w.Divided host mine s) {i : ComponentId} {c c' : Component}
    (hc : w.components.get? i = some c) (hh : c'.host = c.host)
    (hn : s.component i ↔ s.node c'.node.id) : (w.setComponent i c').Divided host mine s := by
  have hget : ∀ {j d}, (w.setComponent i c').components.get? j = some d →
      (j = i ∧ d = c') ∨ w.components.get? j = some d := fun {j d} hj => by
    rw [World.setComponent, Dict.get?_insert] at hj
    split at hj
    · next he => exact .inl ⟨he, (Option.some.inj hj).symm⟩
    · exact .inr hj
  exact {
    tidy := hw.tidy
    sorted := hw.sorted
    held := hw.held
    placed := fun j d hj => by
      rcases hget hj with ⟨rfl, rfl⟩ | hj
      · exact hn
      · exact hw.placed j d hj
    served := fun j d hj hs => by
      rcases hget hj with ⟨rfl, rfl⟩ | hj
      · exact hh ▸ hw.served j c hc hs
      · exact hw.served j d hj hs
    stored := hw.stored
    component := hw.component
    inst := hw.inst
    list := hw.list }

/-- A new component comes to the side that its node is on. -/
theorem withComponent (hw : w.Divided host mine s) {c : Component}
    {component : ComponentId → Prop}
    (hold : ∀ i, i < w.nextComponent → (component i ↔ s.component i))
    (hnew : component w.nextComponent ↔ s.node c.node.id)
    (hlt : ∀ i, component i → i ≤ w.nextComponent)
    (hnum : ∀ i c, w.components.get? i = some c → i < w.nextComponent)
    (hserved : component w.nextComponent → ∃ classes, (host c.host).loader = .registry classes) :
    (w.withComponent c).Divided host mine { s with component } := by
  have hget : ∀ {j d}, (w.withComponent c).components.get? j = some d →
      (j = w.nextComponent ∧ d = c) ∨ w.components.get? j = some d := fun {j d} hj => by
    change (w.components.insert w.nextComponent c).get? j = some d at hj
    rw [Dict.get?_insert] at hj
    split at hj
    · next he => exact .inl ⟨he, (Option.some.inj hj).symm⟩
    · exact .inr hj
  exact {
    tidy := hw.tidy
    sorted := hw.sorted
    held := fun x i hx => by
      obtain ⟨hlt, hm⟩ := hw.held x i hx
      exact ⟨Nat.lt_succ_of_lt hlt, hm.trans (hold i hlt).symm⟩
    placed := fun j d hj => by
      rcases hget hj with ⟨rfl, rfl⟩ | hj
      · exact hnew
      · exact (hold j (hnum j d hj)).trans (hw.placed j d hj)
    served := fun j d hj hs => by
      rcases hget hj with ⟨rfl, rfl⟩ | hj
      · exact hserved hs
      · exact hw.served j d hj ((hold j (hnum j d hj)).1 hs)
    stored := hw.stored
    component := fun i hi => Nat.lt_succ_of_le (hlt i hi)
    inst := hw.inst
    list := hw.list }

/-- An instance is numbered. -/
theorem counted (hw : w.Divided host mine s) {inst : InstanceId → Prop}
    (hold : ∀ i, i < w.nextInstance → (inst i ↔ s.inst i))
    (hlt : ∀ i, inst i → i ≤ w.nextInstance) :
    World.Divided host mine { s with inst } { w with nextInstance := w.nextInstance + 1 } where
  tidy := hw.tidy
  sorted := hw.sorted
  held := hw.held
  placed := hw.placed
  served := hw.served
  stored h n i hi := by
    obtain ⟨hi, hiff⟩ := hw.stored h n i hi
    exact ⟨Nat.lt_succ_of_lt hi, (hold i hi).trans hiff⟩
  component := hw.component
  inst i hi := Nat.lt_succ_of_le (hlt i hi)
  list := hw.list

/-- A list is numbered. -/
theorem listed (hw : w.Divided host mine s) {list : Nat → Prop}
    (hlt : ∀ i, list i → i ≤ w.nextList) :
    World.Divided host mine { s with list } { w with nextList := w.nextList + 1 } where
  tidy := hw.tidy
  sorted := hw.sorted
  held := hw.held
  placed := hw.placed
  served := hw.served
  stored := hw.stored
  component := hw.component
  inst := hw.inst
  list i hi := Nat.lt_succ_of_le (hlt i hi)

/-- An entry is stored that has instances of the side of its node. -/
theorem stores (hw : w.Divided host mine s) {h : HostId} {n : NodeId} {e : Entry}
    (he : ∀ i, e.Has i → i < w.nextInstance ∧ (s.inst i ↔ s.node n)) :
    (w.setCache h ((w.cache h).insert n e)).Divided host mine s where
  tidy := hw.tidy.setCache ((hw.tidy h).insert n e)
  sorted := hw.sorted
  held := hw.held
  placed := hw.placed
  served := hw.served
  stored h' n' i hi := by
    rw [entry_setCache_insert] at hi
    split at hi
    · next hc => exact hc.2 ▸ he i hi
    · exact hw.stored h' n' i hi
  component := hw.component
  inst := hw.inst
  list := hw.list

end World.Divided

/-! ## Undisturbed shares -/

/-- The listener calls a method of a component of the share. -/
def Share.Hears (s : Share) (r : Subscription) : Prop :=
  ∃ i m, r.listener.callback = .method i m ∧ s.component i

open Classical in
/-- Those of the registrations that belong to components of the share. -/
noncomputable def Share.among (s : Share) (l : List Subscription) : List Subscription :=
  l.filter fun r => decide (s.Hears r)

theorem Share.mem_among {l : List Subscription} {r : Subscription} :
    r ∈ s.among l ↔ r ∈ l ∧ s.Hears r := by
  simp [among]

theorem Share.among_append (s : Share) (l l' : List Subscription) :
    s.among (l ++ l') = s.among l ++ s.among l' := List.filter_append _ _

theorem Share.among_eq_self {l : List Subscription} (h : ∀ r ∈ l, s.Hears r) : s.among l = l :=
  List.filter_eq_self.2 fun r hr => by simpa using h r hr

theorem Share.among_eq_nil {l : List Subscription} (h : ∀ r ∈ l, ¬s.Hears r) : s.among l = [] :=
  List.filter_eq_nil_iff.2 fun r hr => by simpa using h r hr

theorem Share.among_congr {s' : Share} {l : List Subscription}
    (h : ∀ r ∈ l, s'.Hears r ↔ s.Hears r) : s'.among l = s.among l :=
  List.filter_congr fun r hr => by simpa using h r hr

/-- The registrations of the components of the share on a target, oldest first. -/
noncomputable def Share.heard (s : Share) (t : EventTarget) : List Subscription :=
  s.among t.listeners

/-- What belongs to the share is as it was. -/
structure World.Undisturbed (inner : Inner κ S) (mine : Handle → Bool) (s : Share)
    (w v : World κ) : Prop where
  handles : ∀ x, mine x = true → v.handles.get? x = w.handles.get? x
  components : ∀ i, s.component i → v.components.get? i = w.components.get? i
  entries : ∀ h n, s.node n → v.entry h n = w.entry h n
  heard : ∀ t, s.heard (v.target t) = s.heard (w.target t)
  present : ∀ t, (v.target t).present = (w.target t).present
  switchable : ∀ t, (v.target t).switchable = (w.target t).switchable
  states : ∀ i, s.inst i → inner.state v.memory i = inner.state w.memory i

namespace World.Undisturbed

variable {inner : Inner κ S}

/-- Nothing has happened to handles, components, entries and targets. -/
theorem of_eq (hh : v.handles = w.handles) (hc : v.components = w.components)
    (he : v.caches = w.caches) (ht : v.targets = w.targets)
    (hs : ∀ i, s.inst i → inner.state v.memory i = inner.state w.memory i) :
    w.Undisturbed inner mine s v where
  handles x _ := by rw [hh]
  components i _ := by rw [hc]
  entries h n _ := entry_of_caches he h n
  heard t := by simp only [World.target, ht]
  present t := by simp only [World.target, ht]
  switchable t := by simp only [World.target, ht]
  states := hs

theorem refl (w : World κ) : w.Undisturbed inner mine s w := .of_eq rfl rfl rfl rfl fun _ _ => rfl

theorem trans (h : w.Undisturbed inner mine s v) (h' : v.Undisturbed inner mine s u) :
    w.Undisturbed inner mine s u where
  handles x hx := (h'.handles x hx).trans (h.handles x hx)
  components i hi := (h'.components i hi).trans (h.components i hi)
  entries hst n hn := (h'.entries hst n hn).trans (h.entries hst n hn)
  heard t := (h'.heard t).trans (h.heard t)
  present t := (h'.present t).trans (h.present t)
  switchable t := (h'.switchable t).trans (h.switchable t)
  states i hi := (h'.states i hi).trans (h.states i hi)

/-- Another variable holds something else. -/
theorem bound {as : Handle} (has : mine as = false) (i : ComponentId) :
    w.Undisturbed inner mine s { w with handles := w.handles.insert as i } := by
  have same : w.Undisturbed inner mine s w := .refl w
  refine { same with handles := fun x hx => Dict.get?_insert_of_ne _ _ ?_ }
  rintro rfl
  exact Bool.noConfusion (has.symm.trans hx)

theorem released {x : Handle} (hx : mine x = false) :
    w.Undisturbed inner mine s { w with handles := w.handles.erase x } := by
  have same : w.Undisturbed inner mine s w := .refl w
  refine { same with handles := fun y hy => (Dict.get?_erase _ _ _).trans (if_neg ?_) }
  rintro rfl
  exact Bool.noConfusion (hx.symm.trans hy)

theorem withoutComponent {i : ComponentId} (hi : ¬s.component i) :
    w.Undisturbed inner mine s (w.withoutComponent i) := by
  have same : w.Undisturbed inner mine s w := .refl w
  refine { same with components := fun j hj => (Dict.get?_erase _ _ _).trans (if_neg ?_) }
  rintro rfl
  exact hi hj

/-- What is stored for a node of the rest is dropped. -/
theorem discarded (hw : w.Tidy) {n : NodeId} (hn : ¬s.node n) (h : HostId) (cause : Cause) :
    w.Undisturbed inner mine s (w.discarded h (.node n) cause) := by
  have same : w.Undisturbed inner mine s w := .refl w
  refine { same with entries := fun h' n' hn' => (entry_discarded hw ..).trans (if_neg ?_) }
  rintro ⟨-, hsel⟩
  have he : n' = n := by simpa [Cache.Selection.selects] using hsel
  exact hn (he ▸ hn')

theorem setComponent {i : ComponentId} (hi : ¬s.component i) (c : Component) :
    w.Undisturbed inner mine s (w.setComponent i c) := by
  have same : w.Undisturbed inner mine s w := .refl w
  refine { same with components := fun j hj => Dict.get?_insert_of_ne _ _ ?_ }
  rintro rfl
  exact hi hj

theorem withComponent (hnext : ¬s.component w.nextComponent) (c : Component) :
    w.Undisturbed inner mine s (w.withComponent c) := by
  have same : w.Undisturbed inner mine s w := .refl w
  refine { same with components := fun j hj => Dict.get?_insert_of_ne _ _ ?_ }
  rintro rfl
  exact hnext hj

theorem stores {n : NodeId} (hn : ¬s.node n) (h : HostId) (e : Entry) :
    w.Undisturbed inner mine s (w.setCache h ((w.cache h).insert n e)) := by
  have same : w.Undisturbed inner mine s w := .refl w
  refine { same with entries := fun h' n' hn' => (entry_setCache_insert ..).trans (if_neg ?_) }
  rintro ⟨-, rfl⟩
  exact hn hn'

end World.Undisturbed

/-- Something was done to the rest of a divided world: the share is undisturbed, and the world is
divided as before. -/
structure World.Beside (inner : Inner κ S) (host : HostId → Host) (mine : Handle → Bool) (s : Share)
    (w v : World κ) : Prop extends w.Undisturbed inner mine s v where
  divided : v.Divided host mine s
  loans : v.loans = w.loans

namespace World.Beside

variable {inner : Inner κ S}

theorem of_eq (hw : w.Divided host mine s) (hh : v.handles = w.handles)
    (hc : v.components = w.components) (he : v.caches = w.caches) (ht : v.targets = w.targets)
    (hn : v.nextComponent = w.nextComponent) (hi : w.nextInstance ≤ v.nextInstance)
    (hl : w.nextList ≤ v.nextList) (hloans : v.loans = w.loans)
    (hs : ∀ i, s.inst i → inner.state v.memory i = inner.state w.memory i) :
    w.Beside inner host mine s v :=
  ⟨.of_eq hh hc he ht hs, hw.of_eq hh hc he hn hi hl, hloans⟩

theorem refl (hw : w.Divided host mine s) : w.Beside inner host mine s w :=
  ⟨.refl w, hw, rfl⟩

theorem trans (h : w.Beside inner host mine s v) (h' : v.Beside inner host mine s u) :
    w.Beside inner host mine s u :=
  ⟨h.toUndisturbed.trans h'.toUndisturbed, h'.divided, h'.loans.trans h.loans⟩

end World.Beside

/-! ## Components that are let go -/

namespace World

/-- The world after a component was let go: it is dropped if nobody else holds it. -/
def settled (w : World κ) (i : ComponentId) : World κ :=
  if w.holds i then w
  else match w.components.get? i with
    | none => w
    | some c => (w.withoutComponent i).discarded c.host (.node c.node.id) (.release i)

/-- The world after a variable has let go of what it held, if it held something. -/
def vacated (w : World κ) : Option ComponentId → World κ
  | none => w
  | some i => w.settled i

theorem Divided.settled (hw : w.Divided host mine s) (i : ComponentId) :
    (w.settled i).Divided host mine s := by
  unfold World.settled
  split
  · exact hw
  · split
    · exact hw
    · exact (hw.withoutComponent i).discarded _ _ _

theorem loans_settled (w : World κ) (i : ComponentId) : (w.settled i).loans = w.loans := by
  unfold World.settled
  split
  · rfl
  · cases w.components.get? i with
    | none => rfl
    | some c => rfl

theorem pins_settled (w : World κ) (i : ComponentId) : (w.settled i).pins = w.pins := by
  unfold World.settled
  split
  · rfl
  · cases w.components.get? i with
    | none => rfl
    | some c => rfl

theorem loans_vacated (w : World κ) (o : Option ComponentId) : (w.vacated o).loans = w.loans := by
  cases o with
  | none => rfl
  | some i => exact w.loans_settled i

theorem pins_vacated (w : World κ) (o : Option ComponentId) : (w.vacated o).pins = w.pins := by
  cases o with
  | none => rfl
  | some i => exact w.pins_settled i

theorem Beside.settled {inner : Inner κ S} (hw : w.Divided host mine s) {i : ComponentId}
    (hi : ¬s.component i) : w.Beside inner host mine s (w.settled i) := by
  refine ⟨?_, hw.settled i, w.loans_settled i⟩
  unfold World.settled
  split
  · exact .refl w
  · split
    · exact .refl w
    · next c hc =>
      have hn : ¬s.node c.node.id := fun hn => hi ((hw.placed i c hc).2 hn)
      exact (Undisturbed.withoutComponent hi).trans
        (.discarded (hw.withoutComponent i).tidy hn _ _)

theorem Beside.vacated {inner : Inner κ S} (hw : w.Divided host mine s)
    {o : Option ComponentId} (ho : ∀ i, o = some i → ¬s.component i) :
    w.Beside inner host mine s (w.vacated o) := by
  cases o with
  | none => exact .refl hw
  | some i => exact .settled hw (ho i rfl)

end World

namespace Act

variable {E : Option Halt → Prop}

theorem wp_settle_free {Q : Unit → World κ → Prop} (c : ComponentId)
    (hfree : ∀ h, w.conflicts (.entries h) .write = false) :
    Wp E (settle c) Q w ↔ Q () (w.settled c) := by
  rw [wp_settle, World.settled]
  split
  · exact Iff.rfl
  · cases w.components.get? c with
    | none => exact Iff.rfl
    | some comp => simp [hfree]

theorem wp_bindHandle_free {Q : Unit → World κ → Prop} (as : Handle) (c : ComponentId)
    (hfree : ∀ h, w.conflicts (.entries h) .write = false) :
    Wp E (bindHandle as c) Q w ↔
      Q () (World.vacated { w with handles := w.handles.insert as c } (w.handles.get? as)) := by
  rw [wp_bindHandle]
  cases w.handles.get? as with
  | none => exact Iff.rfl
  | some old => exact wp_settle_free old hfree

end Act

end LayeredViews
