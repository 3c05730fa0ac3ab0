import LayeredViews.Proofs.Accounts
import LayeredViews.Proofs.Foreign

/-!
# Two worlds with alike shares

* `World.Alike`: the shares of two worlds are equal but for numbers, which are tied.
* `World.Paired`: two worlds are divided, and the shares that are tied are alike. This remains so
  while in either of them the share is undisturbed (`World.Paired.left_step`), and where both take
  the same step on their shares.
-/

namespace LayeredViews

variable {κ : Client} {S : Type} {inner : Inner κ S} {host : HostId → Host}
  {mine : Handle → Bool} {T U : Ties} {w v w' v' : World κ}

/-- Components equal but for numbers, and for what they retain. -/
structure Component.Alike (T : Ties) (c d : Component) : Prop where
  type : c.type = d.type
  metadata : c.metadata = d.metadata
  host : c.host = d.host
  node : T.node c.node.id d.node.id
  attrs : c.node.attrs = d.node.attrs
  bound : c.subscriptions.bound = d.subscriptions.bound

theorem Component.Alike.grow (h : T.Grows U) {c d : Component} (hcd : c.Alike T d) : c.Alike U d :=
  { hcd with node := h.node ▸ hcd.node }

/-- Callbacks that call one method of tied components. -/
def Callback.Alike (T : Ties) (a b : Callback) : Prop :=
  ∃ i j m, a = .method i m ∧ b = .method j m ∧ T.component i j

/-- Registrations for one event that call one method of tied components. -/
structure Subscription.Alike (T : Ties) (r q : Subscription) : Prop where
  event : r.event = q.event
  callback : r.listener.callback.Alike T q.listener.callback

theorem Subscription.Alike.grow (h : T.Grows U) {r q : Subscription} (hrq : r.Alike T q) :
    r.Alike U q := by
  obtain ⟨i, j, m, hi, hj, hij⟩ := hrq.callback
  exact ⟨hrq.event, i, j, m, hi, hj, h.component i j hij⟩

theorem Subscription.Alike.isOf (hT : Relator.BiUnique T.component) {r q : Subscription}
    (h : r.Alike T q) {i j : ComponentId} (hij : T.component i j) : r.isOf i = q.isOf j := by
  obtain ⟨i', j', m, hi', hj', hij'⟩ := h.callback
  rw [Subscription.isOf, Subscription.isOf, hi', hj']
  have hiff : i' = i ↔ j' = j := by
    constructor
    · rintro rfl
      exact hT.2 hij' hij
    · rintro rfl
      exact hT.1 hij' hij
  exact Bool.eq_iff_iff.2 (by simpa using hiff)

namespace Component.Alike

variable {c d : Component} (hcd : c.Alike T d) {i j : ComponentId}
include hcd

/-- Alike components retain equally many listeners. -/
theorem length_entries (ha : Accounted host w) (ha' : Accounted host w')
    (hc : w.components.get? i = some c) (hd : w'.components.get? j = some d) :
    c.subscriptions.entries.length = d.subscriptions.entries.length := by
  obtain ⟨-, hunbound, hbound, -⟩ := ha.consistent i c hc
  obtain ⟨-, hunbound', hbound', -⟩ := ha'.consistent j d hd
  have hb := hcd.bound
  cases hcb : c.subscriptions.bound with
  | false => rw [hunbound hcb, hunbound' (hb ▸ hcb)]
  | true =>
    have hl := congrArg List.length (hbound hcb)
    have hl' := congrArg List.length (hbound' (hb ▸ hcb))
    rw [List.length_map, List.length_map] at hl hl'
    rw [hl, hl', hcd.metadata]

/-- Listeners that do what alike components want are alike. -/
theorem calls (hij : T.component i j) {added added' : List Subscription}
    (hadded : added.map Subscription.call = c.calls i)
    (hadded' : added'.map Subscription.call = d.calls j) :
    List.Forall₂ (Subscription.Alike T) added added' := by
  have key : List.Forall₂ (fun p q => p.1 = q.1 ∧ Callback.Alike T p.2 q.2)
      (c.calls i) (d.calls j) := by
    rw [Component.calls, Component.calls, hcd.type, hcd.metadata]
    refine List.rel_filterMap (R := Eq) ?_ (List.forall₂_same.2 fun _ _ => rfl)
    rintro b _ rfl
    dsimp only
    cases d.type.findMethod b.handler with
    | none => exact .none
    | some m => exact .some ⟨rfl, i, j, m, rfl, rfl, hij⟩
  rw [← hadded, ← hadded', List.forall₂_map_left_iff, List.forall₂_map_right_iff] at key
  exact key.imp fun _ _ hrq => ⟨hrq.1, hrq.2⟩

end Component.Alike

namespace World

/-- The shares of two worlds are equal but for numbers. -/
structure Alike (inner : Inner κ S) (mine : Handle → Bool) (T : Ties) (w w' : World κ) : Prop where
  handles : ∀ x, mine x = true → Option.Rel T.component (w.handles.get? x) (w'.handles.get? x)
  components : ∀ i j, T.component i j →
    Option.Rel (Component.Alike T) (w.components.get? i) (w'.components.get? j)
  entries : ∀ h n n', T.node n n' → (w.entry h n).Alike T (w'.entry h n')
  heard : ∀ t, List.Forall₂ (Subscription.Alike T)
    (T.left.heard (w.target t)) (T.right.heard (w'.target t))
  present : ∀ t, (w.target t).present = (w'.target t).present
  switchable : ∀ t, (w.target t).switchable = (w'.target t).switchable
  states : ∀ i j, T.inst i j → inner.state w.memory i = inner.state w'.memory j

/-- Two worlds are divided, and what is tied is alike. -/
structure Paired (inner : Inner κ S) (host : HostId → Host) (mine : Handle → Bool) (T : Ties)
    (w w' : World κ) : Prop where
  ties : T.OneToOne
  left : w.Divided host mine T.left
  right : w'.Divided host mine T.right
  alike : Alike inner mine T w w'

namespace Paired

variable (h : Paired inner host mine T w w')
include h

/-- A step beside the share of the first world. -/
theorem left_step (hv : w.Beside inner host mine T.left v) : Paired inner host mine T v w' where
  ties := h.ties
  left := hv.divided
  right := h.right
  alike := {
    handles := fun x hx => (hv.handles x hx).symm ▸ h.alike.handles x hx
    components := fun i j hij => (hv.components i ⟨j, hij⟩).symm ▸ h.alike.components i j hij
    entries := fun hst n n' hn => (hv.entries hst n ⟨n', hn⟩).symm ▸ h.alike.entries hst n n' hn
    heard := fun t => (hv.heard t).symm ▸ h.alike.heard t
    present := fun t => (hv.present t).trans (h.alike.present t)
    switchable := fun t => (hv.switchable t).trans (h.alike.switchable t)
    states := fun i j hij => (hv.states i ⟨j, hij⟩).trans (h.alike.states i j hij) }

/-- A step beside the share of the second world. -/
theorem right_step (hv : w'.Beside inner host mine T.right v') :
    Paired inner host mine T w v' where
  ties := h.ties
  left := h.left
  right := hv.divided
  alike := {
    handles := fun x hx => (hv.handles x hx).symm ▸ h.alike.handles x hx
    components := fun i j hij => (hv.components j ⟨i, hij⟩).symm ▸ h.alike.components i j hij
    entries := fun hst n n' hn => (hv.entries hst n' ⟨n, hn⟩).symm ▸ h.alike.entries hst n n' hn
    heard := fun t => (hv.heard t).symm ▸ h.alike.heard t
    present := fun t => (h.alike.present t).trans (hv.present t).symm
    switchable := fun t => (h.alike.switchable t).trans (hv.switchable t).symm
    states := fun i j hij => (h.alike.states i j hij).trans (hv.states j ⟨i, hij⟩).symm }

/-- Steps that have nothing to do with the shares. -/
theorem idle (hv : w.Beside inner host mine T.left v)
    (hv' : w'.Beside inner host mine T.right v') : Paired inner host mine T v v' :=
  (h.left_step hv).right_step hv'

theorem recorded (record record' : List (Occurrence κ)) :
    Paired inner host mine T { w with record } { w' with record := record' } :=
  h.idle (World.Worked.recorded h.left record).toBeside
    (World.Worked.recorded h.right record').toBeside

/-- The same variable holds components that are tied. -/
theorem bound {as : Handle} (has : mine as = true) {i j : ComponentId} (hij : T.component i j) :
    Paired inner host mine T { w with handles := w.handles.insert as i }
      { w' with handles := w'.handles.insert as j } where
  ties := h.ties
  left := h.left.bound (h.left.component i ⟨j, hij⟩) (iff_of_true has ⟨j, hij⟩)
  right := h.right.bound (h.right.component j ⟨i, hij⟩) (iff_of_true has ⟨i, hij⟩)
  alike := { h.alike with
    handles := fun x hx => by
      change Option.Rel _ ((w.handles.insert as i).get? x) ((w'.handles.insert as j).get? x)
      rw [Dict.get?_insert, Dict.get?_insert]
      split
      · exact .some hij
      · exact h.alike.handles x hx }

theorem released (x : Handle) :
    Paired inner host mine T { w with handles := w.handles.erase x }
      { w' with handles := w'.handles.erase x } where
  ties := h.ties
  left := h.left.released x
  right := h.right.released x
  alike := { h.alike with
    handles := fun y hy => by
      change Option.Rel _ ((w.handles.erase x).get? y) ((w'.handles.erase x).get? y)
      rw [Dict.get?_erase, Dict.get?_erase]
      split
      · exact .none
      · exact h.alike.handles y hy }

/-- A component tied to `i` is `j` exactly if it is tied to `j`. -/
theorem component_iff {i j k l : ComponentId} (hij : T.component i j) (hkl : T.component k l) :
    k = i ↔ l = j := by
  constructor
  · rintro rfl
    exact h.ties.component.2 hkl hij
  · rintro rfl
    exact h.ties.component.1 hkl hij

theorem withoutComponent {i j : ComponentId} (hij : T.component i j) :
    Paired inner host mine T (w.withoutComponent i) (w'.withoutComponent j) where
  ties := h.ties
  left := h.left.withoutComponent i
  right := h.right.withoutComponent j
  alike := { h.alike with
    components := fun k l hkl => by
      have hiff := h.component_iff hij hkl
      rw [World.withoutComponent, World.withoutComponent, Dict.get?_erase, Dict.get?_erase]
      by_cases hk : k = i
      · rw [if_pos hk, if_pos (hiff.1 hk)]
        exact .none
      · rw [if_neg hk, if_neg (mt hiff.2 hk)]
        exact h.alike.components k l hkl }

/-- Entries are dropped that are selected alike. -/
theorem discarded {hst : HostId} {selection selection' : Cache.Selection} {cause cause' : Cause}
    (hsel : ∀ n n', T.node n n' → selection.selects n (w.entry hst n) =
      selection'.selects n' (w'.entry hst n')) :
    Paired inner host mine T (w.discarded hst selection cause)
      (w'.discarded hst selection' cause') where
  ties := h.ties
  left := h.left.discarded hst selection cause
  right := h.right.discarded hst selection' cause'
  alike := { h.alike with
    entries := fun hst' n n' hn => by
      rw [entry_discarded h.left.tidy, entry_discarded h.right.tidy, hsel n n' hn]
      split
      · exact .empty
      · exact h.alike.entries hst' n n' hn }

/-- What is stored for nodes that are tied is dropped. -/
theorem discarded_node {n n' : NodeId} (hn : T.node n n') (hst : HostId) (cause cause' : Cause) :
    Paired inner host mine T (w.discarded hst (.node n) cause)
      (w'.discarded hst (.node n') cause') := by
  refine h.discarded fun m m' hm => Bool.eq_iff_iff.2 ?_
  simp only [Cache.Selection.selects, beq_iff_eq]
  constructor
  · rintro rfl
    exact h.ties.node.2 hm hn
  · rintro rfl
    exact h.ties.node.1 hm hn

/-- A variable holds a component exactly if one holds the component that is tied to it. -/
theorem values_iff {i j : ComponentId} (hij : T.component i j) :
    i ∈ w.handles.values ↔ j ∈ w'.handles.values := by
  constructor
  · intro hi
    obtain ⟨x, hx⟩ := h.left.sorted.exists_get? hi
    have hmine : mine x = true := (h.left.held x i hx).2.2 ⟨j, hij⟩
    obtain ⟨l, hl, hil⟩ := rel_left (h.alike.handles x hmine) hx
    exact Dict.mem_values_of_get? (h.ties.component.2 hil hij ▸ hl)
  · intro hj
    obtain ⟨x, hx⟩ := h.right.sorted.exists_get? hj
    have hmine : mine x = true := (h.right.held x j hx).2.2 ⟨i, hij⟩
    obtain ⟨k, hk, hkj⟩ := rel_right (h.alike.handles x hmine) hx
    exact Dict.mem_values_of_get? (h.ties.component.1 hkj hij ▸ hk)

theorem holds_eq {i j : ComponentId} (hij : T.component i j)
    (hpins : i ∈ w.pins ↔ j ∈ w'.pins) : w.holds i = w'.holds j := by
  rw [Bool.eq_iff_iff, holds, holds, Bool.or_eq_true, Bool.or_eq_true]
  simp only [List.contains_iff_mem]
  exact or_congr (h.values_iff hij) hpins

/-- Components that are tied are let go. -/
theorem settled {i j : ComponentId} (hij : T.component i j) (hpins : i ∈ w.pins ↔ j ∈ w'.pins) :
    Paired inner host mine T (w.settled i) (w'.settled j) := by
  rw [World.settled, World.settled, h.holds_eq hij hpins]
  split
  · exact h
  · have hcomp := h.alike.components i j hij
    generalize w.components.get? i = o, w'.components.get? j = o' at hcomp
    cases hcomp with
    | none => exact h
    | some hcd =>
      dsimp only
      rw [hcd.host]
      exact (h.withoutComponent hij).discarded_node hcd.node _ _ _

theorem vacated {o o' : Option ComponentId} (ho : Option.Rel T.component o o')
    (hpins : ∀ i j, o = some i → o' = some j → (i ∈ w.pins ↔ j ∈ w'.pins)) :
    Paired inner host mine T (w.vacated o) (w'.vacated o') := by
  cases ho with
  | none => exact h
  | some hij => exact h.settled hij (hpins _ _ rfl rfl)

/-- Components that are tied are changed, and remain alike. -/
theorem setComponent {i j : ComponentId} (hij : T.component i j) {c d e f : Component}
    (hc : w.components.get? i = some c) (hd : w'.components.get? j = some d)
    (hhost : e.host = c.host) (hhost' : f.host = d.host) (hef : e.Alike T f) :
    Paired inner host mine T (w.setComponent i e) (w'.setComponent j f) where
  ties := h.ties
  left := h.left.setComponent hc hhost (iff_of_true ⟨j, hij⟩ ⟨_, hef.node⟩)
  right := h.right.setComponent hd hhost' (iff_of_true ⟨i, hij⟩ ⟨_, hef.node⟩)
  alike := { h.alike with
    components := fun k l hkl => by
      have hiff := h.component_iff hij hkl
      rw [World.setComponent, World.setComponent, Dict.get?_insert, Dict.get?_insert]
      by_cases hk : k = i
      · rw [if_pos hk, if_pos (hiff.1 hk)]
        exact .some hef
      · rw [if_neg hk, if_neg (mt hiff.2 hk)]
        exact h.alike.components k l hkl }

/-- Alike components come to be in both worlds. -/
theorem withComponent (ha : Accounted host w) (ha' : Accounted host w') {c d : Component}
    (hcd : c.Alike T d) {classes : ClassRegistry}
    (hserved : (host c.host).loader = .registry classes) :
    Paired inner host mine (T.withComponent w.nextComponent w'.nextComponent)
      (w.withComponent c) (w'.withComponent d) := by
  have hgrows := T.grows_withComponent w.nextComponent w'.nextComponent
  have hnew : ∀ j, ¬T.component w.nextComponent j := fun j hj =>
    Nat.lt_irrefl _ (h.left.component _ ⟨j, hj⟩)
  have hnew' : ∀ i, ¬T.component i w'.nextComponent := fun i hi =>
    Nat.lt_irrefl _ (h.right.component _ ⟨i, hi⟩)
  -- what was heard before is not of the new components
  have hheard : ∀ t, (T.withComponent w.nextComponent w'.nextComponent).left.heard (w.target t) =
      T.left.heard (w.target t) := fun t => Share.among_congr fun r hr => by
    refine exists_congr fun i => exists_congr fun m => and_congr_right fun hm => ?_
    refine exists_tie.trans (or_iff_left ?_)
    rintro rfl
    exact Nat.lt_irrefl _ (ha.owned t r hr _ m hm).1
  have hheard' : ∀ t, (T.withComponent w.nextComponent w'.nextComponent).right.heard (w'.target t) =
      T.right.heard (w'.target t) := fun t => Share.among_congr fun r hr => by
    refine exists_congr fun i => exists_congr fun m => and_congr_right fun hm => ?_
    refine exists_tie'.trans (or_iff_left ?_)
    rintro rfl
    exact Nat.lt_irrefl _ (ha'.owned t r hr _ m hm).1
  refine ⟨{ h.ties with component := tie_biUnique h.ties.component hnew hnew' }, ?_, ?_, {
    handles := fun x hx => rel_imp (hgrows.component) (h.alike.handles x hx)
    components := ?_
    entries := fun hst n n' hn => (h.alike.entries hst n n' hn).grow hgrows
    heard := fun t => ?_
    present := h.alike.present
    switchable := h.alike.switchable
    states := h.alike.states }⟩
  · refine h.left.withComponent (fun i hi => exists_tie.trans (or_iff_left (Nat.ne_of_lt hi)))
      (iff_of_true (exists_tie.2 (.inr rfl)) ⟨_, hcd.node⟩) (fun i hi => ?_) ha.fresh
      fun _ => ⟨classes, hserved⟩
    rcases exists_tie.1 hi with hi | rfl
    · exact Nat.le_of_lt (h.left.component i hi)
    · exact Nat.le_refl _
  · refine h.right.withComponent (fun i hi => exists_tie'.trans (or_iff_left (Nat.ne_of_lt hi)))
      (iff_of_true (exists_tie'.2 (.inr rfl)) ⟨_, hcd.node⟩) (fun i hi => ?_) ha'.fresh
      fun _ => ⟨classes, hcd.host ▸ hserved⟩
    rcases exists_tie'.1 hi with hi | rfl
    · exact Nat.le_of_lt (h.right.component i hi)
    · exact Nat.le_refl _
  · rintro i j (hij | ⟨rfl, rfl⟩)
    · change Option.Rel _ ((w.components.insert _ c).get? i) ((w'.components.insert _ d).get? j)
      have hi : i ≠ w.nextComponent := fun he => hnew j (by rwa [he] at hij)
      have hj : j ≠ w'.nextComponent := fun he => hnew' i (by rwa [he] at hij)
      rw [Dict.get?_insert_of_ne _ _ hi, Dict.get?_insert_of_ne _ _ hj]
      exact rel_imp (fun _ _ hcd => hcd.grow hgrows) (h.alike.components i j hij)
    · change Option.Rel _ ((w.components.insert _ c).get? _) ((w'.components.insert _ d).get? _)
      rw [Dict.get?_insert_self, Dict.get?_insert_self]
      exact .some (hcd.grow hgrows)
  · change List.Forall₂ _ (Share.heard _ (w.target t)) (Share.heard _ (w'.target t))
    rw [hheard, hheard']
    exact (h.alike.heard t).imp fun _ _ hrq => hrq.grow hgrows

/-- Listeners were registered or removed, and runtimes were switched, in the same way. -/
theorem retargeted
    (hv : v = { w with
      targets := v.targets, nextListener := v.nextListener, record := v.record })
    (hv' : v' = { w' with
      targets := v'.targets, nextListener := v'.nextListener, record := v'.record })
    (heard : ∀ t, List.Forall₂ (Subscription.Alike T)
      (T.left.heard (v.target t)) (T.right.heard (v'.target t)))
    (present : ∀ t, (v.target t).present = (v'.target t).present)
    (switchable : ∀ t, (v.target t).switchable = (v'.target t).switchable) :
    Paired inner host mine T v v' where
  ties := h.ties
  left := h.left.of_eq (by rw [hv]) (by rw [hv]) (by rw [hv]) (by rw [hv])
    (Nat.le_of_eq (by rw [hv])) (Nat.le_of_eq (by rw [hv]))
  right := h.right.of_eq (by rw [hv']) (by rw [hv']) (by rw [hv']) (by rw [hv'])
    (Nat.le_of_eq (by rw [hv'])) (Nat.le_of_eq (by rw [hv']))
  alike := by
    obtain ⟨handles, components, entries, -, -, -, states⟩ := h.alike
    rw [hv] at heard present switchable ⊢
    rw [hv'] at heard present switchable ⊢
    exact ⟨handles, components, entries, heard, present, switchable, states⟩

theorem switched (t : TargetId) (on : Bool) :
    Paired inner host mine T (w.setTarget t ((w.target t).switch on))
      (w'.setTarget t ((w'.target t).switch on)) := by
  refine h.retargeted rfl rfl (fun t' => ?_) (fun t' => ?_) fun t' => ?_
  · rw [target_setTarget, target_setTarget]
    split
    · rw [Share.heard, Share.heard, EventTarget.listeners_switch, EventTarget.listeners_switch]
      exact h.alike.heard t
    · exact h.alike.heard t'
  · rw [target_setTarget, target_setTarget]
    split
    · rw [EventTarget.switch, EventTarget.switch, h.alike.switchable t]
      split
      · rfl
      · exact h.alike.present t
    · exact h.alike.present t'
  · rw [target_setTarget, target_setTarget]
    split
    · rw [EventTarget.switch, EventTarget.switch, h.alike.switchable t]
      split
      · rfl
      · exact h.alike.switchable t
    · exact h.alike.switchable t'

theorem presentTarget_eq {c d : Component} (hcd : c.Alike T d) :
    w.presentTarget (host c.host) = w'.presentTarget (host d.host) := by
  rw [presentTarget, presentTarget, hcd.host]
  cases (host d.host).target with
  | none => rfl
  | some t => rw [Option.filter, Option.filter, h.alike.present t]

/-- Alike listeners are registered for components that are tied. -/
theorem registered {i j : ComponentId} (hij : T.component i j) {t : TargetId}
    {events events' : List EventBinding} {added added' : List Subscription}
    (hr : w.Registered i t events added v) (hr' : w'.Registered j t events' added' v')
    (hadded : List.Forall₂ (Subscription.Alike T) added added') :
    Paired inner host mine T v v' := by
  refine h.retargeted hr.rest hr'.rest (fun t' => ?_) (fun t' => ?_) fun t' => ?_
  · by_cases he : t' = t
    · rw [he, hr.heard (s := T.left) ⟨j, hij⟩, hr'.heard (s := T.right) ⟨i, hij⟩]
      exact List.rel_append (h.alike.heard t) hadded
    · rw [hr.others t' he, hr'.others t' he]
      exact h.alike.heard t'
  · rw [(hr.runtime t').1, (hr'.runtime t').1]
    exact h.alike.present t'
  · rw [(hr.runtime t').2, (hr'.runtime t').2]
    exact h.alike.switchable t'

section

variable (ha : Accounted host w) (ha' : Accounted host w') {i j : ComponentId}
  (hij : T.component i j) {c d : Component} (hc : w.components.get? i = some c)
  (hd : w'.components.get? j = some d) (hcd : c.Alike T d)
include ha ha' hij hc hd hcd

theorem removed {t : TargetId} (ht : (host c.host).target = some t)
    (hr : w.Removed t c.subscriptions.entries v) (hr' : w'.Removed t d.subscriptions.entries v') :
    Paired inner host mine T v v' := by
  have ht' : (host d.host).target = some t := hcd.host ▸ ht
  refine h.retargeted (by rw [hr.rest]) (by rw [hr'.rest]) (fun t' => ?_) (fun t' => ?_)
    fun t' => ?_
  · by_cases he : t' = t
    · rw [he, hr.heard ha hc ht, hr'.heard ha' hd ht']
      refine List.rel_filter (fun r q hrq => ?_) (h.alike.heard t)
      simp [hrq.isOf h.ties.component hij]
    · rw [hr.others t' he, hr'.others t' he]
      exact h.alike.heard t'
  · rw [(hr.runtime ha.toSubscribed hc ht t').1, (hr'.runtime ha'.toSubscribed hd ht' t').1]
    exact h.alike.present t'
  · rw [(hr.runtime ha.toSubscribed hc ht t').2, (hr'.runtime ha'.toSubscribed hd ht' t').2]
    exact h.alike.switchable t'

/-- Alike components are unbound. -/
theorem unbound {n n' : Nat} (hu : Unbound host i c w n v) (hu' : Unbound host j d w' n' v') :
    n = n' ∧ Paired inner host mine T v v' := by
  have hp := h.presentTarget_eq hcd
  cases hu with
  | absent hnone =>
    cases hu' with
    | absent => exact ⟨rfl, h.recorded _ _⟩
    | removed t hsome => cases hnone.symm.trans (hp.trans hsome)
  | removed t hsome w₁ hr =>
    cases hu' with
    | absent hnone => cases hnone.symm.trans (hp.symm.trans hsome)
    | removed t' hsome' w₁' hr' =>
      obtain rfl : t = t' := Option.some.inj (hsome.symm.trans (hp.trans hsome'))
      have hpair := h.removed ha ha' hij hc hd hcd (target_of_present hsome) hr hr'
      have hc₁ : w₁.components.get? i = some c := by rw [hr.rest, hc]
      have hd₁ : w₁'.components.get? j = some d := by rw [hr'.rest, hd]
      have hset := hpair.setComponent hij hc₁ hd₁ (e := { c with subscriptions := ∅ })
        (f := { d with subscriptions := ∅ }) rfl rfl { hcd with bound := rfl }
      exact ⟨hcd.length_entries ha ha' hc hd, hset.recorded _ _⟩

/-- Alike components are bound. -/
theorem initialized {r r' : Except Error Unit} (hi : Initialized host i c w r v)
    (hi' : Initialized host j d w' r' v')
    (hcalls : c.subscriptions = ∅ → v.Listens i c)
    (hcalls' : d.subscriptions = ∅ → v'.Listens j d) :
    r = r' ∧ Paired inner host mine T v v' := by
  have hp := h.presentTarget_eq hcd
  cases hi with
  | absent hnone =>
    cases hi' with
    | absent => exact ⟨rfl, h.recorded _ _⟩
    | refused t hsome => cases hnone.symm.trans (hp.trans hsome)
    | bound t hsome => cases hnone.symm.trans (hp.trans hsome)
  | refused t hsome hb =>
    cases hi' with
    | absent hnone => cases hnone.symm.trans (hp.symm.trans hsome)
    | refused => exact ⟨by rw [hcd.metadata], h⟩
    | bound t' _ hb' => cases hb.symm.trans (hcd.bound.trans hb')
  | bound t hsome hb added w₁ hr =>
    cases hi' with
    | absent hnone => cases hnone.symm.trans (hp.symm.trans hsome)
    | refused t' _ hb' => cases hb.symm.trans (hcd.bound.trans hb')
    | bound t' hsome' hb' added' w₁' hr' =>
      obtain rfl : t = t' := Option.some.inj (hsome.symm.trans (hp.trans hsome'))
      have hempty : c.subscriptions = ∅ :=
        Subscriptions.eq_empty hb ((ha.consistent i c hc).unbound hb)
      have hempty' : d.subscriptions = ∅ :=
        Subscriptions.eq_empty hb' ((ha'.consistent j d hd).unbound hb')
      have hadded := hcalls hempty _ (Dict.get?_insert_self ..) rfl
      have hadded' := hcalls' hempty' _ (Dict.get?_insert_self ..) rfl
      have hpair := h.registered hij hr hr' (hcd.calls hij hadded hadded')
      have hc₁ : w₁.components.get? i = some c := by rw [hr.rest, hc]
      have hd₁ : w₁'.components.get? j = some d := by rw [hr'.rest, hd]
      have hset := hpair.setComponent hij hc₁ hd₁
        (e := { c with subscriptions := ⟨true, added⟩ })
        (f := { d with subscriptions := ⟨true, added'⟩ }) rfl rfl { hcd with bound := rfl }
      exact ⟨rfl, hset.recorded _ _⟩

end

end Paired

end World

end LayeredViews
