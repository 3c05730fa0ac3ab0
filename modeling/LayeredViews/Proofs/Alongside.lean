import LayeredViews.Proofs.AtRest

/-!
# Operations on alike components

The same operation is performed on alike components of two worlds at rest: the shares of the worlds
remain alike, and the operation answers alike.

* `Act.Abreast.withComponent`: an operation on components that are tied.
* `Setting.abreast_init` and the lemmas near it: what such an operation does.
* `Setting.abreast_mount`, `Setting.abreast_create`: alike components come to be, and are tied.
-/

namespace LayeredViews

variable {κ : Client} {S α β : Type} {inner : Inner κ S} {host : HostId → Host}
  {mine : Handle → Bool} {T U : Ties} {w v w' v' : World κ} {user : Callbacks (Act κ)}

open World

namespace World

/-- No operation holds a component. -/
theorem mem_pins_iff (hp : w.pins = []) (hp' : w'.pins = []) {i j : ComponentId} :
    i ∈ w.pins ↔ j ∈ w'.pins := by
  rw [hp, hp']
  exact iff_of_false List.not_mem_nil List.not_mem_nil

end World

namespace World.Paired

variable (h : Paired inner host mine T w w')
include h

/-- A variable gets components that are tied; what it held before is let go. -/
theorem rebound {as : Handle} (has : mine as = true) {i j : ComponentId} (hij : T.component i j)
    (hpins : ∀ k l, T.component k l → (k ∈ w.pins ↔ l ∈ w'.pins)) :
    Paired inner host mine T (w.rebound as i) (w'.rebound as j) := by
  have hold := h.alike.handles as has
  refine (h.bound has hij).vacated hold fun k l hk hl => ?_
  rw [hk, hl] at hold
  cases hold with
  | some hkl => exact hpins k l hkl

/-- Alike components move to nodes that are tied. -/
theorem moved {i j : ComponentId} (hij : T.component i j) {c d : Component} (hcd : c.Alike T d)
    (hc : w.components.get? i = some c) (hd : w'.components.get? j = some d) {node node' : Node}
    (hn : T.node node.id node'.id) (hattrs : node.attrs = node'.attrs) :
    Paired inner host mine T (w.moved i c node) (w'.moved j d node') := by
  have hset := h.setComponent hij hc hd (e := { c with node }) (f := { d with node := node' })
    rfl rfl { hcd with node := hn, attrs := hattrs }
  have hiff : c.node.id = node.id ↔ d.node.id = node'.id := by
    constructor
    · intro he
      exact h.ties.node.2 hcd.node (he ▸ hn)
    · intro he
      exact h.ties.node.1 hcd.node (he ▸ hn)
  rw [World.moved, World.moved]
  by_cases he : c.node.id = node.id
  · rw [if_pos he, if_pos (hiff.1 he)]
    exact hset
  · have hgone := hset.discarded_node hcd.node c.host (.update i) (.update j)
    rw [if_neg he, if_neg (mt hiff.2 he)]
    rw [← hcd.host] at hgone ⊢
    exact hgone

end World.Paired

/-! ## Operations on components that exist -/

namespace Act.Abreast

variable {r : Ties → α → β → Prop} {i j : ComponentId}

theorem map {γ δ : Type} {r' : Ties → γ → δ → Prop} {a : Act κ α} {b : Act κ β} {f : α → γ}
    {g : β → δ} (h : Abreast inner host mine T r a b w w')
    (hr : ∀ U x y, r U x y → r' U (f x) (g y)) :
    Abreast inner host mine T r' (f <$> a) (g <$> b) w w' := by
  rw [← bind_pure_comp, ← bind_pure_comp]
  exact h.bind fun U x y v v' _ hpair _ _ hxy => .pure hpair (hr U x y hxy)

/-- Components that are tied are held meanwhile. -/
theorem pinned (hij : T.component i j) (hl : w.loans = []) (hl' : w'.loans = [])
    (hp : w.pins = []) (hp' : w'.pins = []) {a : Act κ α} {b : Act κ β}
    (h : Abreast inner host mine T r a b (w.pin i) (w'.pin j)) :
    Abreast inner host mine T r (Act.pinned i a) (Act.pinned j b) w w' := by
  obtain @⟨x, y, v, v', U, ha, hb, hv, hv', hgrows, hpair, hrel⟩ := h
  have hpins : v.unpin.pins = w.pins := congrArg List.tail hv.pins
  have hpins' : v'.unpin.pins = w'.pins := congrArg List.tail hv'.pins
  have hunpin : Paired inner host mine U v.unpin v'.unpin := hpair.lent _ _ _ _
  refine .intro (run_pinned ha (hv.loans.trans hl)) (run_pinned hb (hv'.loans.trans hl'))
    ⟨(pins_settled _ i).trans hpins, (loans_settled _ i).trans hv.loans⟩
    ⟨(pins_settled _ j).trans hpins', (loans_settled _ j).trans hv'.loans⟩ hgrows
    (hunpin.settled (hgrows.component i j hij) ?_) hrel
  exact mem_pins_iff (hpins.trans hp) (hpins'.trans hp')

/-- An operation on components that are tied, if they exist. -/
theorem withComponent (h : Paired inner host mine T w w') (hw : w.AtRest host)
    (hw' : w'.AtRest host) (hij : T.component i j) {body : Component → Act κ α}
    {body' : Component → Act κ β}
    (hbody : ∀ c d, w.components.get? i = some c → w'.components.get? j = some d →
      c.Alike T d → Paired inner host mine T (w.pin i) (w'.pin j) →
      Abreast inner host mine T r (body c) (body' d) (w.pin i) (w'.pin j)) :
    Abreast inner host mine T (fun U => Option.Rel (r U)) (Act.withComponent i body)
      (Act.withComponent j body') w w' := by
  have hcomp := h.alike.components i j hij
  unfold Act.withComponent
  refine .read rfl rfl ?_
  cases hc : w.components.get? i with
  | none =>
    cases hd : w'.components.get? j with
    | none => exact .pure h .none
    | some d =>
      rw [hc, hd] at hcomp
      cases hcomp
  | some c =>
    cases hd : w'.components.get? j with
    | none =>
      rw [hc, hd] at hcomp
      cases hcomp
    | some d =>
      rw [hc, hd] at hcomp
      cases hcomp with
      | some hcd =>
        exact .pinned hij hw.loans hw'.loans hw.pins hw'.pins
          ((hbody c d hc hd hcd (h.lent _ _ _ _)).map fun _ _ _ hr => .some hr)

end Act.Abreast

namespace Setting

open Act

/-- What mounting does with the component once it exists. -/
def boarding (env : Setting κ) (as : Handle) (i : ComponentId) (c : Component) :
    Act κ (Except Error ComponentId) :=
  pinned i do
    match ← env.init i c with
    | .error e => return .error e
    | .ok () =>
      Act.record (.mounted i)
      bindHandle as i
      return .ok i

section

variable {i j : ComponentId} {c d : Component} (h : Paired inner host mine T w w')
  (ha : Accounted host w) (ha' : Accounted host w') (hij : T.component i j) (hcd : c.Alike T d)
  (hc : w.components.get? i = some c) (hd : w'.components.get? j = some d)
include h ha ha' hij hcd hc hd

theorem abreast_init : Abreast inner host mine T (fun _ => Eq) (init ⟨host, user⟩ i c)
    (init ⟨host, user⟩ j d) w w' := by
  obtain ⟨r, v, hr, hinit, hlistens⟩ := run_init ha.toSubscribed user hc
  obtain ⟨r', v', hr', hinit', hlistens'⟩ := run_init ha'.toSubscribed user hd
  obtain ⟨he, hpair⟩ := h.initialized ha ha' hij hc hd hcd hinit hinit' hlistens hlistens'
  exact .intro hr hr' ⟨hinit.frame.2.1, hinit.frame.1⟩ ⟨hinit'.frame.2.1, hinit'.frame.1⟩ (.refl T)
    hpair he

theorem abreast_beforeRemove : Abreast inner host mine T (fun _ => Eq)
    (beforeRemove ⟨host, user⟩ i c) (beforeRemove ⟨host, user⟩ j d) w w' := by
  obtain ⟨n, v, hr, hu⟩ := run_beforeRemove ha.toSubscribed user hc
  obtain ⟨n', v', hr', hu'⟩ := run_beforeRemove ha'.toSubscribed user hd
  obtain ⟨he, hpair⟩ := h.unbound ha ha' hij hc hd hcd hu hu'
  exact .intro hr hr' ⟨hu.frame.2, hu.frame.1⟩ ⟨hu'.frame.2, hu'.frame.1⟩ (.refl T) hpair he

variable (hl : w.loans = []) (hl' : w'.loans = [])
include hl hl'

omit ha ha' in
/-- Both say which node the component is on now. -/
theorem abreast_update {node node' : Node} (hn : T.node node.id node'.id)
    (hattrs : node.attrs = node'.attrs) :
    Abreast inner host mine T Ties.node (Act.update i c node) (Act.update j d node') w w' := by
  have hheld : ∀ (u : World κ) k (e : Component) (m : Node), u.AsHeld (u.moved k e m) :=
    fun u k e m => by
      rw [World.moved]
      split
      · exact ⟨rfl, rfl⟩
      · exact ⟨rfl, rfl⟩
  exact .intro (run_update hl hc node) (run_update hl' hd node') (hheld ..) (hheld ..) (.refl T)
    (h.moved hij hcd hc hd hn hattrs) hn

omit ha ha' hc hd in
theorem abreast_remove : Abreast inner host mine T (fun _ => Eq) (Act.remove i c)
    (Act.remove j d) w w' := by
  refine .intro (run_remove hl i c) (run_remove hl' j d) ⟨rfl, rfl⟩ ⟨rfl, rfl⟩ (.refl T) ?_ rfl
  rw [hcd.host]
  exact h.discarded_node (h.current hij hcd).node _ _ _

theorem abreast_unmount : Abreast inner host mine T (fun _ => Eq) (unmount ⟨host, user⟩ i c)
    (unmount ⟨host, user⟩ j d) w w' :=
  (abreast_beforeRemove h ha ha' hij hcd hc hd).bind fun _ _ _ _ _ hgrows hpair hv hv' _ =>
    (abreast_remove hpair (hgrows.component i j hij) (hcd.grow hgrows) (hv.loans.trans hl)
      (hv'.loans.trans hl')).bind fun _ _ _ _ _ _ hpair _ _ _ =>
        .record hpair fun h => .pure h rfl

end

/-! ## Variables and new components -/

section

variable (h : Paired inner host mine T w w') {as : Handle} (has : mine as = true)
include h has

theorem abreast_bindHandle (hl : w.loans = []) (hl' : w'.loans = []) {i j : ComponentId}
    (hij : T.component i j) (hpins : ∀ k l, T.component k l → (k ∈ w.pins ↔ l ∈ w'.pins)) :
    Abreast inner host mine T (fun _ => Eq) (bindHandle as i) (bindHandle as j) w w' :=
  .intro (run_bindHandle hl as i) (run_bindHandle hl' as j)
    ⟨pins_rebound _ _ _, loans_rebound _ _ _⟩ ⟨pins_rebound _ _ _, loans_rebound _ _ _⟩ (.refl T)
    (h.rebound has hij hpins) rfl

variable (hw : w.AtRest host) (hw' : w'.AtRest host)
include hw hw'

/-- A component that exists gets a further variable. -/
theorem abreast_hold {i j : ComponentId} (hij : T.component i j) : Abreast inner host mine T
    (fun _ => Eq) (perform ⟨host, user⟩ (.hold i as)) (perform ⟨host, user⟩ (.hold j as)) w w' := by
  have hcomp := h.alike.components i j hij
  have hexists : w.components.contains i = w'.components.contains j := by
    rw [Dict.contains, Dict.contains]
    generalize w.components.get? i = o, w'.components.get? j = o' at hcomp
    cases hcomp with
    | none => rfl
    | some _ => rfl
  refine Abreast.read (α := World κ) (β := World κ) (a := get) (b := get) rfl rfl ?_
  rw [hexists]
  cases w'.components.contains j with
  | true =>
    exact (abreast_bindHandle h has hw.loans hw'.loans hij
      fun _ _ _ => mem_pins_iff hw.pins hw'.pins).bind fun _ _ _ _ _ _ hpair _ _ _ =>
        .pure hpair rfl
  | false => exact .pure h rfl

theorem abreast_release : Abreast inner host mine T (fun _ => Eq) (Act.release as)
    (Act.release as) w w' := by
  have hold := h.alike.handles as has
  cases hi : w.handles.get? as with
  | none =>
    cases hj : w'.handles.get? as with
    | none =>
      exact .intro (run_release_none hi) (run_release_none hj) (.refl w) (.refl w') (.refl T) h rfl
    | some j =>
      rw [hi, hj] at hold
      cases hold
  | some i =>
    cases hj : w'.handles.get? as with
    | none =>
      rw [hi, hj] at hold
      cases hold
    | some j =>
      rw [hi, hj] at hold
      cases hold with
      | some hij =>
        refine .intro (run_release_some hw.loans hi) (run_release_some hw'.loans hj)
          ⟨pins_settled _ _, loans_settled _ _⟩ ⟨pins_settled _ _, loans_settled _ _⟩ (.refl T)
          ((h.released as).settled hij ?_) rfl
        exact mem_pins_iff hw.pins hw'.pins

variable {hst : HostId} {type : ComponentType} {node node' : Node}
  (hnew : ∀ metadata, type.build.result = .ok metadata →
    (∃ classes, (host hst).loader = .registry classes) ∧ T.node node.id node'.id)
  (hattrs : node.attrs = node'.attrs)
include hnew hattrs

omit has in
/-- Both build a type, and make a component of it if it can be built. -/
theorem abreast_built {r : Ties → ComponentId → ComponentId → Prop}
    {f g : Component → ComponentId → Act κ (Except Error ComponentId)}
    (hf : ∀ c d, Accounted host ((w.ran type).withComponent c) →
      Accounted host ((w'.ran type).withComponent d) →
      c.Alike (T.withComponent w.nextComponent w'.nextComponent) d →
      Paired inner host mine (T.withComponent w.nextComponent w'.nextComponent)
        ((w.ran type).withComponent c) ((w'.ran type).withComponent d) →
      Abreast inner host mine (T.withComponent w.nextComponent w'.nextComponent)
        (fun U => SameOutcome (r U)) (f c w.nextComponent) (g d w'.nextComponent)
        ((w.ran type).withComponent c) ((w'.ran type).withComponent d)) :
    Abreast inner host mine T (fun U => SameOutcome (r U))
      (do match ← buildType type with
        | .error e => return .error e
        | .ok metadata =>
          let c : Component := { type, metadata, host := hst, node }
          f c (← freshComponent c))
      (do match ← buildType type with
        | .error e => return .error e
        | .ok metadata =>
          let d : Component := { type, metadata, host := hst, node := node' }
          g d (← freshComponent d)) w w' := by
  have hacc : Accounted host (w.ran type) := hw.accounted.recorded _
  have hacc' : Accounted host (w'.ran type) := hw'.accounted.recorded _
  have hran : Paired inner host mine T (w.ran type) (w'.ran type) := h.recorded _ _
  refine .step (run_buildType w type) (run_buildType w' type) ⟨rfl, rfl⟩ ⟨rfl, rfl⟩ (.refl T) ?_
  cases hb : type.build.result with
  | error e => exact .pure hran (.error e)
  | ok metadata =>
    obtain ⟨⟨classes, hreg⟩, hn⟩ := hnew metadata hb
    let c : Component := { type, metadata, host := hst, node }
    let d : Component := { type, metadata, host := hst, node := node' }
    have hcd : c.Alike T d := ⟨rfl, rfl, rfl, hn, hattrs, rfl⟩
    have hgrows := T.grows_withComponent w.nextComponent w'.nextComponent
    exact .step (run_freshComponent _ c) (run_freshComponent _ d) ⟨rfl, rfl⟩ ⟨rfl, rfl⟩ hgrows
      (hf c d (hacc.added hb rfl) (hacc'.added hb rfl) (hcd.grow hgrows)
        (hran.withComponent hacc hacc' hcd hreg))

theorem abreast_create : Abreast inner host mine T (fun U => SameOutcome U.component)
    (Act.create hst type node as) (Act.create hst type node' as) w w' := by
  refine abreast_built (f := fun _ i => do bindHandle as i; return .ok i)
    (g := fun _ j => do bindHandle as j; return .ok j) h hw hw' hnew hattrs
    fun c d _ _ _ hadded => ?_
  exact (abreast_bindHandle hadded has hw.loans hw'.loans (.inr ⟨rfl, rfl⟩)
    fun k l _ => mem_pins_iff hw.pins hw'.pins).bind fun _ _ _ _ _ hgrows hpair _ _ _ =>
      .pure hpair (.ok (hgrows.component _ _ (.inr ⟨rfl, rfl⟩)))

theorem abreast_mount : Abreast inner host mine T (fun U => SameOutcome U.component)
    (mount ⟨host, user⟩ hst type node as) (mount ⟨host, user⟩ hst type node' as) w w' := by
  have htied : (T.withComponent w.nextComponent w'.nextComponent).component w.nextComponent
      w'.nextComponent := .inr ⟨rfl, rfl⟩
  refine abreast_built (f := fun c i => boarding ⟨host, user⟩ as i c)
    (g := fun d j => boarding ⟨host, user⟩ as j d) h hw hw' hnew hattrs
    fun c d hacc hacc' hcd hadded => ?_
  have hl : ((w.ran type).withComponent c).loans = [] := hw.loans
  have hl' : ((w'.ran type).withComponent d).loans = [] := hw'.loans
  -- the components are held while they are bound and put into the variable
  refine .pinned htied hl hl' hw.pins hw'.pins ?_
  refine (abreast_init (hadded.lent _ _ _ _) (hacc.pin _) (hacc'.pin _) htied hcd
    (Dict.get?_insert_self ..) (Dict.get?_insert_self ..)).bind
      fun U r _ v v' hgrows hpair hv hv' hr => ?_
  obtain rfl := hr
  cases r with
  | error e => exact .pure hpair (.error e)
  | ok _ =>
    have hp : v.pins = [w.nextComponent] := hv.pins.trans (congrArg _ hw.pins)
    have hp' : v'.pins = [w'.nextComponent] := hv'.pins.trans (congrArg _ hw'.pins)
    have hij := hgrows.component _ _ htied
    refine .record hpair fun htold => ?_
    exact (abreast_bindHandle htold has (hv.loans.trans hl) (hv'.loans.trans hl') hij
      fun k l hkl => by
        rw [hp, hp', List.mem_singleton, List.mem_singleton]
        exact htold.component_iff hij hkl).bind fun _ _ _ _ _ hgrows' hpair _ _ _ =>
          .pure hpair (.ok (hgrows'.component _ _ hij))

end

end Setting

end LayeredViews
