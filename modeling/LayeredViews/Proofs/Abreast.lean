import LayeredViews.Proofs.Twins

/-!
# Resolving alike components

Where two worlds have alike shares, alike components of the shares are resolved and rendered alike:
they give the same errors and the same output, and lists, models and instances that are alike.

* `World.Paired.made`, `World.Paired.drawn`, and the lemmas near them: the steps of which resolving
  and rendering are made, taken in both worlds.
* `Act.Abreast`: two actions end, and what they give is related; `Act.Abreast.bind` goes through
  them side by side.
* `Setting.abreast_views`, `Setting.abreast_model`, `Setting.abreast_render`: the operations.
-/

namespace LayeredViews

variable {κ : Client} {S α β γ δ : Type} {inner : Inner κ S} {host : HostId → Host}
  {mine : Handle → Bool} {T U : Ties} {w v w' v' : World κ}

/-! ## Steps taken in both worlds -/

namespace World.Paired

variable (h : Paired inner host mine T w w')
include h

/-- What is in use, and what operations hold, makes no difference. -/
theorem lent (loans loans' : List (Cell × Access)) (pins pins' : List ComponentId) :
    Paired inner host mine T { w with loans, pins }
      { w' with loans := loans', pins := pins' } :=
  ⟨h.ties, h.left.of_eq rfl rfl rfl rfl (Nat.le_refl _) (Nat.le_refl _),
    h.right.of_eq rfl rfl rfl rfl (Nat.le_refl _) (Nat.le_refl _), { h.alike with }⟩

/-- Code was run after which the states of tied instances are equal. -/
theorem noted (hv : w.Noted v) (hv' : w'.Noted v')
    (hs : ∀ i j, T.inst i j → inner.state v.memory i = inner.state v'.memory j) :
    Paired inner host mine T v v' := by
  obtain ⟨notes, hv⟩ := hv
  obtain ⟨notes', hv'⟩ := hv'
  rw [hv, hv']
  exact ⟨h.ties, h.left.of_eq rfl rfl rfl rfl (Nat.le_refl _) (Nat.le_refl _),
    h.right.of_eq rfl rfl rfl rfl (Nat.le_refl _) (Nat.le_refl _), { h.alike with states := hs }⟩

/-- Alike instances were made, with the same state. -/
theorem made {w₁ w₁' : World κ} {s : S} {record record' : List (Occurrence κ)}
    (hw₁ : w₁ = { w with nextInstance := w.nextInstance + 1, record })
    (hw₁' : w₁' = { w' with nextInstance := w'.nextInstance + 1, record := record' })
    (hv : w₁.Noted v) (hv' : w₁'.Noted v')
    (hs : inner.state v.memory =
      Function.update (inner.state w.memory) w.nextInstance s)
    (hs' : inner.state v'.memory =
      Function.update (inner.state w'.memory) w'.nextInstance s) :
    Paired inner host mine (T.withInst w.nextInstance w'.nextInstance) v v' := by
  have hgrows := T.grows_withInst w.nextInstance w'.nextInstance
  have hnew : ∀ j, ¬T.inst w.nextInstance j := fun j hj =>
    Nat.lt_irrefl _ (h.left.inst _ ⟨j, hj⟩)
  have hnew' : ∀ i, ¬T.inst i w'.nextInstance := fun i hi =>
    Nat.lt_irrefl _ (h.right.inst _ ⟨i, hi⟩)
  -- the instances are tied before they have their states
  have hleft : w₁.Divided host mine (T.withInst w.nextInstance w'.nextInstance).left := by
    refine Divided.of_eq (h.left.counted
      (fun i hi => exists_tie.trans (or_iff_left (Nat.ne_of_lt hi))) fun i hi => ?_)
      (by rw [hw₁]) (by rw [hw₁]) (by rw [hw₁]) (by rw [hw₁]) (Nat.le_of_eq (by rw [hw₁]))
      (Nat.le_of_eq (by rw [hw₁]))
    rcases exists_tie.1 hi with hi | rfl
    · exact Nat.le_of_lt (h.left.inst i hi)
    · exact Nat.le_refl _
  have hright : w₁'.Divided host mine (T.withInst w.nextInstance w'.nextInstance).right := by
    refine Divided.of_eq (h.right.counted
      (fun i hi => exists_tie'.trans (or_iff_left (Nat.ne_of_lt hi))) fun i hi => ?_)
      (by rw [hw₁']) (by rw [hw₁']) (by rw [hw₁']) (by rw [hw₁']) (Nat.le_of_eq (by rw [hw₁']))
      (Nat.le_of_eq (by rw [hw₁']))
    rcases exists_tie'.1 hi with hi | rfl
    · exact Nat.le_of_lt (h.right.inst i hi)
    · exact Nat.le_refl _
  obtain ⟨notes, hv⟩ := hv
  obtain ⟨notes', hv'⟩ := hv'
  rw [hv, hv']
  refine ⟨{ h.ties with inst := tie_biUnique h.ties.inst hnew hnew' },
    hleft.of_eq rfl rfl rfl rfl (Nat.le_refl _) (Nat.le_refl _),
    hright.of_eq rfl rfl rfl rfl (Nat.le_refl _) (Nat.le_refl _), ?_⟩
  rw [hw₁, hw₁']
  refine { h.alike with
    entries := fun hst n n' hn => (h.alike.entries hst n n' hn).grow hgrows
    components := fun i j hij =>
      rel_imp (fun _ _ hcd => hcd.grow hgrows) (h.alike.components i j hij)
    heard := fun t => (h.alike.heard t).imp fun _ _ hrq => hrq.grow hgrows
    states := ?_ }
  rintro i j (hij | ⟨rfl, rfl⟩)
  · have hi : i ≠ w.nextInstance := fun he => hnew j (by rwa [he] at hij)
    have hj : j ≠ w'.nextInstance := fun he => hnew' i (by rwa [he] at hij)
    rw [hs, hs', Function.update_of_ne hi, Function.update_of_ne hj]
    exact h.alike.states i j hij
  · rw [hs, hs', Function.update_self, Function.update_self]

/-- Lists of views get their identities. -/
theorem listed : Paired inner host mine (T.withList w.nextList w'.nextList)
    { w with nextList := w.nextList + 1 } { w' with nextList := w'.nextList + 1 } := by
  have hgrows := T.grows_withList w.nextList w'.nextList
  have hnew : ∀ j, ¬T.list w.nextList j := fun j hj => Nat.lt_irrefl _ (h.left.list _ ⟨j, hj⟩)
  have hnew' : ∀ i, ¬T.list i w'.nextList := fun i hi =>
    Nat.lt_irrefl _ (h.right.list _ ⟨i, hi⟩)
  refine ⟨{ h.ties with list := tie_biUnique h.ties.list hnew hnew' }, ?_, ?_, { h.alike with
    entries := fun hst n n' hn => (h.alike.entries hst n n' hn).grow hgrows
    components := fun i j hij =>
      rel_imp (fun _ _ hcd => hcd.grow hgrows) (h.alike.components i j hij)
    heard := fun t => (h.alike.heard t).imp fun _ _ hrq => hrq.grow hgrows }⟩
  · refine h.left.listed fun i hi => ?_
    rcases exists_tie.1 hi with hi | rfl
    · exact Nat.le_of_lt (h.left.list i hi)
    · exact Nat.le_refl _
  · refine h.right.listed fun i hi => ?_
    rcases exists_tie'.1 hi with hi | rfl
    · exact Nat.le_of_lt (h.right.list i hi)
    · exact Nat.le_refl _

/-- Alike entries are stored for nodes that are tied. -/
theorem stores {n n' : NodeId} (hn : T.node n n') (hst : HostId) {e e' : Entry}
    (he : e.Alike T e') :
    Paired inner host mine T (w.setCache hst ((w.cache hst).insert n e))
      (w'.setCache hst ((w'.cache hst).insert n' e')) where
  ties := h.ties
  left := h.left.stores fun i hi =>
    have hs := he.has.1 i hi
    ⟨h.left.inst i hs, iff_of_true hs ⟨n', hn⟩⟩
  right := h.right.stores fun i hi =>
    have hs := he.has.2 i hi
    ⟨h.right.inst i hs, iff_of_true hs ⟨n, hn⟩⟩
  alike := { h.alike with
    entries := fun hst' m m' hm => by
      have hiff : m = n ↔ m' = n' := by
        constructor
        · rintro rfl
          exact h.ties.node.2 hm hn
        · rintro rfl
          exact h.ties.node.1 hm hn
      rw [entry_setCache_insert, entry_setCache_insert]
      by_cases hc : hst' = hst ∧ m = n
      · rw [if_pos hc, if_pos ⟨hc.1, hiff.1 hc.2⟩]
        exact he
      · rw [if_neg hc, if_neg fun hc' => hc ⟨hc'.1, hiff.2 hc'.2⟩]
        exact h.alike.entries hst' m m' hm }

/-- What alike components are at the moment is alike. -/
theorem current {i j : ComponentId} (hij : T.component i j) {c d : Component}
    (hcd : c.Alike T d) : (w.current i c).Alike T (w'.current j d) := by
  have hcomp := h.alike.components i j hij
  rw [World.current, World.current, Dict.getD, Dict.getD]
  generalize w.components.get? i = o, w'.components.get? j = o' at hcomp
  cases hcomp with
  | some hab => exact hab
  | none => exact hcd

/-- Alike instances that are given the same do the same as they render. -/
theorem drawing_eq {x y : Instance} (hxy : x.Alike T y) {m m' : Option Model}
    (hm : Option.Rel (Model.Alike T) m m') (component : String) (attrs : Attrs) (pipe : Pipe)
    (yielded : Option Markup) :
    inner.drawing (inner.state w.memory) x ⟨component, attrs, m, pipe, yielded⟩ =
      inner.drawing (inner.state w'.memory) y ⟨component, attrs, m', pipe, yielded⟩ := by
  rw [Inner.drawing, Inner.drawing, hxy.factory, h.alike.states _ _ hxy.tied, Frame.anonymous,
    Frame.anonymous]
  cases hm with
  | none => rfl
  | some hmm =>
    simp only [Option.map_some, hmm.anonymous, h.alike.states _ _ hmm.inst.tied]

/-- Alike instances have rendered alike. -/
theorem drawn (hv : w.Noted v) (hv' : w'.Noted v') {x y : Instance} (hxy : x.Alike T y)
    {m m' : Option Model} (hm : Option.Rel (Model.Alike T) m m') {d : Drawing S}
    (hs : inner.state v.memory = d.leave (inner.state w.memory) x m)
    (hs' : inner.state v'.memory = d.leave (inner.state w'.memory) y m') :
    Paired inner host mine T v v' := by
  refine h.noted hv hv' fun i j hij => ?_
  have hiff : ∀ {k l : InstanceId}, T.inst k l → (i = k ↔ j = l) := fun hkl => by
    constructor
    · rintro rfl
      exact h.ties.inst.2 hij hkl
    · rintro rfl
      exact h.ties.inst.1 hij hkl
  have hmodel : (m.map fun m => m.inst.id) = some i ↔ (m'.map fun m => m.inst.id) = some j := by
    cases hm with
    | some hmm =>
      rw [Option.map_some, Option.map_some, Option.some.injEq, Option.some.injEq]
      exact eq_comm.trans ((hiff hmm.inst.tied).trans eq_comm)
    | none => exact iff_of_false nofun nofun
  rw [hs, hs', Drawing.leave, Drawing.leave]
  simp only [hiff hxy.tied, hmodel, h.alike.states i j hij]

end World.Paired

/-! ## Side by side -/

/-- Operations hold the same components, and the same is in use. -/
structure World.AsHeld (w v : World κ) : Prop where
  pins : v.pins = w.pins
  loans : v.loans = w.loans

theorem World.AsHeld.refl (w : World κ) : w.AsHeld w := ⟨rfl, rfl⟩

theorem World.AsHeld.trans {u : World κ} (h : w.AsHeld v) (h' : v.AsHeld u) : w.AsHeld u where
  pins := h'.pins.trans h.pins
  loans := h'.loans.trans h.loans

theorem World.AsHeld.noted (h : w.Noted v) : w.AsHeld v := by
  obtain ⟨notes, hv⟩ := h
  rw [hv]
  exact ⟨rfl, rfl⟩

theorem World.AsHeld.clear (h : w.AsHeld v) (hw : w.Clear) : v.Clear := hw.of_loans h.loans

open World

/-- Two actions end: the shares are alike where they end, perhaps with more that is tied, and `r`
relates what they give. -/
inductive Act.Abreast (inner : Inner κ S) (host : HostId → Host) (mine : Handle → Bool) (T : Ties)
    (r : Ties → α → β → Prop) (a : Act κ α) (b : Act κ β) (w w' : World κ) : Prop
  | intro {x : α} {y : β} {v v' : World κ} {U : Ties} (left : a.run w = .ok (x, v))
    (right : b.run w' = .ok (y, v')) (held : w.AsHeld v) (held' : w'.AsHeld v')
    (grows : T.Grows U) (paired : Paired inner host mine U v v') (related : r U x y)

namespace Act

theorem run_nodeOf (hw : w.Clear) (i : ComponentId) (c : Component) :
    (nodeOf i c).run w = .ok ((w.current i c).node, w) := by
  refine run_of_wp ?_
  rw [wp_nodeOf, if_neg (by simp [hw.node])]
  exact ⟨rfl, rfl⟩

theorem run_entryOf (hw : w.Clear) (h : HostId) (n : NodeId) :
    (entryOf h n).run w = .ok (w.entry h n, w) := by
  refine run_of_wp ?_
  rw [wp_entryOf, if_neg (by simp [hw.entries])]
  exact ⟨rfl, rfl⟩

theorem run_freshInstance (w : World κ) (factory : Factory) : (freshInstance factory).run w =
    .ok (⟨w.nextInstance, factory⟩, { w with nextInstance := w.nextInstance + 1 }) := rfl

theorem run_freshList (w : World κ) (views : List ResolvedView) : (freshList views).run w =
    .ok (⟨w.nextList, views⟩, { w with nextList := w.nextList + 1 }) := rfl

theorem run_lend {cell : Cell} {access : Access} (hw : w.conflicts cell access = false)
    {body : Act κ α} {x : α}
    (h : body.run { w with loans := (cell, access) :: w.loans } = .ok (x, v)) :
    (lend cell access body).run w = .ok (x, { v with loans := v.loans.tail }) := by
  refine run_of_wp ?_
  rw [wp_lend, if_neg (by simp [hw]), Wp, h]
  exact ⟨rfl, rfl⟩

theorem run_updateEntry (hw : w.Clear) (h : HostId) (n : NodeId) (f : Entry → Entry) :
    (updateEntry h n f).run w =
      .ok ((), w.setCache h ((w.cache h).insert n (f (w.entry h n)))) := by
  refine run_of_wp ?_
  rw [wp_updateEntry, if_neg (by simp [hw.entries])]
  exact ⟨rfl, rfl⟩

namespace Abreast

variable {r : Ties → γ → δ → Prop}

theorem pure {x : γ} {y : δ} (h : Paired inner host mine T w w') (hr : r T x y) :
    Abreast inner host mine T r (pure x) (pure y) w w' :=
  .intro rfl rfl (.refl w) (.refl w') (.refl T) h hr

/-- Both take a step that is known. -/
theorem step {a : Act κ α} {b : Act κ β} {f : α → Act κ γ} {g : β → Act κ δ} {x : α} {y : β}
    (ha : a.run w = .ok (x, v)) (hb : b.run w' = .ok (y, v')) (hv : w.AsHeld v)
    (hv' : w'.AsHeld v') (hgrows : T.Grows U)
    (h : Abreast inner host mine U r (f x) (g y) v v') :
    Abreast inner host mine T r (a >>= f) (b >>= g) w w' := by
  obtain ⟨hf, hg, hu, hu', hgrows', hpair, hrel⟩ := h
  exact .intro ((run_bind_of ha).trans hf) ((run_bind_of hb).trans hg) (hv.trans hu)
    (hv'.trans hu') (hgrows.trans hgrows') hpair hrel

/-- Both read, and nothing has changed. -/
theorem read {a : Act κ α} {b : Act κ β} {f : α → Act κ γ} {g : β → Act κ δ} {x : α} {y : β}
    (ha : a.run w = .ok (x, w)) (hb : b.run w' = .ok (y, w'))
    (h : Abreast inner host mine T r (f x) (g y) w w') :
    Abreast inner host mine T r (a >>= f) (b >>= g) w w' :=
  step ha hb (.refl w) (.refl w') (.refl T) h

/-- Both record something. -/
theorem record {o o' : Occurrence κ} {f : Unit → Act κ γ} {g : Unit → Act κ δ}
    (h : Paired inner host mine T w w')
    (hf : Paired inner host mine T { w with record := o :: w.record }
        { w' with record := o' :: w'.record } →
      Abreast inner host mine T r (f ()) (g ()) { w with record := o :: w.record }
        { w' with record := o' :: w'.record }) :
    Abreast inner host mine T r (Act.record o >>= f) (Act.record o' >>= g) w w' :=
  step rfl rfl ⟨rfl, rfl⟩ ⟨rfl, rfl⟩ (.refl T) (hf (h.recorded _ _))

theorem bind {r' : Ties → α → β → Prop} {a : Act κ α} {b : Act κ β} {f : α → Act κ γ}
    {g : β → Act κ δ} (h : Abreast inner host mine T r' a b w w')
    (hf : ∀ U x y v v', T.Grows U → Paired inner host mine U v v' → w.AsHeld v → w'.AsHeld v' →
      r' U x y → Abreast inner host mine U r (f x) (g y) v v') :
    Abreast inner host mine T r (a >>= f) (b >>= g) w w' := by
  obtain ⟨ha, hb, hv, hv', hgrows, hpair, hrel⟩ := h
  exact step ha hb hv hv' hgrows (hf _ _ _ _ _ hgrows hpair hv hv' hrel)

/-- Both run something while a part of the world is in use. -/
theorem lend {cell cell' : Cell} {access access' : Access}
    (hw : w.conflicts cell access = false) (hw' : w'.conflicts cell' access' = false)
    {a : Act κ γ} {b : Act κ δ}
    (h : Abreast inner host mine T r a b { w with loans := (cell, access) :: w.loans }
      { w' with loans := (cell', access') :: w'.loans }) :
    Abreast inner host mine T r (lend cell access a) (Act.lend cell' access' b) w w' := by
  obtain ⟨ha, hb, hv, hv', hgrows, hpair, hrel⟩ := h
  exact .intro (run_lend hw ha) (run_lend hw' hb)
    ⟨hv.pins, congrArg List.tail hv.loans⟩ ⟨hv'.pins, congrArg List.tail hv'.loans⟩ hgrows
    (hpair.lent _ _ _ _) hrel

end Abreast

end Act

namespace Setting

open Act

variable {user : Callbacks (Act κ)} {hst : HostId} {classes : ClassRegistry}

/-- Both ask a registry. -/
theorem abreast_load (hreg : (host hst).loader = .registry classes)
    (h : Paired inner host mine T w w') (path : String) :
    Abreast inner host mine T (fun _ => Eq) (load ⟨host, user⟩ hst path)
      (load ⟨host, user⟩ hst path) w w' := by
  unfold load ask
  rw [hreg]
  exact .record h fun h => .read rfl rfl (.record h fun h => .pure h rfl)

theorem abreast_classOf (hreg : (host hst).loader = .registry classes)
    (h : Paired inner host mine T w w') (path : String → String) (d : Declaration) :
    Abreast inner host mine T (fun _ => Eq) (classOf ⟨host, user⟩ hst path d)
      (classOf ⟨host, user⟩ hst path d) w w' := by
  cases d with
  | ofClass cls => exact .pure h rfl
  | ident name =>
    refine (abreast_load hreg h (path name)).bind fun U x y v v' _ hpair _ _ hxy => ?_
    obtain rfl := hxy
    cases x with
    | ok cls => exact .pure hpair rfl
    | error e => exact .pure hpair rfl

section

variable (hu : inner.Serves user)
include hu

theorem abreast_make (h : Paired inner host mine T w w') (capability : Capability)
    (factory : Factory) :
    Abreast inner host mine T Instance.Alike (make ⟨host, user⟩ capability factory)
      (make ⟨host, user⟩ capability factory) w w' := by
  obtain ⟨_, v, hr, hs, hv⟩ := (hu.make (fun _ => False) ⟨w.nextInstance, factory⟩
    { w with
      nextInstance := w.nextInstance + 1
      record := .made capability ⟨w.nextInstance, factory⟩ :: w.record }).run_eq
  obtain ⟨_, v', hr', hs', hv'⟩ := (hu.make (fun _ => False) ⟨w'.nextInstance, factory⟩
    { w' with
      nextInstance := w'.nextInstance + 1
      record := .made capability ⟨w'.nextInstance, factory⟩ :: w'.record }).run_eq
  unfold make
  refine .step (run_freshInstance w factory) (run_freshInstance w' factory) ⟨rfl, rfl⟩
    ⟨rfl, rfl⟩ (.refl T) ?_
  refine .step rfl rfl ⟨rfl, rfl⟩ ⟨rfl, rfl⟩ (.refl T) ?_
  refine .step (U := T.withInst w.nextInstance w'.nextInstance) hr hr' (.noted hv) (.noted hv')
    (T.grows_withInst _ _) (.pure ?_ ?_)
  · exact h.made rfl rfl hv hv' hs hs'
  · exact ⟨rfl, .inr ⟨rfl, rfl⟩⟩

theorem abreast_instantiate (h : Paired inner host mine T w w') (cls : Class)
    (capability : Capability) :
    Abreast inner host mine T (fun U => SameOutcome (Instance.Alike U))
      (instantiate ⟨host, user⟩ cls capability) (instantiate ⟨host, user⟩ cls capability) w w' := by
  unfold instantiate
  cases cls.factory capability with
  | error e => exact .pure h (.error e)
  | ok factory =>
    dsimp only
    rw [← bind_pure_comp]
    exact (abreast_make hu h capability factory).bind fun U x y v v' _ hpair _ _ hxy =>
      .pure hpair (.ok hxy)

theorem abreast_makeModel (h : Paired inner host mine T w w') (cls : Class) :
    Abreast inner host mine T (fun U => SameOutcome (Model.Alike U))
      (makeModel ⟨host, user⟩ cls) (makeModel ⟨host, user⟩ cls) w w' := by
  unfold makeModel
  cases cls.ensure .viewModel with
  | error e => exact .pure h (.error e)
  | ok _ =>
    have hran : ∀ u : World κ, (cls.buildModel.ran.forM fun owner =>
        Act.record (.defined owner)).run u =
          .ok ((), { u with record := (cls.buildModel.ran.map .defined).reverse ++ u.record }) :=
      fun u => run_of_wp ((wp_forM_record _ _).2 ⟨rfl, rfl⟩)
    refine .step (hran w) (hran w') ⟨rfl, rfl⟩ ⟨rfl, rfl⟩ (.refl T) ?_
    have hpair := h.recorded ((cls.buildModel.ran.map .defined).reverse ++ w.record)
      ((cls.buildModel.ran.map .defined).reverse ++ w'.record)
    cases cls.buildModel.result with
    | error e => exact .pure hpair (.error e)
    | ok name =>
      refine (abreast_instantiate hu hpair cls .viewModel).bind
        fun U x y v v' _ hpair _ _ hxy => ?_
      cases hxy with
      | error e => exact .pure hpair (.error e)
      | ok hxy => exact .pure hpair (.ok ⟨rfl, hxy⟩)

theorem abreast_resolveModel {c d : Component} (hreg : (host c.host).loader = .registry classes)
    (h : Paired inner host mine T w w') (hcd : c.Alike T d) :
    Abreast inner host mine T (fun U p q => SameOutcome (Model.Alike U) p.1 q.1 ∧ p.2 = q.2)
      (resolveModel ⟨host, user⟩ c) (resolveModel ⟨host, user⟩ d) w w' := by
  unfold resolveModel
  rw [← hcd.host, ← hcd.metadata]
  refine (abreast_classOf hreg h _ _).bind fun U x y v v' _ hpair _ _ hxy => ?_
  obtain rfl := hxy
  obtain ⟨found, paths⟩ := x
  cases found with
  | error e => exact .pure hpair ⟨.error e, rfl⟩
  | ok cls =>
    exact (abreast_makeModel hu hpair cls).bind fun U x y v v' _ hpair _ _ hxy =>
      .pure hpair ⟨hxy, rfl⟩

theorem abreast_resolveViews (hreg : (host hst).loader = .registry classes)
    (h : Paired inner host mine T w w') {m m' : Option Model}
    (hm : Option.Rel (Model.Alike T) m m') (ds : List Declaration) :
    Abreast inner host mine T (fun U p q =>
        SameOutcome (List.Forall₂ (ResolvedView.Alike U)) p.1 q.1 ∧ p.2 = q.2)
      (resolveViews ⟨host, user⟩ hst m ds) (resolveViews ⟨host, user⟩ hst m' ds) w w' := by
  induction ds generalizing T w w' with
  | nil => exact .pure h ⟨.ok .nil, rfl⟩
  | cons decl rest ih =>
    rw [resolveViews_cons, resolveViews_cons]
    refine (abreast_classOf hreg h _ decl).bind fun U₁ x y w₁ w₁' hgrows hpair _ _ hxy => ?_
    obtain rfl := hxy
    obtain ⟨found, paths⟩ := x
    cases found with
    | error e => exact .pure hpair ⟨.error e, rfl⟩
    | ok cls =>
      refine (abreast_instantiate hu hpair cls .view).bind
        fun U₂ x y w₂ w₂' hgrows' hpair _ _ hxy => ?_
      cases hxy with
      | error e => exact .pure hpair ⟨.error e, rfl⟩
      | @ok inst inst' hinst =>
        have hgrown := hgrows.trans hgrows'
        refine (ih hpair (rel_imp (fun _ _ hmm => hmm.grow hgrown) hm)).bind
          fun U₃ x y v v' hgrows'' hpair _ _ hxy => ?_
        obtain ⟨views, more⟩ := x
        obtain ⟨views', more'⟩ := y
        obtain ⟨hviews, rfl⟩ : SameOutcome _ views views' ∧ more = more' := hxy
        refine .pure hpair ⟨?_, rfl⟩
        cases hviews with
        | error e => exact .error e
        | ok hviews =>
          exact .ok (.cons ⟨rfl, hinst.grow hgrows'',
            rel_imp (fun _ _ hmm => hmm.grow (hgrown.trans hgrows'')) hm⟩ hviews)

theorem abreast_compose (h : Paired inner host mine T w w') (component : String) (attrs : Attrs)
    (pipe : Pipe) {views views' : List ResolvedView}
    (hviews : List.Forall₂ (ResolvedView.Alike T) views views') :
    Abreast inner host mine T (fun _ => Eq) (compose ⟨host, user⟩ component attrs pipe views)
      (compose ⟨host, user⟩ component attrs pipe views') w w' := by
  induction hviews with
  | nil => exact .pure h rfl
  | @cons x y rest rest' hxy hrest ih =>
    refine ih.bind fun U p q w₁ w₁' hgrows hpair _ _ hpq => ?_
    obtain rfl := hpq
    obtain ⟨yielded, pipe⟩ := p
    have hxy := hxy.grow hgrows
    unfold renderView
    refine .record hpair fun htold => ?_
    obtain ⟨_, v, hr, ⟨rfl, hs⟩, hv⟩ := (hu.render (fun _ => False) x.inst
      ⟨component, attrs, x.model, pipe, yielded⟩ { w₁ with record := _ }).run_eq
    obtain ⟨_, v', hr', ⟨rfl, hs'⟩, hv'⟩ := (hu.render (fun _ => False) y.inst
      ⟨component, attrs, y.model, pipe, yielded⟩ { w₁' with record := _ }).run_eq
    have hdraw := htold.drawing_eq hxy.inst hxy.model component attrs pipe yielded
    refine .intro hr hr' (.noted hv) (.noted hv') (.refl U)
      (htold.drawn hv hv' hxy.inst hxy.model hs (hdraw ▸ hs')) ?_
    rw [hdraw]

variable {i j : ComponentId} {c d : Component} (hreg : (host c.host).loader = .registry classes)
  (h : Paired inner host mine T w w') (hclear : w.Clear) (hclear' : w'.Clear)
  (hij : T.component i j) (hcd : c.Alike T d)
include hreg h hclear hclear' hij hcd

theorem abreast_modelWithSources :
    Abreast inner host mine T (fun U p q => SameOutcome (Model.Alike U) p.1 q.1 ∧ p.2 = q.2)
      (modelWithSources ⟨host, user⟩ i c) (modelWithSources ⟨host, user⟩ j d) w w' := by
  have hn : T.node (w.current i c).node.id (w'.current j d).node.id := (h.current hij hcd).node
  unfold modelWithSources
  refine .read (run_nodeOf hclear i c) (run_nodeOf hclear' j d) ?_
  refine .read (run_entryOf hclear _ _) (run_entryOf hclear' _ _) ?_
  rw [← hcd.host]
  generalize (w.current i c).node.id = n, (w'.current j d).node.id = n' at hn
  have hmodel := (h.alike.entries c.host n n' hn).model
  generalize (w.entry c.host n).model = o, (w'.entry c.host n').model = o' at hmodel
  cases hmodel with
  | some hmm => exact .record h fun h => .pure h ⟨.ok hmm, rfl⟩
  | none =>
    refine .record h fun h => (abreast_resolveModel hu hreg h hcd).bind
      fun U p q w₁ w₁' hgrows hpair hheld hheld' hpq => ?_
    obtain ⟨model, paths⟩ := p
    obtain ⟨model', paths'⟩ := q
    obtain ⟨hmodel, rfl⟩ : SameOutcome _ model model' ∧ paths = paths' := hpq
    cases hmodel with
    | error e => exact .record hpair fun h => .pure h ⟨.error e, rfl⟩
    | ok hmm =>
      have hn : U.node n n' := hgrows.node ▸ hn
      have hstored := hpair.stores hn c.host
        ((hpair.alike.entries c.host n n' hn).withModel hmm paths)
      refine .step (run_updateEntry (hheld.clear hclear) ..)
        (run_updateEntry (hheld'.clear hclear') ..) ⟨rfl, rfl⟩ ⟨rfl, rfl⟩ (.refl U) ?_
      exact .record hstored fun h => .record h fun h => .pure h ⟨.ok hmm, rfl⟩

/-- Both give view models that are alike. -/
theorem abreast_model :
    Abreast inner host mine T (fun U => SameOutcome (Model.Alike U))
      (model ⟨host, user⟩ i c) (model ⟨host, user⟩ j d) w w' :=
  (abreast_modelWithSources hu hreg h hclear hclear' hij hcd).bind
    fun _ _ _ _ _ _ hpair _ _ hpq => .pure hpair hpq.1

omit hij in
theorem abreast_views_resolve {n n' : NodeId} (hn : T.node n n') {m m' : Option Model}
    (hm : Option.Rel (Model.Alike T) m m') (paths : List String) :
    Abreast inner host mine T (fun U => SameOutcome (ViewList.Alike U))
      (views.resolve ⟨host, user⟩ c n m paths) (views.resolve ⟨host, user⟩ d n' m' paths) w w' := by
  unfold views.resolve
  rw [Component.declarations, Component.declarations, ← hcd.host, ← hcd.metadata]
  refine (abreast_resolveViews hu hreg h hm _).bind
    fun U p q w₁ w₁' hgrows hpair hheld hheld' hpq => ?_
  obtain ⟨resolved, more⟩ := p
  obtain ⟨resolved', more'⟩ := q
  obtain ⟨hviews, rfl⟩ : SameOutcome _ resolved resolved' ∧ more = more' := hpq
  cases hviews with
  | error e =>
    unfold views.fail
    rw [← hcd.host]
    exact .record hpair fun h => .pure h (.error e)
  | @ok list list' hviews =>
    have hgrows' := U.grows_withList w₁.nextList w₁'.nextList
    have hlisted := hpair.listed
    have hn : (U.withList w₁.nextList w₁'.nextList).node n n' := hgrows'.node ▸ hgrows.node ▸ hn
    have hlist : ViewList.Alike (U.withList w₁.nextList w₁'.nextList) ⟨w₁.nextList, list⟩
        ⟨w₁'.nextList, list'⟩ := ⟨.inr ⟨rfl, rfl⟩, hviews.imp fun _ _ hxy => hxy.grow hgrows'⟩
    have hstored := hlisted.stores hn c.host
      ((hlisted.alike.entries c.host n n' hn).withViews hlist (paths ++ more))
    refine .step (run_freshList w₁ list) (run_freshList w₁' list') ⟨rfl, rfl⟩ ⟨rfl, rfl⟩
      hgrows' ?_
    have hfree : World.Clear { w₁ with nextList := w₁.nextList + 1 } := hheld.clear hclear
    have hfree' : World.Clear { w₁' with nextList := w₁'.nextList + 1 } := hheld'.clear hclear'
    refine .step (run_updateEntry hfree ..) (run_updateEntry hfree' ..) ⟨rfl, rfl⟩
      ⟨rfl, rfl⟩ (.refl _) ?_
    exact .record hstored fun h => .record h fun h => .pure h (.ok hlist)

/-- Both give lists of views that are alike. -/
theorem abreast_views :
    Abreast inner host mine T (fun U => SameOutcome (ViewList.Alike U))
      (views ⟨host, user⟩ i c) (views ⟨host, user⟩ j d) w w' := by
  have hn : T.node (w.current i c).node.id (w'.current j d).node.id := (h.current hij hcd).node
  rw [views_eq, views_eq]
  refine .read (run_nodeOf hclear i c) (run_nodeOf hclear' j d) ?_
  refine .read (run_entryOf hclear _ _) (run_entryOf hclear' _ _) ?_
  have hviews := (h.alike.entries c.host _ _ hn).views
  rw [hcd.host] at hviews ⊢
  generalize (w.current i c).node.id = n, (w'.current j d).node.id = n' at hn hviews
  generalize (w.entry d.host n).views = o, (w'.entry d.host n').views = o' at hviews
  cases hviews with
  | some hll => exact .record h fun h => .pure h (.ok hll)
  | none =>
    refine .record h fun h => (abreast_modelWithSources hu hreg h hclear hclear' hij hcd).bind
      fun U p q w₁ w₁' hgrows hpair hheld hheld' hpq => ?_
    obtain ⟨model, paths⟩ := p
    obtain ⟨model', paths'⟩ := q
    obtain ⟨hmodel, rfl⟩ : SameOutcome _ model model' ∧ paths = paths' := hpq
    have hrest : ∀ {m m' : Option Model}, Option.Rel (Model.Alike U) m m' →
        Abreast inner host mine U (fun U => SameOutcome (ViewList.Alike U))
          (views.resolve ⟨host, user⟩ c n m paths) (views.resolve ⟨host, user⟩ d n' m' paths)
          w₁ w₁' := fun hm => abreast_views_resolve hu hreg hpair (hheld.clear hclear)
      (hheld'.clear hclear') (hcd.grow hgrows) (hgrows.node ▸ hn) hm paths
    cases hmodel with
    | ok hmm => exact hrest (.some hmm)
    | error e =>
      dsimp only
      split
      · exact hrest .none
      · unfold views.fail
        exact .record hpair fun h => .pure h (.error e)

/-- Both give the same output on the same pipe. -/
theorem abreast_render (pipe : Pipe) :
    Abreast inner host mine T (fun _ => Eq) (render ⟨host, user⟩ i c pipe)
      (render ⟨host, user⟩ j d pipe) w w' := by
  rw [render_eq, render_eq]
  refine (abreast_views hu hreg h hclear hclear' hij hcd).bind
    fun U p q w₁ w₁' hgrows hpair hheld hheld' hpq => ?_
  have hcd := hcd.grow hgrows
  have hij := hgrows.component i j hij
  cases hpq with
  | error e => exact .pure hpair rfl
  | @ok list list' hll =>
    have hempty : list.views.isEmpty = list'.views.isEmpty := by
      have hlength := hll.views.length_eq
      rw [Bool.eq_iff_iff, List.isEmpty_iff_length_eq_zero, List.isEmpty_iff_length_eq_zero,
        hlength]
    dsimp only
    unfold render.composeAll
    rw [hempty, hcd.host, hcd.metadata]
    split
    · split
      · exact .pure hpair rfl
      · exact .pure hpair rfl
    · -- the views are rendered while the node is in use
      refine .lend ((hheld.clear hclear).node i) ((hheld'.clear hclear').node j) ?_
      have hlent := hpair.lent ((.node i, .read) :: w₁.loans) ((.node j, .read) :: w₁'.loans)
        w₁.pins w₁'.pins
      refine .read rfl rfl ?_
      rw [(hlent.current hij hcd).attrs]
      exact (abreast_compose hu hlent _ _ pipe hll.views).bind
        fun U p q v v' _ hpair _ _ hpq => .pure hpair (by rw [hpq])

end

end Setting

end LayeredViews
