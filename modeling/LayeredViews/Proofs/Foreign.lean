import LayeredViews.Proofs.Resolving
import LayeredViews.Proofs.Shares

/-!
# Resolving beside a share

A component that does not belong to a share is resolved and rendered without disturbing the share,
whatever its loader does.

* `World.Worked w v`: the world `v` came from `w` by such work.
* `World.Foreign`: an instance was made, and does not belong to the share. All that is made for
  other nodes is foreign.
* `Setting.wp_views_beside`, `Setting.wp_render_beside`: the operations.
-/

namespace LayeredViews

variable {κ : Client} {S : Type} {inner : Inner κ S} {host : HostId → Host}
  {mine : Handle → Bool} {s : Share} {w v u : World κ}

namespace World

/-- An instance that was made, and does not belong to the share. -/
def Foreign (s : Share) (w : World κ) (i : InstanceId) : Prop := i < w.nextInstance ∧ ¬s.inst i

/-- The world came from a divided one by work on the other side, which may have made instances. -/
structure Worked (inner : Inner κ S) (host : HostId → Host) (mine : Handle → Bool) (s : Share)
    (w v : World κ) : Prop extends w.Beside inner host mine s v where
  next : w.nextInstance ≤ v.nextInstance

namespace Worked

theorem refl (hw : w.Divided host mine s) : w.Worked inner host mine s w :=
  ⟨.refl hw, Nat.le_refl _⟩

theorem trans (h : w.Worked inner host mine s v) (h' : v.Worked inner host mine s u) :
    w.Worked inner host mine s u where
  toBeside := h.toBeside.trans h'.toBeside
  next := Nat.le_trans h.next h'.next

theorem recorded (hw : w.Divided host mine s) (record : List (Occurrence κ)) :
    w.Worked inner host mine s { w with record } :=
  ⟨.of_eq hw rfl rfl rfl rfl rfl (Nat.le_refl _) (Nat.le_refl _) rfl fun _ _ => rfl,
    Nat.le_refl _⟩

/-- Code was run that leaves the states of the share. -/
theorem noted (hw : w.Divided host mine s) (h : w.Noted v)
    (hs : ∀ i, s.inst i → inner.state v.memory i = inner.state w.memory i) :
    w.Worked inner host mine s v := by
  obtain ⟨notes, hv⟩ := h
  rw [hv]
  exact ⟨.of_eq hw rfl rfl rfl rfl rfl (Nat.le_refl _) (Nat.le_refl _) rfl hs, Nat.le_refl _⟩

/-- An entry is stored for a node of the other side. -/
theorem stores (hw : w.Divided host mine s) {h : HostId} {n : NodeId} (hn : ¬s.node n) {e : Entry}
    (he : ∀ i, e.Has i → w.Foreign s i) :
    w.Worked inner host mine s (w.setCache h ((w.cache h).insert n e)) :=
  ⟨⟨.stores hn h e, hw.stores fun i hi => ⟨(he i hi).1, iff_of_false (he i hi).2 hn⟩, rfl⟩,
    Nat.le_refl _⟩

theorem foreign (h : w.Worked inner host mine s v) {i : InstanceId} (hi : w.Foreign s i) :
    v.Foreign s i := ⟨Nat.lt_of_lt_of_le hi.1 h.next, hi.2⟩

theorem clear (h : w.Worked inner host mine s v) (hw : w.Clear) : v.Clear := hw.of_loans h.loans

end Worked

/-- What is stored for a node of the other side is foreign. -/
theorem Divided.foreign (hw : w.Divided host mine s) {h : HostId} {n : NodeId} (hn : ¬s.node n)
    {i : InstanceId} (hi : (w.entry h n).Has i) : w.Foreign s i := by
  obtain ⟨hlt, hiff⟩ := hw.stored h n i hi
  exact ⟨hlt, fun hs => hn (hiff.1 hs)⟩

end World

open World

namespace Setting

variable {user : Callbacks (Act κ)} (hu : inner.Serves user) (E : Option Halt → Prop)
include hu

theorem wp_load_beside (hw : w.Divided host mine s) (h : HostId) (path : String) :
    (load ⟨host, user⟩ h path).Wp E (fun _ v => w.Worked inner host mine s v) w := by
  unfold load ask
  rw [Act.wp_bind, Act.wp_record]
  have asked : w.Worked inner host mine s { w with record := .loaded h path :: w.record } :=
    .recorded hw _
  cases (host h).loader with
  | registry classes => exact asked.trans (.recorded asked.divided _)
  | code key =>
    refine (hu.load E key path _).bind fun r v ⟨hs, hnoted⟩ => ?_
    have loaded := asked.trans (.noted asked.divided hnoted fun i _ => congrFun hs i)
    exact loaded.trans (.recorded loaded.divided _)

theorem wp_classOf_beside (hw : w.Divided host mine s) (h : HostId) (path : String → String)
    (d : Declaration) :
    (classOf ⟨host, user⟩ h path d).Wp E (fun _ v => w.Worked inner host mine s v) w := by
  cases d with
  | ofClass cls => exact .refl hw
  | ident name =>
    refine (wp_load_beside hu E hw h (path name)).bind fun r v hv => ?_
    cases r with
    | ok cls => exact hv
    | error e => exact hv

theorem wp_make_beside (hw : w.Divided host mine s) (capability : Capability) (factory : Factory) :
    (make ⟨host, user⟩ capability factory).Wp E
      (fun x v => w.Worked inner host mine s v ∧ v.Foreign s x.id) w := by
  have hnew : ¬s.inst w.nextInstance := fun h => Nat.lt_irrefl _ (hw.inst _ h)
  have counted : w.Worked inner host mine s { w with nextInstance := w.nextInstance + 1 } :=
    ⟨.of_eq hw rfl rfl rfl rfl rfl (Nat.le_succ _) (Nat.le_refl _) rfl fun _ _ => rfl,
      Nat.le_succ _⟩
  have hforeign : Foreign s { w with nextInstance := w.nextInstance + 1 } w.nextInstance :=
    ⟨Nat.lt_succ_self _, hnew⟩
  unfold make
  rw [Act.wp_bind, Act.wp_freshInstance, Act.wp_bind, Act.wp_record]
  have made : World.Worked inner host mine s { w with nextInstance := w.nextInstance + 1 } _ :=
    .recorded counted.divided (.made capability ⟨w.nextInstance, factory⟩ :: w.record)
  refine (hu.make E _ _).bind fun _ v ⟨hs, hnoted⟩ => ?_
  have run := made.trans (.noted made.divided hnoted fun i hi => by
    rw [hs, Function.update_of_ne]
    rintro rfl
    exact hnew hi)
  exact ⟨counted.trans run, run.foreign hforeign⟩

theorem wp_instantiate_beside (hw : w.Divided host mine s) (cls : Class)
    (capability : Capability) :
    (instantiate ⟨host, user⟩ cls capability).Wp E (fun r v =>
      w.Worked inner host mine s v ∧ ∀ x, r = .ok x → v.Foreign s x.id) w := by
  unfold instantiate
  cases cls.factory capability with
  | error e => exact ⟨.refl hw, fun _ h => by cases h⟩
  | ok factory =>
    rw [Act.wp_map]
    refine (wp_make_beside hu E hw capability factory).mono fun x v ⟨hv, hx⟩ => ⟨hv, ?_⟩
    rintro y ⟨⟩
    exact hx

theorem wp_makeModel_beside (hw : w.Divided host mine s) (cls : Class) :
    (makeModel ⟨host, user⟩ cls).Wp E (fun r v =>
      w.Worked inner host mine s v ∧ ∀ m, r = .ok m → v.Foreign s m.inst.id) w := by
  unfold makeModel
  cases cls.ensure .viewModel with
  | error e => exact ⟨.refl hw, fun _ h => by cases h⟩
  | ok _ =>
    dsimp only
    rw [Act.wp_bind, Act.wp_forM_record]
    have ran : w.Worked inner host mine s
        { w with record := (cls.buildModel.ran.map .defined).reverse ++ w.record } :=
      .recorded hw _
    cases cls.buildModel.result with
    | error e => exact ⟨ran, fun _ h => by cases h⟩
    | ok name =>
      refine (wp_instantiate_beside hu E ran.divided cls .viewModel).bind
        fun made v ⟨hv, hmade⟩ => ?_
      cases made with
      | error e => exact ⟨ran.trans hv, fun _ h => by cases h⟩
      | ok inst =>
        refine ⟨ran.trans hv, ?_⟩
        rintro m ⟨⟩
        exact hmade inst rfl

theorem wp_resolveModel_beside (hw : w.Divided host mine s) (c : Component) :
    (resolveModel ⟨host, user⟩ c).Wp E (fun r v =>
      w.Worked inner host mine s v ∧ ∀ m, r.1 = .ok m → v.Foreign s m.inst.id) w := by
  refine (wp_classOf_beside hu E hw c.host _ _).bind fun ⟨found, paths⟩ w₁ hw₁ => ?_
  cases found with
  | error e => exact ⟨hw₁, fun _ h => by cases h⟩
  | ok cls =>
    exact (wp_makeModel_beside hu E hw₁.divided cls).bind fun model v ⟨hv, hm⟩ =>
      ⟨hw₁.trans hv, hm⟩

theorem wp_resolveViews_beside (hw : w.Divided host mine s) (h : HostId) (model : Option Model)
    (hmodel : ∀ m, model = some m → w.Foreign s m.inst.id) (ds : List Declaration) :
    (resolveViews ⟨host, user⟩ h model ds).Wp E (fun r v =>
      w.Worked inner host mine s v ∧ ∀ views, r.1 = .ok views → ∀ x ∈ views,
        v.Foreign s x.inst.id ∧ ∀ m, x.model = some m → v.Foreign s m.inst.id) w := by
  induction ds generalizing w with
  | nil =>
    refine ⟨.refl hw, ?_⟩
    rintro views ⟨⟩ x hx
    cases hx
  | cons d rest ih =>
    rw [resolveViews_cons]
    refine (wp_classOf_beside hu E hw h _ d).bind fun ⟨found, paths⟩ w₁ hw₁ => ?_
    cases found with
    | error e => exact ⟨hw₁, fun _ h => by cases h⟩
    | ok cls =>
      refine (wp_instantiate_beside hu E hw₁.divided cls .view).bind fun made w₂ ⟨hw₂, hmade⟩ => ?_
      have hstep := hw₁.trans hw₂
      cases made with
      | error e => exact ⟨hstep, fun _ h => by cases h⟩
      | ok inst =>
        refine (ih hstep.divided fun m hm => hstep.foreign (hmodel m hm)).bind
          fun ⟨views, more⟩ v ⟨hv, hviews⟩ => ⟨hstep.trans hv, ?_⟩
        cases views with
        | error e => exact fun _ h => by cases h
        | ok l =>
          rintro views ⟨⟩ x hx
          rcases List.mem_cons.1 hx with rfl | hx
          · exact ⟨hv.foreign (hmade inst rfl), fun m hm => (hstep.trans hv).foreign (hmodel m hm)⟩
          · exact hviews l rfl x hx

theorem wp_compose_beside (hw : w.Divided host mine s) (component : String) (attrs : Attrs)
    (pipe : Pipe) (views : List ResolvedView)
    (hviews : ∀ x ∈ views, ¬s.inst x.inst.id ∧ ∀ m, x.model = some m → ¬s.inst m.inst.id) :
    (compose ⟨host, user⟩ component attrs pipe views).Wp E
      (fun _ v => w.Worked inner host mine s v) w := by
  induction views with
  | nil => exact .refl hw
  | cons x rest ih =>
    refine (ih fun y hy => hviews y (List.mem_cons_of_mem _ hy)).bind
      fun ⟨yielded, pipe⟩ w₁ hw₁ => ?_
    obtain ⟨hx, hm⟩ := hviews x List.mem_cons_self
    unfold renderView
    rw [Act.wp_bind, Act.wp_record]
    have told := hw₁.trans (.recorded hw₁.divided
      (.rendered x.inst ⟨component, attrs, x.model, pipe, yielded⟩ :: w₁.record))
    refine (hu.render E x.inst _ _).mono fun r v ⟨⟨_, hs⟩, hnoted⟩ => ?_
    refine told.trans (.noted told.divided hnoted fun i hi => ?_)
    rw [hs]
    exact Drawing.leave_of_ne (fun he => hx (he ▸ hi)) fun m hmodel he => hm m hmodel (he ▸ hi)

variable {id : ComponentId} {c : Component} (hclear : w.Clear) (hw : w.Divided host mine s)
  (hn : ¬s.node (w.current id c).node.id)
include hclear hw hn

theorem wp_modelWithSources_beside :
    (modelWithSources ⟨host, user⟩ id c).Wp E (fun r v =>
      w.Worked inner host mine s v ∧ ∀ m, r.1 = .ok m → v.Foreign s m.inst.id) w := by
  unfold modelWithSources
  rw [Act.wp_bind, Act.wp_nodeOf, if_neg (by simp [hclear.node]), Act.wp_bind, Act.wp_entryOf,
    if_neg (by simp [hclear.entries])]
  generalize (w.current id c).node.id = n at hn ⊢
  cases hm : (w.entry c.host n).model with
  | some m =>
    refine ⟨.recorded hw _, ?_⟩
    rintro m' ⟨⟩
    exact hw.foreign hn (Entry.has_model hm)
  | none =>
    dsimp only
    rw [Act.wp_bind, Act.wp_record]
    have begun : w.Worked inner host mine s
        { w with record := .resolving c.host n .model :: w.record } := .recorded hw _
    refine (wp_resolveModel_beside hu E begun.divided c).bind
      fun ⟨model, paths⟩ w₁ ⟨hw₁, hmodel⟩ => ?_
    have hstep := begun.trans hw₁
    cases model with
    | error e => exact ⟨hstep.trans (.recorded hstep.divided _), fun _ h => by cases h⟩
    | ok m =>
      have hforeign := hmodel m rfl
      rw [Act.wp_bind, Act.wp_updateEntry, if_neg (by simp [(hstep.clear hclear).entries])]
      have stored := hstep.trans (.stores (h := c.host) (e := (w₁.entry c.host n).withModel m paths)
        hstep.divided hn fun i hi => by
        rcases Entry.has_withModel hi with rfl | hi
        · exact hforeign
        · exact hstep.divided.foreign hn hi)
      refine ⟨stored.trans (.recorded stored.divided _), ?_⟩
      rintro m' ⟨⟩
      exact hforeign

omit hn in
theorem wp_views_resolve_beside {n : NodeId} (hn : ¬s.node n) (model : Option Model)
    (paths : List String) (hmodel : ∀ m, model = some m → w.Foreign s m.inst.id) :
    (views.resolve ⟨host, user⟩ c n model paths).Wp E (fun r v =>
      w.Worked inner host mine s v ∧ ∀ l, r = .ok l → ∀ x ∈ l.views,
        v.Foreign s x.inst.id ∧ ∀ m, x.model = some m → v.Foreign s m.inst.id) w := by
  refine (wp_resolveViews_beside hu E hw c.host model hmodel _).bind
    fun ⟨resolved, more⟩ w₁ ⟨hw₁, hviews⟩ => ?_
  cases resolved with
  | error e => exact ⟨hw₁.trans (.recorded hw₁.divided _), fun _ h => by cases h⟩
  | ok list =>
    have hlist := hviews list rfl
    have listed : w.Worked inner host mine s { w₁ with nextList := w₁.nextList + 1 } :=
      hw₁.trans ⟨.of_eq hw₁.divided rfl rfl rfl rfl rfl (Nat.le_refl _) (Nat.le_succ _) rfl
        fun _ _ => rfl, Nat.le_refl _⟩
    dsimp only
    rw [Act.wp_bind, Act.wp_freshList, Act.wp_bind, Act.wp_updateEntry,
      if_neg (by simp [(listed.clear hclear).entries])]
    have stored := listed.trans (.stores (h := c.host)
      (e := (w₁.entry c.host n).withViews ⟨w₁.nextList, list⟩ (paths ++ more))
      listed.divided hn fun i hi => by
        rcases Entry.has_withViews hi with hi | hi
        · obtain ⟨x, hx, hcase⟩ := Resolved.mem_instances_views.1 hi
          rcases hcase with rfl | ⟨m, hm, rfl⟩
          · exact (hlist x hx).1
          · exact (hlist x hx).2 m hm
        · exact hw₁.divided.foreign hn hi)
    refine ⟨stored.trans (.recorded stored.divided _), ?_⟩
    rintro l ⟨⟩
    exact hlist

theorem wp_views_beside :
    (views ⟨host, user⟩ id c).Wp E (fun r v =>
      w.Worked inner host mine s v ∧ ∀ l, r = .ok l → ∀ x ∈ l.views,
        v.Foreign s x.inst.id ∧ ∀ m, x.model = some m → v.Foreign s m.inst.id) w := by
  rw [views_eq]
  rw [Act.wp_bind, Act.wp_nodeOf, if_neg (by simp [hclear.node]), Act.wp_bind, Act.wp_entryOf,
    if_neg (by simp [hclear.entries])]
  cases hl : (w.entry c.host (w.current id c).node.id).views with
  | some l =>
    refine ⟨.recorded hw _, ?_⟩
    rintro l' ⟨⟩ x hx
    have has : ∀ i, (i = x.inst.id ∨ ∃ m, x.model = some m ∧ i = m.inst.id) → w.Foreign s i :=
      fun i hi => hw.foreign hn (Entry.has_views hl (Resolved.mem_instances_views.2 ⟨x, hx, hi⟩))
    exact ⟨has _ (.inl rfl), fun m hm => has _ (.inr ⟨m, hm, rfl⟩)⟩
  | none =>
    dsimp only
    rw [Act.wp_bind, Act.wp_record]
    have begun : w.Worked inner host mine s
        { w with record := .resolving c.host (w.current id c).node.id .views :: w.record } :=
      .recorded hw _
    refine (wp_modelWithSources_beside hu E (begun.clear hclear) begun.divided hn).bind
      fun ⟨model, paths⟩ w₁ ⟨hw₁, hmodel⟩ => ?_
    have hstep := begun.trans hw₁
    have hrest : ∀ model' : Option Model, (∀ m, model' = some m → w₁.Foreign s m.inst.id) →
        (views.resolve ⟨host, user⟩ c (w.current id c).node.id model' paths).Wp E (fun r v =>
          w.Worked inner host mine s v ∧ ∀ l, r = .ok l → ∀ x ∈ l.views,
            v.Foreign s x.inst.id ∧ ∀ m, x.model = some m → v.Foreign s m.inst.id) w₁ :=
      fun model' hm' => (wp_views_resolve_beside hu E (hstep.clear hclear) hstep.divided hn
        model' paths hm').mono fun _ _ ⟨hv, hl⟩ => ⟨hstep.trans hv, hl⟩
    cases model with
    | ok m =>
      refine hrest (some m) ?_
      rintro m' ⟨⟩
      exact hmodel m rfl
    | error e =>
      dsimp only
      rw [Act.wp_ite]
      split
      · exact hrest none fun _ h => by cases h
      · exact ⟨hstep.trans (.recorded hstep.divided _), fun _ h => by cases h⟩

theorem wp_render_beside (pipe : Pipe) :
    (render ⟨host, user⟩ id c pipe).Wp E (fun _ v => w.Worked inner host mine s v) w := by
  rw [render_eq]
  refine (wp_views_beside hu E hclear hw hn).bind fun found w₁ ⟨hw₁, hviews⟩ => ?_
  cases found with
  | error e => exact hw₁
  | ok list =>
    have hlist := hviews list rfl
    unfold render.composeAll
    by_cases hempty : list.views.isEmpty = true
    · simp only [hempty, if_true]
      split
      · exact hw₁
      · exact hw₁
    · simp only [hempty]
      rw [if_neg Bool.false_ne_true, Act.wp_lend, if_neg (by simp [(hw₁.clear hclear).node]),
        Act.wp_bind, Act.wp_get]
      have lent : Divided host mine s { w₁ with loans := (.node id, .read) :: w₁.loans } :=
        hw₁.divided.of_eq rfl rfl rfl rfl (Nat.le_refl _) (Nat.le_refl _)
      refine (wp_compose_beside hu E lent _ _ pipe list.views fun x hx =>
        ⟨(hlist x hx).1.2, fun m hm => ((hlist x hx).2 m hm).2⟩).bind fun ⟨output, pipe'⟩ v hv => ?_
      have back : w₁.Worked inner host mine s { v with loans := v.loans.tail } :=
        ⟨⟨{ hv.toUndisturbed with },
          hv.divided.of_eq rfl rfl rfl rfl (Nat.le_refl _) (Nat.le_refl _),
          congrArg List.tail hv.loans⟩, hv.next⟩
      exact hw₁.trans back

end Setting

end LayeredViews
