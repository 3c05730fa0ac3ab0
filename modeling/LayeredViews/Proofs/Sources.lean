import LayeredViews.Proofs.Coherence
import LayeredViews.Proofs.Loans

/-!
# The sources of what is stored

The sources of an entry are the paths that were passed to the loader for what the entry holds. This
is so as long as loaders and factories call no operations: then the loads between the beginning of a
resolution and its end are those of this resolution, also those of a view model that could not be
loaded. So reloading a path drops what was obtained from it, and nothing else.

* `Obtained`: something that is stored was resolved by way of a path; read off the record.
* `World.Consults`: what the steps of a resolution record about the loader.
* `Sourced`: the sources of every entry are the paths that what it holds was obtained from. All
  operations keep this where loaders and factories call none (`sourced_guarded`).
* `reload_source`: what follows for dropping the entries of a path where instances own nothing.
* `Gallery.replies_owning`: an instance that owns a component takes a further entry along.
-/

namespace LayeredViews

variable {κ : Client} {α : Type}

/-! ## What was obtained from a path -/

/-- The resolution that has stored `x`, which nothing has replaced since, passed a path to the
loader. -/
def Obtained (h : HostId) (n : NodeId) (x : Resolved) (p : String)
    (past : List (Occurrence κ)) : Prop :=
  ∃ since during before,
    past = since ++ .stored h n x :: (during ++ .resolving h n x.aspect :: before) ∧
    (∀ y, .stored h n y ∈ since → y.aspect ≠ x.aspect) ∧
    .resolving h n x.aspect ∉ during ∧ .loaded h p ∈ during

section

variable {h : HostId} {n : NodeId} {x : Resolved} {p : String} {past : List (Occurrence κ)}

/-- What is recorded later makes no difference, unless the same aspect is stored again. -/
theorem obtained_cons {o : Occurrence κ} (ho : ∀ y, o = .stored h n y → y.aspect ≠ x.aspect) :
    Obtained h n x p (o :: past) ↔ Obtained h n x p past := by
  constructor
  · rintro ⟨since, during, before, hr, hs, hd, hl⟩
    cases since with
    | nil =>
      obtain ⟨rfl, -⟩ := List.cons.inj hr
      exact absurd rfl (ho x rfl)
    | cons o' since =>
      obtain ⟨-, rfl⟩ := List.cons.inj hr
      exact ⟨since, during, before, rfl, fun y hy => hs y (List.mem_cons_of_mem _ hy), hd, hl⟩
  · rintro ⟨since, during, before, rfl, hs, hd, hl⟩
    refine ⟨o :: since, during, before, rfl, fun y hy => ?_, hd, hl⟩
    rcases List.mem_cons.1 hy with hy | hy
    · exact ho y hy.symm
    · exact hs y hy

theorem obtained_append {new : List (Occurrence κ)}
    (hnew : ∀ y, .stored h n y ∈ new → y.aspect ≠ x.aspect) :
    Obtained h n x p (new ++ past) ↔ Obtained h n x p past := by
  induction new with
  | nil => exact Iff.rfl
  | cons o new ih =>
    rw [List.cons_append, obtained_cons fun y hy => hnew y (hy ▸ List.mem_cons_self)]
    exact ih fun y hy => hnew y (List.mem_cons_of_mem _ hy)

/-- A list has one split at the first occurrence of something. -/
theorem split_unique {β : Type} {a : β} {l₁ l₂ r₁ r₂ : List β} (h₁ : a ∉ l₁) (h₂ : a ∉ l₂)
    (h : l₁ ++ a :: r₁ = l₂ ++ a :: r₂) : l₁ = l₂ := by
  induction l₁ generalizing l₂ with
  | nil =>
    cases l₂ with
    | nil => rfl
    | cons b l₂ => exact absurd (List.cons.inj h).1 fun he => h₂ (he ▸ List.mem_cons_self)
  | cons b l₁ ih =>
    cases l₂ with
    | nil => exact absurd (List.cons.inj h).1 fun he => h₁ (he ▸ List.mem_cons_self)
    | cons b' l₂ =>
      obtain ⟨rfl, hrest⟩ := List.cons.inj h
      rw [ih (fun hm => h₁ (List.mem_cons_of_mem _ hm))
        (fun hm => h₂ (List.mem_cons_of_mem _ hm)) hrest]

/-- What is stored at the end of a resolution was obtained from the paths that were loaded since its
beginning. -/
theorem obtained_stored {during before : List (Occurrence κ)}
    (hd : .resolving h n x.aspect ∉ during) :
    Obtained h n x p (.stored h n x :: (during ++ .resolving h n x.aspect :: before)) ↔
      .loaded h p ∈ during := by
  constructor
  · rintro ⟨since, during', before', hr, hs, hd', hl⟩
    cases since with
    | nil => rwa [split_unique hd hd' (List.cons.inj hr).2]
    | cons o since =>
      obtain ⟨rfl, -⟩ := List.cons.inj hr
      exact absurd rfl (hs x List.mem_cons_self)
  · exact fun hl => ⟨[], during, before, rfl, nofun, hd, hl⟩

end

/-! ## Consulting the loader -/

/-- The entries are left alone, and the paths that the loader of a host was asked for are
`paths`. -/
structure World.Consults (h : HostId) (paths : List String) (w w' : World κ) : Prop where
  calm : w.Calm w'
  loaded : ∀ new, w'.record = new ++ w.record → ∀ p, .loaded h p ∈ new ↔ p ∈ paths

namespace World.Consults

variable {h : HostId} {paths more : List String} {w w' w'' : World κ}

/-- The loader is not asked. -/
theorem of_record (hc : w.Calm w') (new : List (Occurrence κ)) (hr : w'.record = new ++ w.record)
    (hl : ∀ p, .loaded h p ∉ new) : w.Consults h [] w' where
  calm := hc
  loaded new' hr' p := by
    obtain rfl := List.append_cancel_right (hr'.symm.trans hr)
    simp [hl p]

/-- Nothing is recorded. -/
theorem of_calm (hc : w.Calm w') (hr : w'.record = w.record) : w.Consults h [] w' :=
  .of_record hc [] hr fun _ => List.not_mem_nil

theorem refl (w : World κ) : w.Consults h [] w := .of_calm (.of_eq rfl rfl rfl rfl rfl) rfl

theorem of_occurrence {o : Occurrence κ} (ho : o.Idle) (hl : ∀ p, o ≠ .loaded h p) :
    w.Consults h [] { w with record := o :: w.record } :=
  .of_record (.of_record [o] (by simpa using ho)) [o] rfl fun p hp =>
    hl p (List.mem_singleton.1 hp).symm

/-- The loader is asked for a path. -/
theorem asked (w : World κ) (p : String) :
    w.Consults h [p] { w with record := .loaded h p :: w.record } where
  calm := .of_record [.loaded h p] (by simp [Occurrence.Idle, Occurrence.Plain])
  loaded new hr p' := by
    have hnew : [.loaded h p] = new := List.append_cancel_right hr
    simp [← hnew]

theorem trans (hc : w.Consults h paths w') (hc' : w'.Consults h more w'') :
    w.Consults h (paths ++ more) w'' where
  calm := hc.calm.trans hc'.calm
  loaded new hr p := by
    obtain ⟨new₁, h₁, -⟩ := hc.calm.record
    obtain ⟨new₂, h₂, -⟩ := hc'.calm.record
    have hall : new ++ w.record = new₂ ++ new₁ ++ w.record := by
      rw [← hr, h₂, h₁, List.append_assoc]
    obtain rfl := List.append_cancel_right hall
    rw [List.mem_append, hc'.loaded new₂ h₂, hc.loaded new₁ h₁, List.mem_append, or_comm]

end World.Consults

/-- What is stored of an aspect is of this aspect. -/
theorem Entry.aspect_of_get? {e : Entry} {a : Aspect} {x : Resolved} (h : e.get? a = some x) :
    x.aspect = a := by
  cases a with
  | model =>
    obtain ⟨m, -, rfl⟩ := Option.map_eq_some_iff.1 h
    rfl
  | views =>
    obtain ⟨l, -, rfl⟩ := Option.map_eq_some_iff.1 h
    rfl

/-! ## The contracts -/

/-- The sources of the entries are the paths that what they hold was obtained from. -/
structure Sourced (w : World κ) : Prop extends Mirrored w where
  sources : ∀ h n p, p ∈ (w.entry h n).sources ↔
    ∃ a x, (w.entry h n).get? a = some x ∧ Obtained h n x p w.record

/-- The contract of code that may call operations. -/
def sourced : Contract κ where
  inv := Sourced
  step _ _ := True
  refl _ := trivial
  trans _ _ := trivial

/-- The contract of code that resolutions run: it does not ask the loader. -/
def answering : Contract κ where
  inv := Sourced
  step w w' := ∀ h, w.Consults h [] w'
  refl w _ := .refl w
  trans hc hc' h := (hc h).trans (hc' h)

namespace Sourced

variable {w w' : World κ}

/-- Entries that stay keep their sources, as long as nothing is stored. -/
theorem keep (hw : Sourced w) (hm : Mirrored w') (new : List (Occurrence κ))
    (hr : w'.record = new ++ w.record) (hnew : ∀ h n x, .stored h n x ∉ new)
    (he : ∀ h n, w'.entry h n = w.entry h n ∨ w'.entry h n = ∅) : Sourced w' where
  toMirrored := hm
  sources h n p := by
    rcases he h n with he | he
    · rw [he, hw.sources, hr]
      simp only [obtained_append fun y hy => absurd hy (hnew h n y)]
    · rw [he]
      simp only [Entry.get?_empty, reduceCtorEq, false_and, exists_false, iff_false]
      exact List.not_mem_nil

theorem calm (hw : Sourced w) (hc : w.Calm w') : Sourced w' := by
  obtain ⟨new, hr, hn⟩ := hc.record
  exact hw.keep (hw.toMirrored.calm hc) new hr (fun _ _ _ hx => hn _ hx) fun h n =>
    .inl (hc.entry h n)

/-- A note that stores nothing. -/
theorem note (hw : Sourced w) {o : Occurrence κ} (ho : ∀ h n x, o ≠ .stored h n x)
    (hstands : ∀ h n a, standing h n a (o :: w.record) = standing h n a w.record) :
    Sourced { w with record := o :: w.record } :=
  hw.keep (hw.toMirrored.note hstands) [o] rfl
    (fun h n x hx => ho h n x (List.mem_singleton.1 hx).symm) fun _ _ => .inl rfl

theorem discarded (hw : Sourced w) (h : HostId) (selection : Cache.Selection) (cause : Cause) :
    Sourced (w.discarded h selection cause) := by
  refine hw.keep (hw.toMirrored.discarded h selection cause) _ rfl (fun h' n x hx => ?_)
    fun h' n => ?_
  · simp at hx
  · rw [World.entry_discarded hw.tidy]
    split
    · exact .inr rfl
    · exact .inl rfl

/-- The end of a resolution, which has begun when nothing was stored of the aspect: `paths` are
those that the loader was asked for since. -/
theorem store (hw : Sourced w) {h : HostId} {n : NodeId} {x : Resolved} {paths : List String}
    {during before : List (Occurrence κ)}
    (hr : w.record = during ++ .resolving h n x.aspect :: before)
    (hd : .resolving h n x.aspect ∉ during) (hl : ∀ p, .loaded h p ∈ during ↔ p ∈ paths)
    (hnone : (w.entry h n).get? x.aspect = none) {f : Entry → Entry}
    (hf : ∀ e a, (f e).get? a = if a = x.aspect then some x else e.get? a)
    (hs : ∀ e p, p ∈ (f e).sources ↔ p ∈ e.sources ∨ p ∈ paths) :
    Sourced { w.setCache h ((w.cache h).insert n (f (w.entry h n))) with
      record := .stored h n x :: w.record } where
  toMirrored := hw.toMirrored.store h n x hf
  sources h' n' p := by
    have hentry := w.entry_setCache_insert h h' n n' (f (w.entry h n))
    change p ∈ ((w.setCache h _).entry h' n').sources ↔
      ∃ a y, ((w.setCache h _).entry h' n').get? a = some y ∧
        Obtained h' n' y p (.stored h n x :: w.record)
    rw [hentry]
    by_cases hhere : h' = h ∧ n' = n
    · obtain ⟨rfl, rfl⟩ := hhere
      rw [if_pos ⟨rfl, rfl⟩, hs, hw.sources, ← hl]
      have hx : Obtained h' n' x p (.stored h' n' x :: w.record) ↔ .loaded h' p ∈ during := by
        rw [hr]
        exact obtained_stored hd
      -- what is held of the other aspect is as it was
      have hother : ∀ a y, a ≠ x.aspect → (w.entry h' n').get? a = some y →
          (Obtained h' n' y p (.stored h' n' x :: w.record) ↔ Obtained h' n' y p w.record) := by
        intro a y ha hy
        refine obtained_cons fun z hz he => ha ?_
        cases hz
        exact (Entry.aspect_of_get? hy).symm.trans he.symm
      constructor
      · rintro (⟨a, y, hy, ho⟩ | hp)
        · have ha : a ≠ x.aspect := by
            rintro rfl
            cases hnone.symm.trans hy
          exact ⟨a, y, by rw [hf, if_neg ha, hy], (hother a y ha hy).2 ho⟩
        · exact ⟨x.aspect, x, by rw [hf, if_pos rfl], hx.2 hp⟩
      · rintro ⟨a, y, hy, ho⟩
        rw [hf] at hy
        by_cases ha : a = x.aspect
        · rw [if_pos ha] at hy
          cases hy
          exact .inr (hx.1 ho)
        · rw [if_neg ha] at hy
          exact .inl ⟨a, y, hy, (hother a y ha hy).1 ho⟩
    · have hother : ∀ y, Obtained h' n' y p (.stored h n x :: w.record) ↔
          Obtained h' n' y p w.record := fun y => obtained_cons fun z hz => by
        cases hz
        exact absurd ⟨rfl, rfl⟩ hhere
      rw [if_neg hhere, hw.sources]
      simp only [hother]

end Sourced

theorem sourced_calming : sourced.Calming (κ := κ) where
  calm hw h := ⟨hw.calm h, trivial⟩
  stops := Option.some_ne_none
  discard h selection cause w hw := by
    rw [Act.wp_discard]
    split
    · exact Option.some_ne_none _
    · exact ⟨hw.discarded h selection cause, trivial⟩

theorem answering_open : (answering (κ := κ)).Open where
  exhausted := Option.some_ne_none _
  memory {w} hw m :=
    have kept : w.Calm { w with memory := m } := .of_eq rfl rfl rfl rfl rfl
    ⟨hw.calm kept, fun _ => .of_calm kept rfl⟩
  note {w} hw n :=
    have noted : ∀ h, w.Consults h [] { w with record := .noted n :: w.record } :=
      fun _ => .of_occurrence trivial nofun
    ⟨hw.calm (noted 0).calm, noted⟩

/-! ## Resolutions -/

namespace Setting

variable {host : HostId → Host} {user : Callbacks (Act κ)}
  (hu : Contract.KeptByEach (sourced.fetchedBy answering) user) {w : World κ} (hw : Sourced w)
include hu hw

/-- Loading a path asks the loader for it, and does not ask for any other. -/
theorem load_consults (h : HostId) (path : String) :
    (load ⟨host, user⟩ h path).Wp (· ≠ none) (fun _ w' => w.Consults h [path] w') w := by
  have hask : answering.Kept (ask ⟨host, user⟩ (host h).loader path) := by
    unfold ask
    cases (host h).loader with
    | registry classes => exact .pure _
    | code key => exact hu.load key path
  have hasked := World.Consults.asked w path (h := h)
  unfold load
  rw [Act.wp_bind, Act.wp_record]
  refine (hask _ (hw.calm hasked.calm)).bind fun r w₁ ⟨_, hstep⟩ => ?_
  have hanswered : w₁.Consults h [] { w₁ with record := .answered h path r :: w₁.record } :=
    .of_occurrence trivial nofun
  exact (hasked.trans (hstep h)).trans hanswered

theorem classOf_consults (h : HostId) (path : String → String) (d : Declaration) :
    (classOf ⟨host, user⟩ h path d).Wp (· ≠ none) (fun r w' => w.Consults h r.2 w') w := by
  cases d with
  | ofClass cls => exact .refl w
  | ident s =>
    refine (load_consults hu hw h (path s)).bind fun r w' hr => ?_
    cases r with
    | ok cls => exact hr
    | error e => exact hr

theorem instantiate_consults (h : HostId) (cls : Class) (capability : Capability) :
    (instantiate ⟨host, user⟩ cls capability).Wp (· ≠ none) (fun _ w' => w.Consults h [] w') w := by
  unfold instantiate
  cases cls.factory capability with
  | error e => exact .refl w
  | ok factory =>
    have hcounted : w.Consults h [] { w with nextInstance := w.nextInstance + 1 } :=
      .of_calm (.counted w) rfl
    have hmade : w.Consults h [] { w with
        nextInstance := w.nextInstance + 1
        record := .made capability ⟨w.nextInstance, factory⟩ :: w.record } :=
      hcounted.trans (.of_occurrence trivial fun _ he => by cases he)
    unfold make
    simp only [Act.wp_map, Act.wp_bind, Act.wp_freshInstance, Act.wp_record, Act.wp_pure]
    exact (hu.make _ _ (hw.calm hmade.calm)).mono fun _ _ hend => hmade.trans (hend.2 h)

theorem makeModel_consults (h : HostId) (cls : Class) :
    (makeModel ⟨host, user⟩ cls).Wp (· ≠ none) (fun _ w' => w.Consults h [] w') w := by
  unfold makeModel
  cases cls.ensure .viewModel with
  | error e => exact .refl w
  | ok _ =>
    have hran : w.Consults h [] { w with
        record := (cls.buildModel.ran.map .defined).reverse ++ w.record } :=
      .of_record (.of_record _ (by simp [Occurrence.Idle, Occurrence.Plain])) _ rfl (by simp)
    dsimp only
    rw [Act.wp_bind, Act.wp_forM_record]
    cases cls.buildModel.result with
    | error e => exact hran
    | ok name =>
      refine (instantiate_consults hu (hw.calm hran.calm) h cls .viewModel).bind fun r w' hr => ?_
      cases r with
      | error e => exact hran.trans hr
      | ok inst => exact hran.trans hr

/-- Resolving a view model asks the loader for the paths that are given with the result. -/
theorem resolveModel_consults (c : Component) :
    (resolveModel ⟨host, user⟩ c).Wp (· ≠ none) (fun r w' => w.Consults c.host r.2 w') w := by
  refine (classOf_consults hu hw c.host _ _).bind fun ⟨found, paths⟩ w₁ hfound => ?_
  cases found with
  | error e => exact hfound
  | ok cls =>
    refine (makeModel_consults hu (hw.calm hfound.calm) c.host cls).bind fun model w₂ hmodel => ?_
    simpa using hfound.trans hmodel

/-- So does resolving views. -/
theorem resolveViews_consults (h : HostId) (model : Option Model) (ds : List Declaration) :
    (resolveViews ⟨host, user⟩ h model ds).Wp (· ≠ none) (fun r w' => w.Consults h r.2 w') w := by
  induction ds generalizing w with
  | nil => exact .refl w
  | cons d rest ih =>
    rw [resolveViews_cons]
    refine (classOf_consults hu hw h _ d).bind fun ⟨found, paths⟩ w₁ hfound => ?_
    have hw₁ := hw.calm hfound.calm
    cases found with
    | error e => exact hfound
    | ok cls =>
      refine (instantiate_consults hu hw₁ h cls .view).bind fun made w₂ hmade => ?_
      have hmade : w.Consults h paths w₂ := by simpa using hfound.trans hmade
      cases made with
      | error e => exact hmade
      | ok inst =>
        exact (ih (hw.calm hmade.calm)).bind fun ⟨views, more⟩ w₃ hviews => hmade.trans hviews

/-- Asking for the view model asks the loader for the paths that are given with the result, and
leaves the views alone. -/
theorem sourced_modelWithSources (id : ComponentId) (c : Component) :
    (modelWithSources ⟨host, user⟩ id c).Wp (· ≠ none) (fun r w' => Sourced w' ∧
      (∀ n, (w'.entry c.host n).views = (w.entry c.host n).views) ∧
      ∃ new, w'.record = new ++ w.record ∧ (∀ p, .loaded c.host p ∈ new ↔ p ∈ r.2) ∧
        ∀ n, .resolving c.host n .views ∉ new) w := by
  unfold modelWithSources
  rw [Act.wp_bind, Act.wp_nodeOf]
  split
  · exact Option.some_ne_none _
  rw [Act.wp_bind, Act.wp_entryOf]
  split
  · exact Option.some_ne_none _
  generalize (w.current id c).node.id = n
  cases hm : (w.entry c.host n).model with
  | some m =>
    exact ⟨hw.note nofun fun _ _ _ => rfl, fun _ => rfl, [.gave c.host n (.model m)], rfl,
      by simp, by simp⟩
  | none =>
    have hbegin : Sourced { w with record := .resolving c.host n .model :: w.record } :=
      hw.note nofun fun _ _ _ => rfl
    dsimp only
    rw [Act.wp_bind, Act.wp_record]
    refine (resolveModel_consults hu hbegin c).bind fun ⟨model, paths⟩ w₁ hconsults => ?_
    obtain ⟨during, hr, hidle⟩ := hconsults.calm.record
    have hl := hconsults.loaded during hr
    have hd : ∀ n a, .resolving c.host n a ∉ during := fun n a hmem => (hidle _ hmem : False)
    have hw₁ := hbegin.calm hconsults.calm
    have hentry : ∀ n, w₁.entry c.host n = w.entry c.host n := hconsults.calm.entry c.host
    cases model with
    | error e =>
      refine ⟨hw₁.note nofun fun _ _ _ => rfl, fun n => congrArg Entry.views (hentry n),
        .failed c.host n .model :: (during ++ [.resolving c.host n .model]), ?_, ?_, ?_⟩
      · simp [hr]
      · simpa using hl
      · simpa using fun n => hd n .views
    | ok m =>
      have hnone : (w₁.entry c.host n).get? .model = none := by
        rw [hentry, Entry.get?_model, hm]
        rfl
      have hstore := hw₁.store (x := .model m) hr (hd n .model) hl hnone
        (Entry.get?_withModel m paths) fun e p => Entry.mem_sources_consult
      dsimp only
      rw [Act.wp_bind, Act.wp_updateEntry]
      split
      · exact Option.some_ne_none _
      refine ⟨hstore.note nofun fun _ _ _ => rfl, fun n' => ?_,
        .gave c.host n (.model m) :: .stored c.host n (.model m) ::
          (during ++ [.resolving c.host n .model]), ?_, ?_, ?_⟩
      · refine (congrArg Entry.views (w₁.entry_setCache_insert c.host c.host n n' _)).trans ?_
        rw [← hentry n']
        split
        · next hhere => rw [hhere.2]; rfl
        · rfl
      · show _ :: _ :: w₁.record = _
        simp [hr]
      · simpa using hl
      · simpa using fun n => hd n .views

/-- Views are stored with all paths that the loader was asked for since their resolution began. -/
theorem sourced_views_resolve (c : Component) {n : NodeId} (model : Option Model)
    {paths : List String} {during before : List (Occurrence κ)}
    (hr : w.record = during ++ .resolving c.host n .views :: before)
    (hd : .resolving c.host n .views ∉ during) (hl : ∀ p, .loaded c.host p ∈ during ↔ p ∈ paths)
    (hnone : (w.entry c.host n).views = none) :
    sourced.KeptFrom w (views.resolve ⟨host, user⟩ c n model paths) := by
  refine (resolveViews_consults hu hw c.host model _).bind fun ⟨resolved, more⟩ w₁ hconsults => ?_
  have hw₁ := hw.calm hconsults.calm
  cases resolved with
  | error e => exact ⟨hw₁.note nofun fun _ _ _ => rfl, trivial⟩
  | ok list =>
    obtain ⟨new, hnew, hidle⟩ := hconsults.calm.record
    have hmore := hconsults.loaded new hnew
    have hlisted : w₁.Calm { w₁ with nextList := w₁.nextList + 1 } := .listed w₁
    have hbegan : w₁.record = (new ++ during) ++ .resolving c.host n .views :: before := by
      rw [hnew, hr, List.append_assoc]
    have hsame : .resolving c.host n .views ∉ new ++ during := fun hmem =>
      (List.mem_append.1 hmem).elim (fun hmem => (hidle _ hmem : False)) hd
    have hall : ∀ p, .loaded c.host p ∈ new ++ during ↔ p ∈ paths ++ more := fun p => by
      rw [List.mem_append, List.mem_append, hmore, hl, or_comm]
    have hstill : (w₁.entry c.host n).get? .views = none := by
      rw [hconsults.calm.entry, Entry.get?_views, hnone]
      rfl
    dsimp only
    rw [Act.wp_bind, Act.wp_freshList, Act.wp_bind, Act.wp_updateEntry]
    split
    · exact Option.some_ne_none _
    have hstore := (hw₁.calm hlisted).store (x := .views ⟨w₁.nextList, list⟩) hbegan hsame hall
      hstill (Entry.get?_withViews _ (paths ++ more)) fun e p => Entry.mem_sources_consult
    exact ⟨hstore.note nofun fun _ _ _ => rfl, trivial⟩

omit hw in
theorem sourced_views (id : ComponentId) (c : Component) :
    sourced.Kept (views ⟨host, user⟩ id c) := by
  intro w hw
  rw [views_eq]
  rw [Act.wp_bind, Act.wp_nodeOf]
  split
  · exact Option.some_ne_none _
  rw [Act.wp_bind, Act.wp_entryOf]
  split
  · exact Option.some_ne_none _
  generalize (w.current id c).node.id = n
  cases hnone : (w.entry c.host n).views with
  | some l => exact ⟨hw.note nofun fun _ _ _ => rfl, trivial⟩
  | none =>
    have hbegin : Sourced { w with record := .resolving c.host n .views :: w.record } :=
      hw.note nofun fun _ _ _ => rfl
    dsimp only
    rw [Act.wp_bind, Act.wp_record]
    refine (sourced_modelWithSources hu hbegin id c).bind
      fun ⟨model, paths⟩ w₁ ⟨hw₁, hviews, new, hr, hl, hd⟩ => ?_
    have hstill : (w₁.entry c.host n).views = none := (hviews n).trans hnone
    cases model with
    | ok m => exact sourced_views_resolve hu hw₁ c (some m) hr (hd n) hl hstill
    | error e =>
      dsimp only
      rw [Act.wp_ite]
      split
      · exact sourced_views_resolve hu hw₁ c none hr (hd n) hl hstill
      · exact ⟨hw₁.note nofun fun _ _ _ => rfl, trivial⟩

end Setting

/-- Where loaders and factories call no operations, all operations keep the contracts. -/
theorem sourced_guarded (host : HostId → Host) :
    Contract.Guarded (κ := κ) (sourced.fetchedBy answering) host fun who _ _ => who.Fetches := by
  refine sourced_calming.guarded answering_open
    (fun ha w hw => (ha w hw).mono fun _ _ h => ⟨h.1, trivial⟩) fun hu =>
      ⟨Setting.sourced_views hu, fun id c w hw => ?_, fun cls capability w hw => ?_⟩
  · exact (Setting.sourced_modelWithSources hu hw id c).bind fun _ _ h => ⟨h.1, trivial⟩
  · exact (Setting.instantiate_consults hu hw 0 cls capability).mono fun _ _ h =>
      ⟨hw.calm h.calm, trivial⟩

/-! ## Reloading a path -/

/-- The keys of a dictionary differ. -/
theorem Dict.Sorted.nodup_keys {ν : Type} {d : Dict Nat ν} (h : d.Sorted) : d.keys.Nodup :=
  List.Pairwise.map _ (fun _ _ hlt => Nat.ne_of_lt hlt) h

/-- A look-up finds what was stored before, unless it was selected. -/
theorem World.get?_discarded {w : World κ} (hw : w.Tidy) (h h' : HostId) (n : NodeId)
    (selection : Cache.Selection) (cause : Cause) :
    ((w.discarded h selection cause).cache h').get? n =
      if h' = h ∧ n ∈ ((w.cache h).reload selection).1 then none else (w.cache h').get? n := by
  change ((w.setCache h ((w.cache h).reload selection).2).cache h').get? n = _
  rw [cache_setCache]
  simp only [mem_reload hw]
  by_cases hh : h' = h
  · subst hh
    rw [if_pos rfl, Cache.reload, Dict.get?_filter (hw h')]
    cases (w.cache h').get? n with
    | none => simp
    | some e =>
      by_cases hs : selection.selects n e = true
      · simp [hs, Option.filter]
      · simp [hs, Option.filter]
  · rw [if_neg hh, if_neg fun hc => hh hc.1]

section

variable {w : World κ} (hl : ∀ l ∈ w.loans, OfNode l)
include hl

/-- Whatever instances own, the entries are dropped before anything that their instances own, and
their number is given. -/
theorem Act.reload_run_giveUp [Ownership κ] (h : HostId) (selection : Cache.Selection) :
    (Act.reload h selection).run w =
      ((fun _ => ((w.cache h).reload selection).1.length) <$>
        Act.giveUp ((w.cache h).instances selection)).run
          (w.discarded h selection (.reload selection)) := by
  have htaken : (Act.takeOut h selection (.reload selection)).run w =
      .ok ((((w.cache h).reload selection).1.length, (w.cache h).instances selection),
        w.discarded h selection (.reload selection)) := by
    refine Act.run_of_wp ?_
    rw [Act.wp_takeOut, free_entries hl, if_neg Bool.false_ne_true]
    exact ⟨rfl, rfl⟩
  unfold Act.reload Act.discard
  rw [Act.run_bind_of htaken]
  rfl

/-- Entries can be dropped while code runs. -/
theorem Act.reload_run (h : HostId) (selection : Cache.Selection) :
    (Act.reload h selection).run w =
      .ok (((w.cache h).reload selection).1.length,
        w.discarded h selection (.reload selection)) := by
  rw [Act.reload_run_giveUp hl, Act.giveUp_nothing]
  rfl

/-- Views that are stored are given. -/
theorem Setting.views_run (env : Setting κ) {id : ComponentId} {c : Component} {l : ViewList}
    (hstored : (w.entry c.host (w.current id c).node.id).views = some l) :
    (env.views id c).run w =
      .ok (.ok l, { w with
        record := .gave c.host (w.current id c).node.id (.views l) :: w.record }) := by
  refine Act.run_of_wp ?_
  rw [views_eq, Act.wp_bind, Act.wp_nodeOf, World.free_of_read hl, if_neg Bool.false_ne_true,
    Act.wp_bind, Act.wp_entryOf, free_entries hl, if_neg Bool.false_ne_true, hstored]
  exact ⟨rfl, rfl⟩

/-- A view model that is stored is given. -/
theorem Setting.model_run (env : Setting κ) {id : ComponentId} {c : Component} {m : Model}
    (hstored : (w.entry c.host (w.current id c).node.id).model = some m) :
    (env.model id c).run w =
      .ok (.ok m, { w with
        record := .gave c.host (w.current id c).node.id (.model m) :: w.record }) := by
  refine Act.run_of_wp ?_
  unfold model modelWithSources
  rw [Act.wp_bind, Act.wp_bind, Act.wp_nodeOf, World.free_of_read hl, if_neg Bool.false_ne_true,
    Act.wp_bind, Act.wp_entryOf, free_entries hl, if_neg Bool.false_ne_true, hstored]
  exact ⟨rfl, rfl⟩

end

/-- What the entry of a node holds was obtained from a path. -/
def World.Draws (w : World κ) (h : HostId) (n : NodeId) (p : String) : Prop :=
  ∃ a x, (w.entry h n).get? a = some x ∧ Obtained h n x p w.record

namespace Sourced

variable {w : World κ} (hw : Sourced w) {h : HostId} {p : String}
include hw

/-- The entries that are dropped for a path are those that were obtained from it. -/
theorem mem_reload {n : NodeId} :
    n ∈ ((w.cache h).reload (.source p)).1 ↔ w.Draws h n p := by
  rw [World.mem_reload hw.tidy, World.Draws, ← hw.sources]
  simp only [Cache.Selection.selects, List.contains_iff_mem]
  constructor
  · rintro ⟨e, he, hp⟩
    rwa [World.entry_of_get? he]
  · intro hp
    unfold World.entry Dict.getD at hp
    cases he : (w.cache h).get? n with
    | none =>
      rw [he] at hp
      cases hp
    | some e =>
      rw [he] at hp
      exact ⟨e, rfl, hp⟩

/-- Afterwards no entry was obtained from the path. -/
theorem not_draws_discarded (cause : Cause) (n : NodeId) :
    ¬(w.discarded h (.source p) cause).Draws h n p := by
  intro hdraws
  have hmem := ((hw.discarded h (.source p) cause).sources h n p).2 hdraws
  rw [World.entry_discarded hw.tidy] at hmem
  split at hmem
  · cases hmem
  · next hnot => exact hnot ⟨rfl, by simpa [Cache.Selection.selects] using hmem⟩

end Sourced

section

variable {app : Application κ} {prog : Program κ α} {targets : Dict TargetId EventTarget}
  {memory : κ.Memory} {v : World κ}
  (hv : app.ReachesWithout (fun who _ _ => who.Fetches) prog (World.start targets memory) v)
include hv

theorem sourced_of_reaches : Sourced v := by
  have hstart : Sourced (World.start targets memory : World κ) :=
    { (memoized_start targets memory).mirrored with
      sources := fun h n p => by
        show p ∈ ([] : List String) ↔ ∃ a x, (∅ : Entry).get? a = some x ∧ _
        simp }
  obtain ⟨who, hwho⟩ := (sourced_guarded app.host).inv_of_reaches
    (fun who => by cases who <;> exact fun h => h rfl) hstart hv
  cases who <;> exact hwho

omit hv in
/-- While code runs, nothing is in use but nodes that are read. -/
theorem loans_of_reaches {q : Caller → World κ → Op → Prop}
    (hv : app.ReachesWithout q prog (World.start targets memory) v) : ∀ l ∈ v.loans, OfNode l :=
  ((lending_sound app.host).guarded fun _ _ _ _ => trivial).inv_of_reaches_one (fun h => h rfl)
    (fun _ hl => by cases hl) hv

end

namespace Gallery

def picture : Class := Class.view 0 "Picture" ⟨0, "Picture"⟩

/-- The path of a picture that the loader finds. -/
def path : String := "views/components/loaded"

/-- A type whose only view has its name. -/
def loaded : ComponentType where
  own := { label := "Loaded", definer := some ⟨"Loaded", [⟨"name", [.text "loaded"]⟩]⟩ }

/-- A type whose only view is given as a class. -/
def given : ComponentType where
  own :=
    { label := "Given"
      definer := some ⟨"Given", [⟨"name", [.text "given"]⟩, ⟨"views", [.ofClass picture]⟩]⟩ }

def application : Application ⟨Unit, Empty⟩ where
  host _ := { loader := .registry ⟨.ofList [(path, picture)]⟩ }
  code := .idle

/-- Both types are resolved, each for a node of its own. -/
def program : Program ⟨Unit, Empty⟩ Unit :=
  .call (.create 0 loaded ⟨1, ∅⟩ ⟨0, "loaded"⟩) fun _ => .call (.views 0) fun _ =>
  .call (.create 0 given ⟨2, ∅⟩ ⟨0, "given"⟩) fun _ => .call (.views 1) fun _ => .done ()

theorem code_uses : application.code.UsesEach fun who _ => ¬who.Fetches :=
  ⟨fun _ _ => trivial, fun _ => trivial, fun _ _ => trivial, fun _ _ _ => trivial,
    fun _ _ => trivial⟩

theorem program_uses : program.Uses fun _ => ¬Caller.program.Fetches :=
  ⟨id, fun _ => ⟨id, fun _ => ⟨id, fun _ => ⟨id, fun _ => trivial⟩⟩⟩⟩

/-- The world after the program. -/
def hung : World ⟨Unit, Empty⟩ := application.worldAfter 1 program (World.start ∅ ())

theorem run_program : (application.exec 1 program).run (World.start ∅ ()) = .ok ((), hung) :=
  Application.run_eq_worldAfter (by decide +kernel)

/-- The number of entries that a reload of the path drops. -/
def dropped : Option Nat :=
  match (Act.reload 0 (.source path)).run hung with
  | .ok (k, _) => some k
  | .error _ => none

end Gallery

namespace Gallery

/-- The variable that the first instance owns. -/
def framed : Handle := ⟨0, "framed"⟩

/-- A picture that makes another component when it renders, and resolves its views. -/
def hanging : Application ⟨Unit, Empty⟩ where
  host := application.host
  code :=
    { Callbacks.idle with
      render := fun _ frame =>
        .call (.create 0 given ⟨2, ∅⟩ framed) fun _ => .call (.views 1) fun _ =>
          .done (none, frame.pipe) }

/-- How many entries a reload of the path drops, and the nodes that have an entry before and
after. -/
def replies : Program ⟨Unit, Empty⟩ (Nat × List NodeId × List NodeId) :=
  .call (.create 0 loaded ⟨1, ∅⟩ ⟨0, "loaded"⟩) fun _ => .call (.render 0 ∅) fun _ =>
  .look fun before => .call (.reload 0 (.source path)) fun count =>
  .look fun after => .done (count, (before.cache 0).keys, (after.cache 0).keys)

/-- What the program ends with, where the first instance owns some variables. -/
def repliesOwning (owned : List Handle) : Option (Nat × List NodeId × List NodeId) :=
  let ownership : Ownership ⟨Unit, Empty⟩ :=
    .ofHandles (fun inst => if inst.id = 1 then owned else []) 1
  match (@Application.exec _ ownership hanging 2 _ replies).run (World.start ∅ ()) with
  | .ok (r, _) => some r
  | .error _ => none

/-- One entry was obtained from the path. With its view goes what the view owns: a component whose
entry was not. -/
theorem replies_owning :
    repliesOwning [] = some (1, [1, 2], [2]) ∧ repliesOwning [framed] = some (1, [1, 2], []) := by
  decide +kernel

end Gallery

end LayeredViews
