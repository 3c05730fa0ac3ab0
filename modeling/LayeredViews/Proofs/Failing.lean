import LayeredViews.Proofs.Undisturbed

/-!
# Resolutions that fail

A resolution stores at two points and may fail between them. What it leaves is a whole view model or
nothing, and the next attempt fails in the same way.

* `World.Gained`: what a failure leaves of the entries.
* `Component.Course.gained_iff`: when the node has gained a view model.
* `Component.Course.answeredBy`: a registry answers the same each time.
* `failures_keep_entries`: what failures do in a world that a run comes to, and what happens at the
  next attempt.
-/

namespace LayeredViews

variable {κ : Client} {α : Type}

/-- Entries are as before, except that node `n` may have gained a view model by way of `paths`. -/
structure World.Gained (h : HostId) (n : NodeId) (paths : List String) (gained : Option Model)
    (w w' : World κ) : Prop where
  /-- No entry was removed. -/
  kept : ∀ h' n', n' ∈ (w.cache h').keys → n' ∈ (w'.cache h').keys
  views : ∀ h' n', (w'.entry h' n').views = (w.entry h' n').views
  others : ∀ h' n', ¬(h' = h ∧ n' = n) → (w'.cache h').get? n' = (w.cache h').get? n'
  own : ∀ m, gained = some m →
    (w'.cache h).get? n = some ((w.entry h n).withModel m paths)
  /-- Nothing at all is different if it has not. -/
  unchanged : gained = none → w'.caches = w.caches

theorem World.get?_setCache_insert (w : World κ) (h h' : HostId) (n n' : NodeId) (e : Entry) :
    ((w.setCache h ((w.cache h).insert n e)).cache h').get? n' =
      if h' = h ∧ n' = n then some e else (w.cache h').get? n' := by
  rw [cache_setCache]
  by_cases hh : h' = h
  · subst hh
    simp only [if_true, true_and, Dict.get?_insert]
  · simp [hh]

/-- Storing a view model leaves everything else as it is. -/
theorem World.Gained.of_caches {h : HostId} {n : NodeId} {paths : List String}
    {gained : Option Model} {w w' : World κ} (hcaches : w'.caches = w.gaining h n paths gained) :
    w.Gained h n paths gained w' := by
  cases gained with
  | none =>
    refine ⟨fun h' n' hn' => ?_, fun h' n' => ?_, fun h' n' _ => ?_, nofun, fun _ => hcaches⟩
    · rw [World.cache_congr hcaches]
      exact hn'
    · rw [World.entry_congr hcaches]
    · rw [World.cache_congr hcaches]
  | some m =>
    generalize hstored : w.setCache h ((w.cache h).insert n ((w.entry h n).withModel m paths)) = u
    have hcaches : w'.caches = u.caches := hstored ▸ hcaches
    have hget : ∀ h' n', (w'.cache h').get? n' =
        if h' = h ∧ n' = n then some ((w.entry h n).withModel m paths)
        else (w.cache h').get? n' := fun h' n' => by
      rw [World.cache_congr hcaches, ← hstored, World.get?_setCache_insert]
    refine ⟨fun h' n' hn' => ?_, fun h' n' => ?_, fun h' n' hother => ?_, fun m' he => ?_, nofun⟩
    · obtain ⟨e, he⟩ := Dict.mem_keys.1 hn'
      rw [Dict.mem_keys, hget]
      split
      · exact ⟨_, rfl⟩
      · exact ⟨e, he⟩
    · rw [World.entry_congr hcaches, ← hstored, World.entry_setCache_insert]
      split
      · next hsame =>
        obtain ⟨rfl, rfl⟩ := hsame
        rfl
      · rfl
    · rw [hget, if_neg hother]
    · cases he
      rw [hget, if_pos ⟨rfl, rfl⟩]

/-- The view model that the node has afterwards. -/
theorem World.Gained.model {h : HostId} {n : NodeId} {paths : List String} {gained : Option Model}
    {w w' : World κ} (hg : w.Gained h n paths gained w')
    (hm : gained = none ∨ (w.entry h n).model = none) :
    (w'.entry h n).model = (w.entry h n).model.or gained := by
  cases gained with
  | none => rw [World.entry_congr (hg.unchanged rfl), Option.or_none]
  | some m =>
    rw [World.entry_of_get? (hg.own m rfl), hm.resolve_left nofun]
    rfl

/-! ## When something is gained -/

namespace Component

variable {c : Component} {host : Host} {n : InstanceId} {stored gained : Option Model}
  {trace : List (Occurrence κ)} {r : Except Error (List ResolvedView)}

theorem Course.stored_or_gained (hc : c.Course host n stored gained trace r) :
    gained = none ∨ stored = none := by
  cases hc with
  | resolved model views => exact .inr rfl
  | _ => exact .inl rfl

/-- A view model is made in this course if and only if the node gains one. -/
theorem Course.made_iff (hc : c.Course host n stored gained trace r) (inst : Instance) :
    (.viewModel, inst) ∈ madeIn trace ↔ ∃ m, gained = some m ∧ m.inst = inst := by
  obtain ⟨k, made, -, hmade, -⟩ := hc.order
  rw [hmade, List.mem_append]
  cases gained with
  | none => simp
  | some m => simp [eq_comm]

/-- The node gains a view model if and only if it had none and one could be resolved. -/
theorem Course.gained_iff (hc : c.Course host n stored gained trace r) :
    gained ≠ none ↔ stored = none ∧
      ∃ m first more, trace = first ++ more ∧ c.ModelCourse host n first (.ok m) := by
  constructor
  · intro hgained
    cases hc with
    | resolved model views => exact ⟨rfl, _, _, _, rfl, model⟩
    | _ => exact absurd rfl hgained
  · rintro ⟨-, m, first, more, rfl, hmodel⟩ rfl
    have hmade : (.viewModel, m.inst) ∈ madeIn (first ++ more) := by
      rw [madeIn_append, hmodel.makes]
      exact List.mem_append_left _ List.mem_cons_self
    obtain ⟨m', he, -⟩ := (hc.made_iff m.inst).1 hmade
    cases he

end Component

/-! ## Registries -/

section

variable {h : HostId} {host : Host} {n : InstanceId} {trace : List (Occurrence κ)}

theorem AnsweredBy.append {found : String → Except LoadError Class}
    {first more : List (Occurrence κ)} (hf : AnsweredBy h found first)
    (hm : AnsweredBy h found more) : AnsweredBy h found (first ++ more) := fun path r hmem =>
  (List.mem_append.1 hmem).elim (hf path r) (hm path r)

variable {classes : ClassRegistry} (hreg : host.loader = .registry classes)
include hreg

theorem Declaration.Looked.answeredBy {path : String → String} {d : Declaration}
    {r : Except LoadError Class} (hl : d.Looked h host.loader path trace r) :
    AnsweredBy h classes.load trace := by
  cases hl with
  | given cls => exact nofun
  | answered s answer =>
    intro p r' hmem
    rcases List.mem_cons.1 hmem with he | hmem
    · cases he
    · cases List.mem_singleton.1 hmem
      exact answer classes hreg

theorem Component.ModelCourse.answeredBy {c : Component} {r : Except Error Model}
    (hc : c.ModelCourse host n trace r) : AnsweredBy c.host classes.load trace := by
  have defined : ∀ ran : List String,
      AnsweredBy c.host classes.load (ran.map (Occurrence.defined (κ := κ))) := by
    intro ran path r' hmem
    obtain ⟨owner, -, he⟩ := List.mem_map.1 hmem
    cases he
  cases hc with
  | unloaded found => exact found.answeredBy hreg
  | unfit found lacks => exact found.answeredBy hreg
  | unnamed found fits nameless => exact (found.answeredBy hreg).append (defined _)
  | made found fits named suits =>
    refine ((found.answeredBy hreg).append (defined _)).append fun path r' hmem => ?_
    cases List.mem_singleton.1 hmem

theorem ViewCourse.answeredBy {model : Option Model} {ds : List Declaration}
    {r : Except Error (List ResolvedView)} (hc : ViewCourse h host model n ds trace r) :
    AnsweredBy h classes.load trace := by
  induction hc with
  | done => exact nofun
  | unloaded found => exact found.answeredBy hreg
  | unfit found lacks => exact found.answeredBy hreg
  | made found suits others ih =>
    refine (found.answeredBy hreg).append fun path r' hmem => ?_
    rcases List.mem_cons.1 hmem with he | hmem
    · cases he
    · exact ih path r' hmem

/-- A registry answers the same each time. -/
theorem Component.Course.answeredBy {c : Component} {stored gained : Option Model}
    {r : Except Error (List ResolvedView)} (hc : c.Course host n stored gained trace r) :
    AnsweredBy c.host classes.load trace := by
  cases hc with
  | stored views => exact views.answeredBy hreg
  | resolved model views => exact (model.answeredBy hreg).append (views.answeredBy hreg)
  | unloaded model views => exact (model.answeredBy hreg).append (views.answeredBy hreg)
  | refused model wrong => exact model.answeredBy hreg

end

/-! ## Two attempts -/

theorem World.Wrought.tenure {w w' : World κ} {trace : List (Occurrence κ)}
    (h : w.Wrought trace w') (hw : Tenure none w) : Tenure none w' :=
  hw.keep h.handles h.pins ((congrArg World.nextComponent h.frame).trans rfl) fun i p hi =>
    ⟨p, by rw [← hi, World.location, World.location, h.components]⟩

/-- **Failures keep the entries.** In any world that a run of an application comes to, a component
is asked for its view model or for its views, while loaders and factories call no operations. The
operation ends, at any depth of calls. If it fails to give a view model, all entries are as before.
If it fails to give views, they are too, except that the node of the component may have gained a
view model, with the paths by which it was found: it has if and only if it had none and one could be
resolved.

If the views are asked for again then, and the loader answers as it has done before, the operation
fails in the same way, changes no entry and makes no view model. That is so if the loader is a
registry. -/
theorem failures_keep_entries {app : Application κ} {prog : Program κ α}
    {targets : Dict TargetId EventTarget} {memory : κ.Memory} {v : World κ}
    (hv : app.Reaches prog (World.start targets memory) v) {i : ComponentId} {c : Component}
    (hc : v.components.get? i = some c) (depth : Nat) :
    let host := app.host c.host
    let stored := (v.entry c.host c.node.id).model
    (app.Undisturbed (.model i) v →
      ∃ r w, ((app.setting depth).perform (.model i)).run v = .ok (some r, w) ∧
        ∀ e, r = .error e → w.caches = v.caches) ∧
    (app.Undisturbed (.views i) v →
      ∃ r w, ((app.setting depth).perform (.views i)).run v = .ok (some r, w) ∧
        ∀ e, r = .error e → ∃ gained trace, v.Wrought trace w ∧
          c.Course host v.nextInstance stored gained trace (.error e) ∧
          v.Gained c.host c.node.id (c.modelPaths host.config) gained w ∧
          (gained ≠ none ↔ stored = none ∧ ∃ m first more,
            trace = first ++ more ∧ c.ModelCourse host v.nextInstance first (.ok m)) ∧
          (app.Undisturbed (.views i) w →
            ∃ r' w' trace',
              ((app.setting depth).perform (.views i)).run w = .ok (some r', w') ∧
              w.Wrought trace' w' ∧
              (∀ found, AnsweredBy c.host found (trace ++ trace') →
                r' = .error e ∧ w'.caches = w.caches ∧
                  ∀ inst, (.viewModel, inst) ∉ madeIn trace') ∧
              ∀ classes, host.loader = .registry classes →
                AnsweredBy c.host classes.load (trace ++ trace'))) := by
  intro host stored
  have hw := tenure_of_reaches app prog targets memory hv
  have hl := ofNode_of_reaches hv
  refine ⟨fun hu => ?_, fun hu => ?_⟩
  · obtain ⟨r, w, hrun, trace, -, hend⟩ := hu.model_run hw hl hc depth
    exact ⟨r, w, hrun, fun e he => (hend e he).2⟩
  · obtain ⟨r, w, hrun, hend⟩ := hu.views_run hw hl hc depth
    refine ⟨r, w, hrun, fun e he => ?_⟩
    subst he
    unfold Component.ViewsEnd at hend
    cases hviews : (v.entry c.host c.node.id).views with
    | some list =>
      rw [hviews] at hend
      cases hend.1
    | none =>
      rw [hviews] at hend
      obtain ⟨gained, trace, hcourse, hwrought, hcaches⟩ := hend
      have hgained := World.Gained.of_caches (hcaches e rfl)
      refine ⟨gained, trace, hwrought, hcourse, hgained, hcourse.gained_iff, fun hu' => ?_⟩
      have hc' : w.components.get? i = some c := by rw [hwrought.components, hc]
      obtain ⟨r', w', hrun', hend'⟩ :=
        hu'.views_run (hwrought.tenure hw) (hwrought.ofNode hl) hc' depth
      unfold Component.ViewsEnd at hend'
      rw [hgained.views, hviews, hgained.model hcourse.stored_or_gained] at hend'
      obtain ⟨gained', trace', hcourse', hwrought', hcaches'⟩ := hend'
      refine ⟨r', w', trace', hrun', hwrought', fun found hf => ?_, fun classes hreg =>
        (hcourse.answeredBy hreg).append (hcourse'.answeredBy hreg)⟩
      obtain ⟨hr', rfl⟩ := hcourse.again hf.left hcourse' hf.right
      obtain rfl : r' = .error e := by
        cases r' with
        | ok list => cases hr'
        | error e' =>
          cases hr'
          rfl
      refine ⟨rfl, hcaches' e rfl, fun inst hmade => ?_⟩
      obtain ⟨m, he, -⟩ := (hcourse'.made_iff inst).1 hmade
      cases he

namespace Bookcase

def model : Class := .viewModel 0 "Bookcase" ⟨0, "Bookcase"⟩

/-- A type whose view nobody has. -/
def type : ComponentType where
  own :=
    { label := "Bookcase"
      definer := some ⟨"Bookcase", [⟨"name", [.text "bookcase"]⟩,
        ⟨"views", [.text "shelf"]⟩, ⟨"viewmodel", [.ofClass model]⟩]⟩ }

/-- A type whose view model nobody has. -/
def boxes : ComponentType where
  own := { label := "Boxes", definer := some ⟨"Boxes", [⟨"name", [.text "boxes"]⟩]⟩ }

/-- An application without classes. -/
def application : Application ⟨Unit, Empty⟩ where
  host _ := {}
  code := .idle

def program : Program ⟨Unit, Empty⟩ Unit :=
  .call (.create 0 type ⟨1, ∅⟩ ⟨0, "bookcase"⟩) fun _ =>
  .call (.create 0 boxes ⟨2, ∅⟩ ⟨0, "boxes"⟩) fun _ => .done ()

/-- The world after the program. -/
def room : World ⟨Unit, Empty⟩ := application.worldAfter 1 program (World.start ∅ ())

theorem run_program : (application.exec 1 program).run (World.start ∅ ()) = .ok ((), room) :=
  Application.run_eq_worldAfter (by decide +kernel)

def component : Component where
  type := type
  metadata := ⟨"bookcase", [.ident "shelf"], some (.ofClass model), []⟩
  host := 0
  node := ⟨1, ∅⟩

def other : Component where
  type := boxes
  metadata := ⟨"boxes", [], none, []⟩
  host := 0
  node := ⟨2, ∅⟩

theorem room_component : room.components.get? 0 = some component := rfl

theorem room_other : room.components.get? 1 = some other := rfl

/-- The view of the bookcase, which is not found. -/
def missing : Error := .resolution (.notFound "views/components/shelf")

/-- How asking for the views fails, and the view model that is stored then. -/
def failure : Option (Error × Option Model) :=
  match ((application.setting 0).perform (.views 0)).run room with
  | .ok (some (.error e), w) => some (e, (w.entry 0 1).model)
  | _ => none

theorem failure_eq : failure = some (missing, some ⟨"Bookcase", 1, ⟨0, "Bookcase"⟩⟩) := by
  decide +kernel

/-- How asking for the other view model fails. -/
def otherFailure : Option Error :=
  match ((application.setting 0).perform (.model 1)).run room with
  | .ok (some (.error e), _) => some e
  | _ => none

theorem otherFailure_eq :
    otherFailure = some (.resolution (.notFound "view_models/components/boxes")) := by
  decide +kernel

theorem undisturbed {w : World ⟨Unit, Empty⟩} (hw : Tenure none w) (hl : ∀ l ∈ w.loans, OfNode l)
    (hc : w.components.get? 0 = some component) : application.Undisturbed (.views 0) w :=
  Application.undisturbed_views hw hl hc (fun _ _ _ => trivial) fun _ _ => trivial

end Bookcase

/-- A component has a view model but no view that can be loaded. It is asked for its views twice:
both times it fails, and the view model that it has got from the first time stays. Another one has
no view model: nothing is stored for it. -/
theorem failures_keep_entries_bookcase :
    (∃ w w' : World ⟨Unit, Empty⟩,
      ((Bookcase.application.setting 0).perform (.views 0)).run Bookcase.room =
        .ok (some (.error Bookcase.missing), w) ∧
      (w.cache 0).get? 1 = some ⟨none, some ⟨"Bookcase", 1, ⟨0, "Bookcase"⟩⟩, []⟩ ∧
      ((Bookcase.application.setting 0).perform (.views 0)).run w =
        .ok (some (.error Bookcase.missing), w') ∧
      w'.caches = w.caches) ∧
    ∃ e w, ((Bookcase.application.setting 0).perform (.model 1)).run Bookcase.room =
        .ok (some (.error e), w) ∧ w.caches = Bookcase.room.caches := by
  have hv := Application.reaches_of_exec Bookcase.run_program
  have hw := tenure_of_reaches _ _ _ _ hv
  have hl := ofNode_of_reaches hv
  constructor
  · obtain ⟨r, w, hrun, hfailed⟩ :=
      (failures_keep_entries hv Bookcase.room_component 0).2
        (Bookcase.undisturbed hw hl Bookcase.room_component)
    have hfails := Bookcase.failure_eq
    unfold Bookcase.failure at hfails
    rw [hrun] at hfails
    obtain ⟨e, rfl⟩ : ∃ e, r = .error e := by
      cases r with
      | ok list => cases hfails
      | error e => exact ⟨e, rfl⟩
    obtain ⟨rfl, hmodel⟩ := Prod.mk.inj (Option.some.inj hfails)
    obtain ⟨gained, trace, hwrought, hcourse, hgained, -, hagain⟩ := hfailed _ rfl
    have hgains : gained = some ⟨"Bookcase", 1, ⟨0, "Bookcase"⟩⟩ :=
      (hgained.model hcourse.stored_or_gained).symm.trans hmodel
    have hc' : w.components.get? 0 = some Bookcase.component := by
      rw [hwrought.components, Bookcase.room_component]
    obtain ⟨r', w', trace', hrun', -, hsame, hregistry⟩ :=
      hagain (Bookcase.undisturbed (hwrought.tenure hw) (hwrought.ofNode hl) hc')
    obtain ⟨rfl, hcaches, -⟩ := hsame _ (hregistry ∅ rfl)
    exact ⟨w, w', hrun, hgained.own _ hgains, hrun', hcaches⟩
  · obtain ⟨r, w, hrun, hfailed⟩ :=
      (failures_keep_entries hv Bookcase.room_other 0).1
        (Application.undisturbed_model hw hl Bookcase.room_other (fun _ _ _ => trivial)
          fun _ _ => trivial)
    have hfails := Bookcase.otherFailure_eq
    unfold Bookcase.otherFailure at hfails
    rw [hrun] at hfails
    cases r with
    | ok m => cases hfails
    | error e => exact ⟨e, w, hrun, hfailed e rfl⟩

end LayeredViews
