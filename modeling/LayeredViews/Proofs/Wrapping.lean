import LayeredViews.Proofs.Lineage
import LayeredViews.Proofs.Memo
import LayeredViews.Proofs.Staying
import LayeredViews.Proofs.Without

/-!
# Views of base types wrap those of derived types

The views of a component that has its node to itself are those that its type declares, and a type
declares what its bases declare first. So the views of the bases are rendered around those of the
types derived from them.

* `World.Shares`: an operation asks for the views of another component on the node.
* `World.Ascribed`: every list of views that was stored for the node is one of component `i`.
  Operations that do not share the node keep this (`ascribing_guarded`).
* `base_wraps_derived`: what this means for a lineage that is split in two.
-/

namespace LayeredViews

variable {κ : Client} {α : Type}

/-- A component at another time: it may have moved, and have other subscriptions. -/
structure Component.Kin (c c' : Component) : Prop where
  type : c'.type = c.type
  metadata : c'.metadata = c.metadata
  host : c'.host = c.host

namespace Component.Kin

theorem refl (c : Component) : c.Kin c := ⟨rfl, rfl, rfl⟩

theorem trans {c c' c'' : Component} (h : c.Kin c') (h' : c'.Kin c'') : c.Kin c'' :=
  ⟨h'.type.trans h.type, h'.metadata.trans h.metadata, h'.host.trans h.host⟩

theorem declarations {c c' : Component} (h : c.Kin c') (config : Config) :
    c'.declarations config = c.declarations config := by
  rw [Component.declarations, Component.declarations, h.metadata]

end Component.Kin

namespace World

/-- The operation asks for the views of another component than `i` on node `n` of host `h`. -/
def Shares (i : ComponentId) (h : HostId) (n : NodeId) (w : World κ) : Op → Prop
  | .views j | .render j _ => j ≠ i ∧ w.location j = some (h, n)
  | _ => False

/-- Time has passed for component `i`. -/
structure Later (i : ComponentId) (w w' : World κ) : Prop where
  nextComponent : w.nextComponent ≤ w'.nextComponent
  component : i < w.nextComponent → ∀ c', w'.components.get? i = some c' →
    ∃ c, w.components.get? i = some c ∧ c.Kin c'
  record : ∃ new, w'.record = new ++ w.record

/-- Time has passed in which no component was made and no views were stored for the node. -/
structure Quiet (i : ComponentId) (h : HostId) (n : NodeId) (w w' : World κ) : Prop where
  nextComponent : w'.nextComponent = w.nextComponent
  component : ∀ c', w'.components.get? i = some c' → ∃ c, w.components.get? i = some c ∧ c.Kin c'
  record : ∃ new, w'.record = new ++ w.record ∧ ∀ l, .stored h n (.views l) ∉ new

variable {i : ComponentId} {h : HostId} {n : NodeId} {w w' w'' : World κ}

theorem Later.refl (w : World κ) : w.Later i w :=
  ⟨Nat.le_refl _, fun _ c hc => ⟨c, hc, .refl c⟩, [], rfl⟩

theorem Later.trans (h : w.Later i w') (h' : w'.Later i w'') : w.Later i w'' where
  nextComponent := Nat.le_trans h.nextComponent h'.nextComponent
  component hi c'' hc'' := by
    obtain ⟨c', hc', hk'⟩ := h'.component (Nat.lt_of_lt_of_le hi h.nextComponent) c'' hc''
    obtain ⟨c, hc, hk⟩ := h.component hi c' hc'
    exact ⟨c, hc, hk.trans hk'⟩
  record := by
    obtain ⟨new, hr⟩ := h.record
    obtain ⟨new', hr'⟩ := h'.record
    exact ⟨new' ++ new, by rw [hr', hr, List.append_assoc]⟩

theorem Quiet.later (hq : w.Quiet i h n w') : w.Later i w' where
  nextComponent := Nat.le_of_eq hq.nextComponent.symm
  component _ := hq.component
  record := hq.record.imp fun _ hr => hr.1

theorem Quiet.of_record (hn : w'.nextComponent = w.nextComponent)
    (hc : w'.components = w.components) (new : List (Occurrence κ))
    (hr : w'.record = new ++ w.record) (hnew : ∀ l, .stored h n (.views l) ∉ new) :
    w.Quiet i h n w' :=
  ⟨hn, fun c hget => ⟨c, hc ▸ hget, .refl c⟩, new, hr, hnew⟩

theorem Quiet.of_eq (hn : w'.nextComponent = w.nextComponent)
    (hc : w'.components = w.components) (hr : w'.record = w.record) : w.Quiet i h n w' :=
  .of_record hn hc [] hr fun _ => List.not_mem_nil

theorem Quiet.of_occurrence {o : Occurrence κ} (ho : ∀ l, o ≠ .stored h n (.views l)) :
    w.Quiet i h n { w with record := o :: w.record } :=
  .of_record rfl rfl [o] rfl fun l hl => ho l (List.mem_singleton.1 hl).symm

/-- A component that exists is changed. -/
theorem Quiet.setComponent {j : ComponentId} {c c' : Component}
    (hc : w.components.get? j = some c) (hk : c.Kin c') : w.Quiet i h n (w.setComponent j c') := by
  refine ⟨rfl, fun d hd => ?_, [], rfl, fun _ => List.not_mem_nil⟩
  rw [World.setComponent, Dict.get?_insert] at hd
  split at hd
  · next he =>
    obtain rfl := Option.some.inj hd
    exact ⟨c, he ▸ hc, hk⟩
  · exact ⟨d, hd, .refl d⟩

theorem Quiet.withoutComponent (w : World κ) (j : ComponentId) :
    w.Quiet i h n (w.withoutComponent j) := by
  refine ⟨rfl, fun d hd => ?_, [], rfl, fun _ => List.not_mem_nil⟩
  rw [World.withoutComponent, Dict.get?_erase] at hd
  split at hd
  · cases hd
  · exact ⟨d, hd, .refl d⟩

/-! ## Whose views are stored -/

/-- The lists of views that were stored for node `n` of host `h` were resolved for what component
`i` declares. -/
structure Ascribed (host : HostId → Host) (i : ComponentId) (h : HostId) (n : NodeId)
    (w : World κ) : Prop where
  numbered : ∀ c, w.components.get? i = some c → i < w.nextComponent
  built : ∀ c, w.components.get? i = some c → c.type.build.result = .ok c.metadata
  before : w.nextComponent ≤ i → ∀ l, .stored h n (.views l) ∉ w.record
  ascribed : ∀ c, w.components.get? i = some c → ∀ l, .stored h n (.views l) ∈ w.record →
    List.Forall₂ (ResolvedFor host c.host w.record) (c.declarations (host c.host).config) l.views

variable {host : HostId → Host}

theorem Ascribed.quiet (hw : w.Ascribed host i h n) (hq : w.Quiet i h n w') :
    w'.Ascribed host i h n := by
  obtain ⟨new, hr, hnew⟩ := hq.record
  have old : ∀ l, .stored h n (.views l) ∈ w'.record → .stored h n (.views l) ∈ w.record := by
    intro l hl
    rw [hr] at hl
    exact (List.mem_append.1 hl).resolve_left (hnew l)
  refine ⟨fun c' hc' => ?_, fun c' hc' => ?_, fun hi l hl => ?_, fun c' hc' l hl => ?_⟩
  · obtain ⟨c, hc, -⟩ := hq.component c' hc'
    exact hq.nextComponent ▸ hw.numbered c hc
  · obtain ⟨c, hc, hk⟩ := hq.component c' hc'
    rw [hk.type, hk.metadata]
    exact hw.built c hc
  · exact hw.before (hq.nextComponent ▸ hi) l (old l hl)
  · obtain ⟨c, hc, hk⟩ := hq.component c' hc'
    rw [hk.host, hk.declarations, hr]
    exact (hw.ascribed c hc l (old l hl)).imp fun _ _ hx => hx.append new

/-- A component is made; nothing was stored on its behalf before. -/
theorem Ascribed.withComponent (hw : w.Ascribed host i h n) {c : Component}
    (hb : c.type.build.result = .ok c.metadata) : (w.withComponent c).Ascribed host i h n := by
  have cases_get : ∀ d, (w.withComponent c).components.get? i = some d →
      (i = w.nextComponent ∧ d = c) ∨ w.components.get? i = some d := by
    intro d hd
    rw [World.withComponent, World.setComponent, Dict.get?_insert] at hd
    split at hd
    · next he => exact .inl ⟨he, (Option.some.inj hd).symm⟩
    · exact .inr hd
  refine ⟨fun d hd => ?_, fun d hd => ?_, fun hi => hw.before (Nat.le_of_succ_le hi),
    fun d hd l hl => ?_⟩
  · rcases cases_get d hd with ⟨he, -⟩ | hd
    · exact he ▸ Nat.lt_succ_self _
    · exact Nat.lt_succ_of_lt (hw.numbered d hd)
  · rcases cases_get d hd with ⟨-, rfl⟩ | hd
    · exact hb
    · exact hw.built d hd
  · rcases cases_get d hd with ⟨he, -⟩ | hd
    · exact absurd hl (hw.before (Nat.le_of_eq he.symm) l)
    · exact hw.ascribed d hd l hl

theorem Later.withComponent (w : World κ) (c : Component) : w.Later i (w.withComponent c) := by
  refine ⟨Nat.le_succ _, fun hi d hd => ?_, [], rfl⟩
  rw [World.withComponent, World.setComponent,
    Dict.get?_insert_of_ne _ _ (Nat.ne_of_lt hi)] at hd
  exact ⟨d, hd, .refl d⟩

/-- Component `i` is, or was, the component `c`. -/
def Is (w : World κ) (i : ComponentId) (c : Component) : Prop :=
  i < w.nextComponent ∧ ∀ c', w.components.get? i = some c' → c.Kin c'

theorem Is.later {c : Component} (hi : w.Is i c) (hl : w.Later i w') : w'.Is i c := by
  refine ⟨Nat.lt_of_lt_of_le hi.1 hl.nextComponent, fun c'' hc'' => ?_⟩
  obtain ⟨c', hc', hk⟩ := hl.component hi.1 c'' hc''
  exact (hi.2 c' hc').trans hk

/-- Views that are stored for the node are those of component `c`, which component `i` is. -/
def Files (w : World κ) (i : ComponentId) (h : HostId) (n : NodeId) (c : Component) (m : NodeId) :
    Prop := c.host = h ∧ m = n → w.Is i c

/-- The end of a resolution: views are stored and given that were resolved for what a component
declares. -/
theorem Ascribed.finish (hw : w.Ascribed host i h n) {c : Component} {m : NodeId}
    (hs : w.Files i h n c m) {l : ViewList}
    (hl : List.Forall₂ (ResolvedFor host c.host w.record) (c.declarations (host c.host).config)
      l.views) (f : Entry → Entry) :
    let v : World κ := { w.setCache c.host ((w.cache c.host).insert m (f (w.entry c.host m))) with
      record := .gave c.host m (.views l) :: .stored c.host m (.views l) :: w.record }
    v.Ascribed host i h n ∧ w.Later i v := by
  intro v
  refine ⟨?_, Nat.le_refl _, fun _ c' hc' => ⟨c', hc', .refl c'⟩, [_, _], rfl⟩
  by_cases hm : c.host = h ∧ m = n
  · have hi := hs hm
    refine ⟨hw.numbered, hw.built, fun hle => absurd hi.1 (Nat.not_lt.2 hle),
      fun c' hc' l' hl' => ?_⟩
    have hk := hi.2 c' hc'
    have hall : List.Forall₂ (ResolvedFor host c'.host w.record)
        (c'.declarations (host c'.host).config) l'.views := by
      rcases List.mem_cons.1 ((List.mem_cons.1 hl').resolve_left nofun) with he | hl'
      · cases he
        rw [hk.host, hk.declarations]
        exact hl
      · exact hw.ascribed c' hc' l' hl'
    exact hall.imp fun _ _ hx => hx.append [_, _]
  · refine hw.quiet (.of_record rfl rfl [_, _] rfl fun l' hl' => hm ?_)
    cases List.mem_singleton.1 ((List.mem_cons.1 hl').resolve_left nofun)
    exact ⟨rfl, rfl⟩

/-- The list of views was stored for the node of a component before, or it was resolved for what the
component declares. -/
def Provides (host : HostId → Host) (c : Component) (w w' : World κ) (l : ViewList) : Prop :=
  (w.entry c.host c.node.id).views = some l ∨
    List.Forall₂ (ResolvedFor host c.host w'.record) (c.declarations (host c.host).config) l.views

end World

/-! ## The contract -/

/-- The contract of code that does not share the node of component `i`. -/
def ascribing (host : HostId → Host) (i : ComponentId) (h : HostId) (n : NodeId) : Contract κ where
  inv := World.Ascribed host i h n
  step := World.Later i
  refl := World.Later.refl
  trans := World.Later.trans

section

variable {host : HostId → Host} {i : ComponentId} {h : HostId} {n : NodeId}

theorem World.Ascribed.kept {w w' : World κ} (hw : w.Ascribed host i h n)
    (hq : w.Quiet i h n w') :
    (ascribing host i h n).inv w' ∧ (ascribing host i h n).step w w' := ⟨hw.quiet hq, hq.later⟩

theorem ascribing_quiet {a : Act κ α}
    (ha : ∀ w, a.Wp (· ≠ none) (fun _ w' => w.Quiet i h n w') w) :
    (ascribing host i h n).Kept a :=
  fun w hw => (ha w).mono fun _ _ hq => hw.kept hq

theorem ascribing_recorded {o : Occurrence κ} (ho : ∀ l, o ≠ .stored h n (.views l)) :
    (ascribing host i h n).Kept (Act.record o) :=
  ascribing_quiet fun _ => .of_occurrence ho

theorem ascribing_idle {o : Occurrence κ} (ho : o.Idle) :
    (ascribing host i h n).Kept (Act.record o) :=
  ascribing_recorded fun l he => by
    rw [he] at ho
    exact ho

theorem ascribing_lenient : (ascribing (κ := κ) host i h n).Lenient where
  loans hw _ := hw.kept (.of_eq rfl rfl rfl)
  conflict _ := Option.some_ne_none _

theorem ascribing_discard (h' : HostId) (selection : Cache.Selection) (cause : Cause) :
    (ascribing (κ := κ) host i h n).Kept (Act.discard h' selection cause) :=
  ascribing_quiet fun w => by
    rw [Act.wp_discard]
    split
    · exact Option.some_ne_none _
    · exact .of_record rfl rfl _ rfl fun l hl => by simp at hl

theorem ascribing_settle (j : ComponentId) :
    (ascribing (κ := κ) host i h n).Kept (Act.settle j) := by
  intro w hw
  rw [Act.wp_settle]
  split
  · exact ⟨hw, .refl w⟩
  · cases w.components.get? j with
    | none => exact ⟨hw, .refl w⟩
    | some c =>
      have hwp := (ascribing_discard c.host (.node c.node.id) (.release j)).after
        (hw.kept (.withoutComponent w j))
      rw [Act.wp_discard] at hwp
      exact hwp

theorem ascribing_tended : (ascribing (κ := κ) host i h n).Tended where
  toHolding := .of_pins ascribing_settle fun hw _ => hw.kept (.of_eq rfl rfl rfl)
  handles hw _ := hw.kept (.of_eq rfl rfl rfl)
  discard := ascribing_discard
  read := ascribing_lenient.read
  lendNode _ _ hb := ascribing_lenient.lend _ _ hb
  idle := ascribing_idle

theorem ascribing_updateComponent (j : ComponentId) {f : Component → Component}
    (hf : ∀ c : Component, c.Kin (f c)) :
    (ascribing (κ := κ) host i h n).Kept (Act.updateComponent j f) :=
  ascribing_quiet fun w => by
    rw [Act.updateComponent, Act.wp_modify]
    cases hc : w.components.get? j with
    | none => exact .of_eq rfl rfl rfl
    | some c => exact .setComponent hc (hf c)

theorem ascribing_subscribing : (ascribing (κ := κ) host i h n).Subscribing where
  idle := ascribing_idle
  updateTarget _ _ := ascribing_lenient.lend _ _ (ascribing_quiet fun _ => .of_eq rfl rfl rfl)
  freshListener _ := ascribing_quiet fun _ => .of_eq rfl rfl rfl
  withSubscriptions j _ _ hb :=
    ascribing_lenient.lend _ _ (.get_bind fun _ => (hb _).bind fun ⟨a, _⟩ =>
      Contract.Kept.bind (ascribing_updateComponent j fun _ => ⟨rfl, rfl, rfl⟩) fun _ => .pure a)

theorem ascribing_swapNode (j : ComponentId) (c : Component) (node : Node) :
    (ascribing (κ := κ) host i h n).Kept (Act.swapNode j c node) :=
  ascribing_lenient.lend _ _ (.get_bind fun w =>
    Contract.Kept.bind (ascribing_updateComponent j fun _ => ⟨rfl, rfl, rfl⟩) fun _ =>
      .pure (w.current j c).node)

end

/-! ## Resolutions -/

namespace Setting

variable {host : HostId → Host} {user : Callbacks (Act κ)} {i : ComponentId} {h : HostId}
  {n : NodeId} (hu : (ascribing host i h n).KeptBy user)

theorem ascribing_modelling : (ascribing (κ := κ) host i h n).Modelling where
  toAttending := ascribing_tended.toAttending
  freshInstance _ := ascribing_quiet fun _ => .of_eq rfl rfl rfl
  told _ ho := ascribing_recorded fun l => ho h n l
  updateEntry h' m f := ascribing_quiet fun w => by
    rw [Act.wp_updateEntry]
    split
    · exact Option.some_ne_none _
    · exact .of_eq rfl rfl rfl

include hu

/-- Views are resolved for what the component declares, and stored if the node is not shared. -/
theorem ascribing_views_resolve {c : Component} {m : NodeId} {w : World κ}
    (hw : w.Ascribed host i h n) (hs : w.Files i h n c m) (model : Option Model)
    (paths : List String) :
    (views.resolve ⟨host, user⟩ c m model paths).Wp (· ≠ none) (fun r w' =>
      (w'.Ascribed host i h n ∧ w.Later i w') ∧ ∀ l, r = .ok l →
        List.Forall₂ (ResolvedFor host c.host w'.record) (c.declarations (host c.host).config)
          l.views) w := by
  refine (ascribing_modelling.resolveViews_for hu (fun hl => hl.record) c.host model _ w hw).bind
    fun ⟨resolved, more⟩ w₁ ⟨⟨hw₁, hlater⟩, hviews⟩ => ?_
  have hw₁ : w₁.Ascribed host i h n := hw₁
  have hlater : w.Later i w₁ := hlater
  cases resolved with
  | error e =>
    have hq : w₁.Quiet i h n { w₁ with record := .failed c.host m .views :: w₁.record } :=
      .of_occurrence nofun
    exact ⟨⟨hw₁.quiet hq, hlater.trans hq.later⟩, nofun⟩
  | ok list =>
    have hlisted : w₁.Quiet i h n { w₁ with nextList := w₁.nextList + 1 } := .of_eq rfl rfl rfl
    have hlater₂ := hlater.trans hlisted.later
    have hlist := hviews list rfl
    dsimp only
    rw [Act.wp_bind, Act.wp_freshList, Act.wp_bind, Act.wp_updateEntry]
    split
    · exact Option.some_ne_none _
    obtain ⟨hw₃, hfinished⟩ := (hw₁.quiet hlisted).finish (l := ⟨w₁.nextList, list⟩)
      (fun hm => (hs hm).later hlater₂) hlist
      fun e => e.withViews ⟨w₁.nextList, list⟩ (paths ++ more)
    refine ⟨⟨hw₃, hlater₂.trans hfinished⟩, fun l he => ?_⟩
    cases he
    exact hlist.imp fun _ _ hx => hx.append [_, _]

/-- The views that are given for a component. -/
theorem ascribing_views {j : ComponentId} {c : Component} {w : World κ}
    (hw : w.Ascribed host i h n) (hc : w.components.get? j = some c)
    (hs : w.Files i h n c c.node.id) :
    (views ⟨host, user⟩ j c).Wp (· ≠ none) (fun r w' =>
      (w'.Ascribed host i h n ∧ w.Later i w') ∧ ∀ l, r = .ok l → w.Provides host c w' l) w := by
  rw [views_eq]
  rw [Act.wp_bind, Act.wp_nodeOf]
  split
  · exact Option.some_ne_none _
  rw [World.current_of_get? hc, Act.wp_bind, Act.wp_entryOf]
  split
  · exact Option.some_ne_none _
  cases hl : (w.entry c.host c.node.id).views with
  | some l =>
    have hgave : w.Quiet i h n { w with
        record := .gave c.host c.node.id (.views l) :: w.record } := .of_occurrence nofun
    refine ⟨⟨hw.quiet hgave, hgave.later⟩, fun l' he => .inl ?_⟩
    cases he
    exact hl
  | none =>
    have hbegin : w.Quiet i h n { w with
        record := .resolving c.host c.node.id .views :: w.record } := .of_occurrence nofun
    dsimp only
    rw [Act.wp_bind, Act.wp_record]
    refine (ascribing_modelling.modelWithSources hu j c _ (hw.quiet hbegin)).bind
      fun ⟨model, paths⟩ w₁ ⟨hw₁, hlater⟩ => ?_
    have hw₁ : w₁.Ascribed host i h n := hw₁
    have hlater : w.Later i w₁ := hbegin.later.trans hlater
    have hresolve : ∀ model, (views.resolve ⟨host, user⟩ c c.node.id model paths).Wp (· ≠ none)
        (fun r w' => (w'.Ascribed host i h n ∧ w.Later i w') ∧
          ∀ l, r = .ok l → w.Provides host c w' l) w₁ := fun model =>
      (ascribing_views_resolve hu hw₁ (fun hm => (hs hm).later hlater) model paths).mono
        fun r w' ⟨⟨hw', hl'⟩, hviews⟩ =>
          ⟨⟨hw', hlater.trans hl'⟩, fun l he => .inr (hviews l he)⟩
    cases model with
    | ok m => exact hresolve (some m)
    | error e =>
      dsimp only
      rw [Act.wp_ite]
      split
      · exact hresolve none
      · have hfailed : w₁.Quiet i h n { w₁ with
            record := .failed c.host c.node.id .views :: w₁.record } := .of_occurrence nofun
        exact ⟨⟨hw₁.quiet hfailed, hlater.trans hfailed.later⟩, nofun⟩

end Setting

/-! ## Operations -/

section

variable {host : HostId → Host} {user : Callbacks (Act κ)} {i : ComponentId} {h : HostId}
  {n : NodeId}

theorem ascribing_freshComponent {c : Component} (hb : c.type.build.result = .ok c.metadata) :
    (ascribing (κ := κ) host i h n).Kept (Act.freshComponent c) :=
  fun w hw => ⟨World.Ascribed.withComponent hw hb, .withComponent w c⟩

/-- What is done once the metadata of a type was built. -/
theorem ascribing_built (type : ComponentType) {f : Except Error Metadata → Act κ α}
    (hfailed : ∀ e, (ascribing host i h n).Kept (f (.error e)))
    (hbuilt : ∀ metadata, type.build.result = .ok metadata →
      (ascribing host i h n).Kept (f (.ok metadata))) :
    (ascribing host i h n).Kept (Act.buildType type >>= f) := by
  intro w hw
  rw [Act.wp_bind, Act.wp_buildType]
  have hran : w.Quiet i h n { w with
      record := (type.build.ran.map .defined).reverse ++ w.record } :=
    .of_record rfl rfl _ rfl fun l hl => by simp at hl
  cases htype : type.build.result with
  | error e => exact (hfailed e).after (hw.kept hran)
  | ok metadata => exact (hbuilt metadata htype).after (hw.kept hran)

theorem ascribing_create (h' : HostId) (type : ComponentType) (node : Node) (as : Handle) :
    (ascribing (κ := κ) host i h n).Kept (Act.create h' type node as) :=
  ascribing_built type (fun _ => .pure _) fun _ hb => (ascribing_freshComponent hb).bind fun id =>
    (ascribing_tended.bindHandle as id).bind fun _ => .pure _

theorem ascribing_mount (h' : HostId) (type : ComponentType) (node : Node) (as : Handle) :
    (ascribing (κ := κ) host i h n).Kept (Setting.mount ⟨host, user⟩ h' type node as) := by
  refine ascribing_built type (fun _ => .pure _) fun _ hb =>
    (ascribing_freshComponent hb).bind fun id => ascribing_tended.pinned id ?_
  refine (ascribing_subscribing.init id _).bind fun bound => ?_
  cases bound with
  | error e => exact .pure _
  | ok _ =>
    exact Contract.Kept.bind (ascribing_idle trivial) fun _ =>
      (ascribing_tended.bindHandle as id).bind fun _ => .pure _

theorem ascribing_steady : (ascribing (κ := κ) host i h n).Steady host where
  toClearing := ascribing_tended.toClearing
  freshListener := ascribing_subscribing.freshListener
  bind id := ascribing_tended.withComponent id fun c => ascribing_subscribing.init id c
  unbind id := ascribing_tended.withComponent id fun c => ascribing_subscribing.beforeRemove id c
  placed hw := hw.kept (.of_eq rfl rfl rfl)
  switched hw _ _ := hw.kept (.of_eq rfl rfl rfl)
  create := ascribing_create
  mount := ascribing_mount
  unmount id := ascribing_tended.withComponent id fun c =>
    ascribing_tended.unmount_of id c (ascribing_subscribing.beforeRemove id c)
  bindHandle := ascribing_tended.bindHandle
  release := ascribing_tended.release

/-- The views of a component that does not share the node. -/
theorem ascribing_views_at (hu : (ascribing host i h n).KeptBy user) {w : World κ}
    (hw : w.Ascribed host i h n) {j : ComponentId} (hs : ¬(j ≠ i ∧ w.location j = some (h, n)))
    {body : Component → Act κ α} (hbody : ∀ c w, w.Ascribed host i h n →
      (ascribing host i h n).KeptFrom w (Setting.views ⟨host, user⟩ j c) →
      (ascribing host i h n).KeptFrom w (body c)) :
    (ascribing host i h n).KeptFrom w (Act.withComponent j body) := by
  refine ascribing_tended.withComponent_at hw fun c hc hpin => hbody c _ hpin ?_
  have hfiles : (w.pin j).Files i h n c c.node.id := by
    rintro ⟨rfl, rfl⟩
    have hj : j = i := Classical.byContradiction fun hj => hs ⟨hj, World.location_of_get? hc⟩
    subst hj
    refine ⟨World.Ascribed.numbered hpin c hc, fun c' hc' => ?_⟩
    cases hc.symm.trans hc'
    exact .refl c
  exact (Setting.ascribing_views hu hpin hc hfiles).mono fun _ _ hx => hx.1

theorem ascribing_perform (hu : (ascribing host i h n).KeptBy user) (op : Op) {w : World κ}
    (hw : w.Ascribed host i h n) (hop : ¬w.Shares i h n op) :
    (ascribing host i h n).KeptFrom w (Setting.perform ⟨host, user⟩ op) := by
  have hM : (ascribing (κ := κ) host i h n).Modelling := Setting.ascribing_modelling
  by_cases hg : op.Registers
  · exact ascribing_subscribing.toRegistering.perform ascribing_tended.toAttending hg w hw
  cases op with
  | views j => exact ascribing_views_at hu hw hop fun _ _ _ hviews => hviews
  | render j pipe =>
    exact ascribing_views_at hu hw hop fun _ _ _ hviews => hM.render_from hu pipe hviews
  | model j =>
    exact ascribing_tended.withComponent j (fun c =>
      (hM.modelWithSources hu j c).bind fun _ => .pure _) w hw
  | instantiate cls capability => exact hM.instantiate hu cls capability w hw
  | update j node =>
    exact ascribing_tended.withComponent j (fun c =>
      ascribing_tended.update j c node (ascribing_swapNode j c node)) w hw
  | _ => exact ascribing_steady.perform hu id hg (fun _ _ => nofun) w hw

theorem ascribing_guarded (host : HostId → Host) (i : ComponentId) (h : HostId) (n : NodeId) :
    Contract.Guarded (κ := κ) (fun _ => ascribing host i h n) host
      fun _ w => w.Shares i h n where
  opened _ :=
    { exhausted := Option.some_ne_none _
      memory := fun hw _ => hw.kept (.of_eq rfl rfl rfl)
      note := fun hw n => hw.kept (.of_occurrence (o := .noted n) nofun) }
  perform _ hu _ op _ hw hop := ascribing_perform hu.keptBy op hw hop

theorem ascribed_start (targets : Dict TargetId EventTarget) (memory : κ.Memory) :
    World.Ascribed host i h n (World.start targets memory : World κ) where
  numbered _ hc := by cases hc
  built _ hc := by cases hc
  before _ _ := List.not_mem_nil
  ascribed _ hc := by cases hc

end

section

variable {app : Application κ} {prog : Program κ α} {targets : Dict TargetId EventTarget}
  {memory : κ.Memory} {v w : World κ} {i : ComponentId} {c : Component}

/-- **The views of a component that has its node to itself.** They were resolved for what the
component declares, in order. -/
theorem resolved_for_of_views
    (hv : app.ReachesWithout (fun _ w => w.Shares i c.host c.node.id) prog
      (World.start targets memory) v)
    (hc : v.components.get? i = some c)
    (hcalls : ¬app.Calls (.perform (.views i)) v (World.Shares i c.host c.node.id)) {depth : Nat}
    {l : ViewList} (hrun : (Setting.views ⟨app.host, app.code.under (app.exec depth)⟩ i c).run
      (v.pin i) = .ok (.ok l, w)) :
    c.type.build.result = .ok c.metadata ∧
      List.Forall₂ (ResolvedFor app.host c.host w.record)
        (c.declarations (app.host c.host).config) l.views := by
  have hguarded := ascribing_guarded (κ := κ) app.host i c.host c.node.id
  have hascribed : World.Ascribed app.host i c.host c.node.id v :=
    hguarded.inv_of_reaches_one (fun h => h rfl) (ascribed_start targets memory) hv
  have hmemoized : Memoized v := ((memo_sound app.host).guarded fun _ _ _ _ =>
    trivial).inv_of_reaches_one (fun h => h rfl) (memoized_start targets memory) hv
  refine ⟨hascribed.built c hc, ?_⟩
  have hu : (ascribing app.host i c.host c.node.id).KeptBy (app.code.underEach
      (app.execWithout (fun _ w => w.Shares i c.host c.node.id) (fun _ => False) depth)) :=
    (Contract.KeptByEach.underEach (fun who => hguarded.execWithout (fun _ _ _ => id) depth who)
      app.code).keptBy
  have hpin : World.Ascribed app.host i c.host c.node.id (v.pin i) :=
    hascribed.quiet (.of_eq rfl rfl rfl)
  have hfiles : (v.pin i).Files i c.host c.node.id c c.node.id := fun _ =>
    ⟨hpin.numbered c hc, fun c' hc' => by
      cases hc.symm.trans hc'
      exact .refl c⟩
  obtain ⟨⟨-, hlater⟩, hprovides⟩ := (Setting.ascribing_views hu hpin hc hfiles).of_run
    ((app.views_run_without hcalls hc depth).trans hrun)
  rcases hprovides l rfl with hstored | hresolved
  · have hstands : standing c.host c.node.id .views v.record = some (.views l) := by
      rw [← hmemoized.stands, Entry.get?_views, show (v.entry c.host c.node.id).views = some l from
        hstored]
      rfl
    obtain ⟨new, hr⟩ := hlater.record
    rw [hr]
    exact (hascribed.ascribed c hc l (stored_of_standing hstands).2).imp
      fun _ _ hx => hx.append new
  · exact hresolved

/-- **Views of base types wrap those of derived types.** Wherever the lineage of a component is
split, the views that its base types declare come first and are rendered around those that the
derived ones declare. -/
theorem base_wraps_derived
    (hv : app.ReachesWithout (fun _ w => w.Shares i c.host c.node.id) prog
      (World.start targets memory) v)
    (hc : v.components.get? i = some c) {derived base : List TypeLayer}
    (hlayers : c.type.layers = derived ++ base) (hsome : c.metadata.views ≠ [])
    (hcalls : ¬app.Calls (.perform (.views i)) v (World.Shares i c.host c.node.id)) {depth : Nat}
    {l : ViewList} (hrun : (Setting.views ⟨app.host, app.code.under (app.exec depth)⟩ i c).run
      (v.pin i) = .ok (.ok l, w)) :
    c.metadata.views = TypeLayer.declared base ++ TypeLayer.declared derived ∧
      ∃ outer inner, l.views = outer ++ inner ∧
        List.Forall₂ (ResolvedFor app.host c.host w.record) (TypeLayer.declared base) outer ∧
        List.Forall₂ (ResolvedFor app.host c.host w.record) (TypeLayer.declared derived) inner ∧
        (∀ pipe, (Setting.render ⟨app.host, app.code.under (app.exec depth)⟩ i c pipe).run
            (v.pin i) =
          (Setting.renderAround ⟨app.host, app.code.under (app.exec depth)⟩ i c pipe outer
            inner).run w) ∧
        ∀ attrs produced, Setting.wrap ⟨app.host, app.code.under (app.exec depth)⟩
          c.metadata.name attrs produced [] = pure produced := by
  obtain ⟨hbuilt, hviews⟩ := resolved_for_of_views hv hc hcalls hrun
  have hdeclared : c.metadata.views = TypeLayer.declared base ++ TypeLayer.declared derived := by
    rw [ComponentType.views_of_build hbuilt, hlayers, TypeLayer.declared_append]
  have hdeclarations : c.declarations (app.host c.host).config = c.metadata.views := by
    simp [Component.declarations, hsome]
  rw [hdeclarations] at hviews
  have hne : l.views ≠ [] := by
    intro he
    rw [he, List.forall₂_nil_right_iff] at hviews
    exact hsome hviews
  rw [hdeclared] at hviews
  have hsplit := (List.take_append_drop (TypeLayer.declared base).length l.views).symm
  have houter := List.forall₂_take (TypeLayer.declared base).length hviews
  have hinner := List.forall₂_drop (TypeLayer.declared base).length hviews
  rw [List.take_left] at houter
  rw [List.drop_left] at hinner
  exact ⟨hdeclared, _, _, hsplit, houter, hinner,
    Setting.render_run _ hrun hne hsplit, fun _ _ => Setting.wrap_nil _ _ _ _⟩

end

namespace Framed

def frame : Class := .view 0 "frame" ⟨0, "frame"⟩
def body : Class := .view 1 "body" ⟨1, "body"⟩

def page : TypeLayer where
  label := "Page"
  definer := some ⟨"Page", [⟨"name", [.text "page"]⟩, ⟨"views", [.ofClass frame]⟩]⟩

def article : TypeLayer where
  label := "Article"
  definer := some ⟨"Article", [⟨"views", [.ofClass body]⟩]⟩

/-- An application whose views put an element around what was produced before. -/
def application : Application ⟨Unit, Empty⟩ where
  host _ := {}
  code :=
    { Callbacks.idle with
      render := fun inst frame =>
        .done (some (.element inst.factory.owner ∅ frame.yielded.toList), frame.pipe) }

def program : Program ⟨Unit, Empty⟩ Unit :=
  .call (.create 0 ⟨article, [page]⟩ ⟨1, ∅⟩ ⟨0, "article"⟩) fun _ => .done ()

/-- The world in which the component was made. -/
def made : World ⟨Unit, Empty⟩ := application.worldAfter 1 program (World.start ∅ ())

/-- The setting of views that call nothing. -/
def setting : Setting ⟨Unit, Empty⟩ :=
  ⟨application.host, application.code.under (application.exec 0)⟩

/-- What the component is rendered to. -/
def output (c : Component) : Option Markup :=
  match (setting.render 0 c ∅).run (made.pin 0) with
  | .ok ((.ok output, _), _) => output
  | _ => none

theorem code_uses {P : Caller → Op → Prop} : application.code.UsesEach P :=
  ⟨fun _ _ => trivial, fun _ => trivial, fun _ _ => trivial, fun _ _ _ => trivial,
    fun _ _ => trivial⟩

theorem program_uses {i : ComponentId} {h : HostId} {n : NodeId} :
    program.Uses fun op => ∀ w : World ⟨Unit, Empty⟩, ¬w.Shares i h n op :=
  ⟨fun _ => id, fun _ => trivial⟩

theorem run_program : (application.exec 1 program).run (World.start ∅ ()) = .ok ((), made) :=
  Application.run_eq_worldAfter (by decide +kernel)

theorem reached {i : ComponentId} {h : HostId} {n : NodeId} :
    application.ReachesWithout (fun _ w => w.Shares i h n) program (World.start ∅ ()) made :=
  .of_uses (P := fun _ op => ∀ w : World ⟨Unit, Empty⟩, ¬w.Shares i h n op) (fun _ w _ hop => hop w)
    code_uses program_uses (Application.reaches_of_exec run_program)

/-- Whether an operation asks for views of another component. -/
def asks (_ : World ⟨Unit, Empty⟩) : Op → Bool
  | .views j | .render j _ => j ≠ 0
  | _ => false

theorem not_calls {h : HostId} {n : NodeId} :
    ¬application.Calls (.perform (.views 0)) made (World.Shares 0 h n) := by
  have huser : ∀ depth, application.code.under (application.execBefore (World.Shares 0 h n) depth) =
      setting.user := by
    intro depth
    cases depth <;> rfl
  refine Application.not_calls_of_avoids_under (q := asks) (fun w op hop => ?_) huser
    (by decide +kernel)
  cases op with
  | views j => exact decide_eq_true hop.1
  | render j pipe => exact decide_eq_true hop.1
  | _ => exact hop.elim

/-- Whether views are given for the component. -/
def gives (c : Component) : Bool :=
  match (setting.views 0 c).run (made.pin 0) with
  | .ok (.ok _, _) => true
  | _ => false

theorem run_of_gives {c : Component} (h : gives c = true) :
    ∃ l w, (setting.views 0 c).run (made.pin 0) = .ok (.ok l, w) := by
  unfold gives at h
  split at h
  · next l w hrun => exact ⟨l, w, hrun⟩
  · cases h

end Framed

/-- The view that a type declares is rendered around the one that the type derived from it
declares. -/
theorem base_wraps_derived_framed :
    ∃ c l w outer inner,
      Framed.application.ReachesWithout (fun _ w => w.Shares 0 c.host c.node.id) Framed.program
        (World.start ∅ ()) Framed.made ∧
      Framed.made.components.get? 0 = some c ∧ c.type.layers = [Framed.article] ++ [Framed.page] ∧
      (Framed.setting.views 0 c).run (Framed.made.pin 0) = .ok (.ok l, w) ∧
      l.views = outer ++ inner ∧ outer.map ResolvedView.label = ["frame"] ∧
      inner.map ResolvedView.label = ["body"] ∧
      (Framed.setting.render 0 c ∅).run (Framed.made.pin 0) =
        (Framed.setting.renderAround 0 c ∅ outer inner).run w ∧
      Framed.output c = some (.element "frame" ∅ [.element "body" ∅ []]) := by
  have hpresent : (Framed.made.components.get? 0).isSome = true := by decide +kernel
  obtain ⟨c, hc⟩ := Option.isSome_iff_exists.1 hpresent
  have hlayers : (Framed.made.components.get? 0).map (fun c => c.type.layers) =
    some ([Framed.article] ++ [Framed.page]) := rfl
  have hviews : (Framed.made.components.get? 0).map (fun c => c.metadata.views.isEmpty) =
    some false := by decide +kernel
  have hgiven : (Framed.made.components.get? 0).all Framed.gives = true := by decide +kernel
  have houtput : (Framed.made.components.get? 0).bind Framed.output =
    some (.element "frame" ∅ [.element "body" ∅ []]) := by decide +kernel
  simp only [hc, Option.map_some, Option.some.injEq, Option.bind_some, Option.all_some]
    at hlayers hviews hgiven houtput
  obtain ⟨l, w, hrun⟩ := Framed.run_of_gives hgiven
  obtain ⟨-, outer, inner, hl, houter, hinner, hrender, -⟩ := base_wraps_derived Framed.reached hc
    hlayers (List.isEmpty_eq_false_iff.1 hviews) Framed.not_calls hrun
  exact ⟨c, l, w, outer, inner, Framed.reached, hc, hlayers, hrun, hl, ResolvedFor.labels houter,
    ResolvedFor.labels hinner, hrender ∅, houtput⟩

end LayeredViews
