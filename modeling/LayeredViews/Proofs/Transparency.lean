import LayeredViews.Proofs.Current

/-!
# Entries make no difference

An application may change what its loaders find as long as it reloads the paths concerned before it
resolves a component again. Then it cannot tell whether anything is stored for a node.

* `Application.Disciplined app lib w stale`: a run of operations, in any order, comes to the world
  `w`; `stale` says which paths of which hosts have changed and were not reloaded since.
* `Application.Disciplined.current`: then every entry is current.
* `render_eq_anew`: rendering gives the same output or error and leaves the same pipe as it would
  with no entries at all.
-/

namespace LayeredViews

variable {κ : Client} {α : Type}

/-! ## Disciplined runs -/

/-- The paths whose changes a reload makes good. -/
def Cache.Selection.Covers : Cache.Selection → String → Prop
  | .all, _ => True
  | .node _, _ => False
  | .source path, p => p = path

namespace Op

/-- The operation calls no listener. -/
def CallsNoListener : Op → Prop
  | .dispatch _ _ | .invoke _ _ => False
  | _ => True

/-- The component that an operation resolves. -/
def resolved? : Op → Option ComponentId
  | .views c | .model c | .render c _ => some c
  | _ => none

/-- What is stale after an operation. -/
def refresh : Op → Stale → Stale
  | .reload h selection, stale => fun h' p => stale h' p ∧ ¬(h' = h ∧ selection.Covers p)
  | _, stale => stale

end Op

/-- Operations in any order come to the world. The application may change its memory in between, and
with it what loaders find; a component is resolved only when nothing is stale at its host. After
each operation, no two components of a host are on one node. -/
inductive Application.Disciplined (app : Application κ) (lib : Library κ) : World κ → Stale → Prop
  | start (targets : Dict TargetId EventTarget) (memory : κ.Memory) :
    Disciplined app lib (World.start targets memory) fun _ _ => False
  | edit {w : World κ} {stale : Stale} (m : κ.Memory) : Disciplined app lib w stale →
    Disciplined app lib { w with memory := m } fun h p =>
      stale h p ∨ lib.answers app.host m h p ≠ lib.answers app.host w.memory h p
  | note {w : World κ} {stale : Stale} (n : κ.Note) : Disciplined app lib w stale →
    Disciplined app lib { w with record := .noted n :: w.record } stale
  | op {w w' : World κ} {stale : Stale} (op : Op) (depth : Nat) (r : op.Reply) :
    Disciplined app lib w stale → op.CallsNoListener →
    (∀ id c, op.resolved? = some id → w.components.get? id = some c → ∀ p, ¬stale c.host p) →
    (app.exec depth (.perform op)).run w = .ok (r, w') → w'.Unshared →
    Disciplined app lib w' (op.refresh stale)

/-! ## The invariant of disciplined runs -/

namespace World

variable {host : HostId → Host} {now : Answers} {stale : Stale} {w : World κ}

/-- A reload makes stale entries go. -/
theorem Current.reloaded (hw : w.Current host now stale) (h : HostId)
    (selection : Cache.Selection) (cause : Cause) :
    (w.discarded h selection cause).Current host now
      ((Op.reload h selection).refresh stale) where
  tidy := hw.tidy.discarded h selection cause
  clear := hw.clear
  numbered := hw.numbered
  vouched h' n := by
    rw [entry_discarded hw.tidy]
    split
    · exact .inl rfl
    · next hkept =>
      rcases hw.vouched h' n with hempty | ⟨id, c, hc, hhost, hnode, hv⟩
      · exact .inl hempty
      · refine .inr ⟨id, c, hc, hhost, hnode, hv.weaken fun p hp hfine => ⟨fun hstale => ?_, rfl⟩⟩
        -- A path that is covered is no source of an entry that is kept.
        refine hfine ⟨hstale, fun hreload => hkept ⟨hreload.1, ?_⟩⟩
        obtain ⟨rfl, hcovers⟩ := hreload
        cases selection with
        | all => rfl
        | node id => exact hcovers.elim
        | source path =>
          obtain rfl : p = path := hcovers
          simpa [Cache.Selection.selects] using hp

/-- Where loaders find something else, entries are stale. -/
theorem Current.edited (hw : w.Current host now stale) {now' : Answers} (m : κ.Memory) :
    World.Current host now' (fun h p => stale h p ∨ now' h p ≠ now h p)
      { w with memory := m } where
  tidy := hw.tidy
  clear := hw.clear
  numbered := hw.numbered
  vouched h n := by
    rcases hw.vouched h n with hempty | ⟨id, c, hc, hhost, hnode, hv⟩
    · exact .inl hempty
    · refine .inr ⟨id, c, hc, hhost, hnode, hv.weaken fun p _ hfine => ?_⟩
      obtain ⟨hstale, hsame⟩ := not_or.1 hfine
      exact ⟨hstale, (Classical.not_not.1 hsame).symm⟩

/-- Code that stays passive makes no difference. -/
theorem Current.unmoved {lib : Library κ} {w' : World κ}
    (hw : w.Current host (lib.answers host w.memory) stale) (h : lib.Unmoved w w') :
    w'.Current host (lib.answers host w'.memory) stale := by
  rw [h.answers]
  exact hw.same h.caches h.components (hw.clear.of_loans h.loans) h.nextComponent

end World

theorem Application.exec_perform (app : Application κ) (depth : Nat) (op : Op) :
    app.exec (depth + 1) (Program.perform op) =
      Setting.perform ⟨app.host, app.code.under (app.exec depth)⟩ op := by
  show (Setting.perform ⟨app.host, app.code.under (app.exec depth)⟩ op >>= pure) = _
  rw [bind_pure]

section

variable {lib : Library κ} {draw : Factory → Frame → Option Markup × Pipe}
  {host : HostId → Host} {user : Callbacks (Act κ)} {stale : Stale} {w : World κ}

/-- Operations that resolve nothing and run no code. -/
theorem World.Current.of_kept {a : Act κ α} (h : (LayeredViews.current host
      (lib.answers host w.memory) stale w.memory).Kept a)
    (hw : w.Current host (lib.answers host w.memory) stale) :
    a.Wp (· ≠ none) (fun _ w' => w'.Current host (lib.answers host w'.memory) stale) w :=
  (h w ⟨rfl, hw⟩).mono fun _ w' ⟨⟨hm, hw'⟩, _⟩ => by
    rw [hm]
    exact hw'

/-- Every operation that calls no listener keeps entries current. -/
theorem Setting.perform_current (hu : lib.Serves draw user)
    (hw : w.Current host (lib.answers host w.memory) stale) (hun : w.Unshared) {op : Op}
    (hop : op.CallsNoListener)
    (hs : ∀ id c, op.resolved? = some id → w.components.get? id = some c →
      ∀ p, ¬stale c.host p) :
    (perform ⟨host, user⟩ op).Wp (· ≠ none)
      (fun _ w' => w'.Current host (lib.answers host w'.memory) (op.refresh stale)) w := by
  have hB : (LayeredViews.current host (lib.answers host w.memory) stale w.memory).Binding :=
    Act.current_binding
  cases op with
  | freshNode =>
    exact World.Current.of_kept (Act.current_of_same fun _ => ⟨rfl, rfl, rfl, rfl, rfl⟩) hw
  | create h type node as => exact World.Current.of_kept (hB.create h type node as) hw
  | mount h type node as => exact World.Current.of_kept (hB.mount h type node as) hw
  | init id => exact World.Current.of_kept (hB.withComponent id fun c => hB.init id c) hw
  | update id node => exact World.Current.of_kept (Act.current_update id node) hw
  | beforeRemove id =>
    exact World.Current.of_kept (hB.withComponent id fun c => hB.beforeRemove id c) hw
  | remove id => exact World.Current.of_kept (hB.withComponent id fun c => hB.remove id c) hw
  | unmount id => exact World.Current.of_kept (hB.withComponent id fun c => hB.unmount id c) hw
  | hold id as => exact World.Current.of_kept (Contract.hold_of (hB.bindHandle as id)) hw
  | release h => exact World.Current.of_kept (hB.release h) hw
  | views id =>
    refine (Act.wp_resolve (R := fun _ _ => True) hw id (fun c => hs id c rfl) hun
      fun c v _ _ _ hclear hfresh => ?_).mono fun _ _ h => h.2.2
    exact (wp_views hu _ hclear hfresh).mono fun _ _ ⟨_, h⟩ => ⟨trivial, h⟩
  | model id =>
    refine (Act.wp_resolve (R := fun _ _ => True) hw id (fun c => hs id c rfl) hun
      fun c v _ _ _ hclear hfresh => ?_).mono fun _ _ h => h.2.2
    exact (wp_modelWithSources hu _ hclear hfresh).bind fun _ _ ⟨_, _, h⟩ => ⟨trivial, h⟩
  | render id pipe =>
    refine (Act.wp_resolve (R := fun _ _ => True) hw id (fun c => hs id c rfl) hun
      fun c v _ _ _ hclear hfresh => ?_).mono fun _ _ h => h.2.2
    exact (wp_render hu _ hclear hfresh pipe).mono fun _ _ ⟨_, h⟩ => ⟨trivial, h⟩
  | compose views component attrs pipe =>
    exact (wp_compose hu _ component attrs pipe views w).mono fun _ _ ⟨_, h⟩ => hw.unmoved h
  | instantiate cls capability =>
    exact (wp_instantiate hu _ cls capability w).mono fun _ _ ⟨_, h⟩ => hw.unmoved h
  | load h path => exact (wp_load hu _ h path w).mono fun _ _ ⟨_, h⟩ => hw.unmoved h
  | reload h selection =>
    refine (Act.wp_discard h selection (.reload selection)).2 ?_
    split
    · simp
    · exact hw.reloaded h selection _
  | dispatch t event => exact hop.elim
  | listener key => exact World.Current.of_kept (hB.freshListener _) hw
  | add t s => exact World.Current.of_kept (hB.addListener t s) hw
  | removeListener t s => exact World.Current.of_kept (hB.removeListener t s) hw
  | switch t on =>
    exact World.Current.of_kept (Act.current_of_same fun _ => ⟨rfl, rfl, rfl, rfl, rfl⟩) hw
  | bindTo id h s =>
    exact World.Current.of_kept (hB.withComponent id fun c => hB.bindAll h id c s) hw
  | unbindFrom id h s =>
    exact World.Current.of_kept (hB.withComponent id fun _ => hB.unbindAll h s) hw
  | invoke listener event => exact hop.elim

/-- What rendering a component gives depends on the component and on what loaders find. -/
theorem Setting.perform_render (hu : lib.Serves draw user) (E : Option Halt → Prop)
    (hw : w.Current host (lib.answers host w.memory) stale) (hun : w.Unshared) (id : ComponentId)
    (hs : ∀ c, w.components.get? id = some c → ∀ p, ¬stale c.host p) (pipe : Pipe) :
    (perform ⟨host, user⟩ (.render id pipe)).Wp E (fun r _ =>
      r = (w.components.get? id).map fun c => c.renderAnew (host c.host).config
        (lib.answers host w.memory c.host) draw c.node.attrs pipe) w := by
  refine (Act.wp_resolve (R := fun c x => x = c.renderAnew (host c.host).config
      (lib.answers host w.memory c.host) draw c.node.attrs pipe) hw id hs hun
    fun c v hc hv hm hclear hfresh => ?_).mono fun r _ ⟨hr, _⟩ => ?_
  · refine (wp_render hu _ hclear hfresh pipe).mono fun x _ ⟨hx, hrest⟩ => ⟨?_, hrest⟩
    have hget : v.components.get? id = some c := by rw [hv, hc]
    rw [hx, World.current_of_get? hget, hm]
  · cases hc : w.components.get? id with
    | none =>
      rw [hc] at hr
      exact hr
    | some c =>
      rw [hc] at hr
      obtain ⟨x, rfl, hx⟩ := hr
      rw [hx]
      rfl

end

section

variable {app : Application κ} {lib : Library κ}
  {draw : Factory → Frame → Option Markup × Pipe} {stale : Stale} {w : World κ}

/-- Disciplined runs of passive applications keep their entries current. -/
theorem Application.Disciplined.current (hcode : app.Passive lib draw)
    (h : app.Disciplined lib w stale) :
    w.Current app.host (lib.answers app.host w.memory) stale ∧ w.Unshared := by
  induction h with
  | start targets memory => exact ⟨World.current_start targets memory, fun _ _ _ _ h => by cases h⟩
  | edit m _ ih => exact ⟨ih.1.edited m, ih.2⟩
  | note n _ ih => exact ⟨ih.1.same rfl rfl ih.1.clear rfl, ih.2⟩
  | op op depth r _ hop hs hrun hun ih =>
    refine ⟨?_, hun⟩
    cases depth with
    | zero => cases hrun
    | succ depth =>
      rw [app.exec_perform] at hrun
      have kept := Setting.perform_current (hcode.serves depth) ih.1 ih.2 hop hs
      rw [Act.Wp, hrun] at kept
      exact kept

/-- **Entries make no difference.** Take any run of a passive application: components made, mounted,
moved, removed and dropped, resolved and rendered, in any order, and changes of what loaders find,
each followed by a reload of the paths concerned before a component is resolved again. Rendering a
component ends, and gives the output or error and leaves the pipe that follow from the component and
from what loaders find now; so it does in the same world without entries. -/
theorem render_eq_anew (hcode : app.Passive lib draw) (h : app.Disciplined lib w stale)
    (id : ComponentId) (hs : ∀ c, w.components.get? id = some c → ∀ p, ¬stale c.host p)
    (pipe : Pipe) (depth : Nat) :
    ∃ r w₁ w₂, (app.exec (depth + 1) (.perform (.render id pipe))).run w = .ok (r, w₁) ∧
      (app.exec (depth + 1) (.perform (.render id pipe))).run { w with caches := ∅ } =
        .ok (r, w₂) ∧
      r = (w.components.get? id).map fun c => c.renderAnew (app.host c.host).config
        (lib.answers app.host w.memory c.host) draw c.node.attrs pipe := by
  obtain ⟨hw, hun⟩ := h.current hcode
  have hserves : lib.Serves draw (app.code.under (app.exec depth)) := hcode.serves depth
  rw [app.exec_perform]
  obtain ⟨r, w₁, hrun, hr⟩ := (Setting.perform_render hserves _ hw hun id hs pipe).run_eq
  obtain ⟨r', w₂, hrun', hr'⟩ :=
    (Setting.perform_render (w := { w with caches := ∅ }) hserves _ hw.emptied hun id hs
      pipe).run_eq
  obtain rfl : r = r' := hr.trans hr'.symm
  exact ⟨r, w₁, w₂, hrun, hrun', hr⟩

end

namespace Renewed

/-- The memory says whether the class of the view has been renewed. -/
abbrev client : Client := ⟨Bool, Empty⟩

def path : String := "views/components/banner"

/-- The registry before and after the class was renewed. -/
def library : Library client where
  registry renewed _ :=
    ⟨Dict.ofList [(path, if renewed then Class.view 1 "New" ⟨1, "New"⟩
      else Class.view 0 "Old" ⟨0, "Old"⟩)]⟩
  broken _ _ := none

/-- A view shows which class it is of. -/
def draw (factory : Factory) (frame : Frame) : Option Markup × Pipe :=
  (some (.text factory.owner), frame.pipe)

def application : Application client where
  host _ := { loader := .code 0 }
  code :=
    { load := fun key p => .look fun w => .done (library.answer w.memory (.code key) p)
      make := fun _ => .done ()
      render := fun inst frame => .done (draw inst.factory frame)
      handle := fun _ _ _ => .done ()
      listen := fun _ _ => .done () }

theorem passive : application.Passive library draw :=
  ⟨fun _ _ _ => ⟨rfl, rfl⟩, fun _ _ => rfl, fun _ _ _ => ⟨rfl, rfl⟩⟩

/-- A component type without views: its name stands for one. -/
def type : ComponentType where
  own := { label := "Banner", definer := some ⟨"Banner", [⟨"name", [.text "banner"]⟩]⟩ }

/-- The world after an operation. -/
def after (w : World client) (op : Op) : World client :=
  match (application.exec 1 (.perform op)).run w with
  | .ok (_, v) => v
  | .error _ => w

/-- The operation ends, and there is one component then. -/
def endsWithOne (w : World client) (op : Op) : Bool :=
  match (application.exec 1 (.perform op)).run w with
  | .ok (_, v) => v.components.keys == [0]
  | .error _ => false

theorem disciplined_after {w : World client} {stale : Stale} {op : Op}
    (h : application.Disciplined library w stale) (hop : op.CallsNoListener)
    (hs : ∀ id c, op.resolved? = some id → w.components.get? id = some c →
      ∀ p, ¬stale c.host p)
    (hends : endsWithOne w op = true) :
    application.Disciplined library (after w op) (op.refresh stale) := by
  unfold endsWithOne at hends
  unfold after
  cases hrun : (application.exec 1 (.perform op)).run w with
  | error e => simp [hrun] at hends
  | ok p =>
    obtain ⟨r, v⟩ := p
    simp only [hrun, beq_iff_eq] at hends ⊢
    have only : ∀ i c, v.components.get? i = some c → i = 0 := fun i c hc => by
      have hi : i ∈ v.components.keys := Dict.mem_keys.2 ⟨c, hc⟩
      rw [hends] at hi
      exact List.mem_singleton.1 hi
    exact .op op 1 r h hop hs hrun fun i j c d hi hj _ _ => (only i c hi).trans (only j d hj).symm

def start : World client := World.start ∅ false

def mounted : World client := after start (.mount 0 type ⟨1, ∅⟩ ⟨0, "banner"⟩)

def rendered : World client := after mounted (.render 0 ∅)

/-- The class has been renewed after it was used, and its path was reloaded. -/
def reloaded : World client := after { rendered with memory := true } (.reload 0 (.source path))

def stale : Stale :=
  (Op.reload 0 (.source path)).refresh fun h p => False ∨
    library.answers application.host true h p ≠
      library.answers application.host rendered.memory h p

theorem disciplined : application.Disciplined library reloaded stale := by
  have hstart : application.Disciplined library start fun _ _ => False :=
    Application.Disciplined.start (κ := client) ∅ false
  have hmounted : application.Disciplined library mounted fun _ _ => False :=
    disciplined_after hstart trivial (fun _ _ _ _ _ => id) (by decide +kernel)
  have hrendered : application.Disciplined library rendered fun _ _ => False :=
    disciplined_after hmounted trivial (fun _ _ _ _ _ => id) (by decide +kernel)
  exact disciplined_after (.edit true hrendered) trivial (fun _ _ h => nomatch h)
    (by decide +kernel)

theorem host_reloaded : (reloaded.components.get? 0).map Component.host = some 0 := by
  decide +kernel

theorem not_stale (p : String) : ¬stale 0 p := by
  rintro ⟨hstale, hcovered⟩
  rcases hstale with hfalse | hchanged
  · exact hfalse
  · have hp : p ≠ path := fun he => hcovered ⟨rfl, he⟩
    have hm : rendered.memory = false := by decide +kernel
    refine hchanged ?_
    rw [hm]
    simp [Library.answers, Library.answer, application, library, ClassRegistry.load, Dict.ofList,
      Dict.get?_insert, hp]

/-- The output and the pipe of a rendering that has not failed. -/
def shown : Option (Except Error (Option Markup) × Pipe) → Option (Option Markup × Pipe)
  | some (.ok output, pipe) => some (output, pipe)
  | _ => none

theorem eq_of_shown {r : Option (Except Error (Option Markup) × Pipe)}
    {output : Option Markup} {pipe : Pipe} (h : shown r = some (output, pipe)) :
    r = some (.ok output, pipe) := by
  rcases r with _ | ⟨_ | output, pipe⟩
  · cases h
  · cases h
  · cases h
    rfl

/-- What the component shows: the renewed class. -/
theorem shown_reloaded :
    shown ((reloaded.components.get? 0).map fun c => c.renderAnew (application.host c.host).config
      (library.answers application.host reloaded.memory c.host) draw c.node.attrs ∅) =
        some (some (.text "New"), ∅) := by
  decide +kernel

end Renewed

/-- A class is renewed between two renderings of a component: the second one shows the new
class. -/
theorem render_eq_anew_renewed :
    Renewed.application.Passive Renewed.library Renewed.draw ∧
      Renewed.application.Disciplined Renewed.library Renewed.reloaded Renewed.stale ∧
      (∀ c, Renewed.reloaded.components.get? 0 = some c → ∀ p, ¬Renewed.stale c.host p) ∧
      ∃ w₁ w₂,
        (Renewed.application.exec 1 (.perform (.render 0 ∅))).run Renewed.reloaded =
          .ok (some (.ok (some (.text "New")), ∅), w₁) ∧
        (Renewed.application.exec 1 (.perform (.render 0 ∅))).run
          { Renewed.reloaded with caches := ∅ } =
            .ok (some (.ok (some (.text "New")), ∅), w₂) := by
  have hs : ∀ c, Renewed.reloaded.components.get? 0 = some c → ∀ p, ¬Renewed.stale c.host p := by
    intro c hc p
    have hhost := Renewed.host_reloaded
    rw [hc, Option.map_some, Option.some.injEq] at hhost
    rw [hhost]
    exact Renewed.not_stale p
  obtain ⟨r, w₁, w₂, hrun, hrun', hr⟩ :=
    render_eq_anew Renewed.passive Renewed.disciplined 0 hs ∅ 0
  obtain rfl := hr.trans (Renewed.eq_of_shown Renewed.shown_reloaded)
  exact ⟨Renewed.passive, Renewed.disciplined, hs, w₁, w₂, hrun, hrun'⟩

end LayeredViews
