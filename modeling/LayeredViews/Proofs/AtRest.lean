import LayeredViews.Proofs.Abreast

/-!
# Worlds at rest

Between operations a world is at rest. An operation that begins in a divided world at rest, and is on
a component that does not belong to the share, leaves the share undisturbed.

* `World.AtRest`: nothing is under way; kept by all operations that leave listeners to components
  (`Program.wp_atRest`).
* `Act.run_update` and the lemmas near it: operations where nothing is in use, as functions of the
  world.
* `Initialized.beside`, `Unbound.beside`: listeners of other components.
* `Setting.wp_mount_beside` and the lemmas near it: operations on other components.
-/

namespace LayeredViews

variable {κ : Client} {S α β : Type} {inner : Inner κ S} {host : HostId → Host}
  {mine : Handle → Bool} {s : Share} {T U : Ties} {w v w' v' : World κ}
  {user : Callbacks (Act κ)}

/-! ## Worlds at rest -/

/-- No operation is under way: nothing is in use, variables hold all components, and listeners are
accounted for. -/
structure World.AtRest (host : HostId → Host) (w : World κ) : Prop where
  accounted : Accounted host w
  tenure : Tenure none w
  loans : w.loans = []
  pins : w.pins = []

theorem World.free_of_nil (hl : w.loans = []) (cell : Cell) (access : Access) :
    w.conflicts cell access = false := by
  rw [conflicts, hl]
  rfl

theorem World.clear_of_nil (hl : w.loans = []) : w.Clear := fun l h => by
  rw [hl] at h
  cases h

/-- The world after a variable got a component; what it held before was let go. -/
def World.rebound (w : World κ) (as : Handle) (i : ComponentId) : World κ :=
  World.vacated { w with handles := w.handles.insert as i } (w.handles.get? as)

theorem World.loans_rebound (w : World κ) (as : Handle) (i : ComponentId) :
    (w.rebound as i).loans = w.loans := World.loans_vacated _ _

theorem World.pins_rebound (w : World κ) (as : Handle) (i : ComponentId) :
    (w.rebound as i).pins = w.pins := World.pins_vacated _ _

theorem World.AtRest.holds (hw : w.AtRest host) {i : ComponentId} {c : Component}
    (hc : w.components.get? i = some c) : w.holds i = true := by
  refine World.holds_of_inVariable
    ((hw.tenure.held i _ (World.location_of_get? hc) nofun).resolve_right fun hmem => ?_)
  rw [hw.pins] at hmem
  cases hmem

/-- Quiet code changes nothing that operations are answerable for. -/
theorem Contract.Open.noted {C : Contract κ} (hC : C.Open) (hw : C.inv w) (h : w.Noted v) :
    C.inv v ∧ C.step w v := by
  obtain ⟨notes, hv⟩ := h
  rw [hv]
  clear hv
  generalize v.memory = m
  induction notes with
  | nil => exact hC.memory hw m
  | cons n rest ih =>
    obtain ⟨hinv, hstep⟩ := hC.note ih.1 n
    exact ⟨hinv, C.trans ih.2 hstep⟩

theorem Inner.Serves.keptBy (hu : inner.Serves user) {C : Contract κ} (hC : C.Open) :
    C.KeptBy user where
  load key path w hw := (hu.load _ key path w).mono fun _ _ h => hC.noted hw h.2
  make inst w hw := (hu.make _ inst w).mono fun _ _ h => hC.noted hw h.2
  render inst frame w hw := (hu.render _ inst frame w).mono fun _ _ h => hC.noted hw h.2
  handle method c event w hw := (hu.handle _ method c event w).mono fun _ _ h => hC.noted hw h.2
  listen key event w hw := (hu.listen _ key event w).mono fun _ _ h => hC.noted hw h.2

/-- A run comes to rest again. -/
theorem Program.wp_atRest (hu : inner.Serves user) {prog : Program κ α}
    (hprog : prog.Uses Op.Managed) (hw : w.AtRest host) :
    (prog.run (Setting.perform ⟨host, user⟩)).Wp (· ≠ none) (fun _ v => v.AtRest host) w := by
  have hacc := (accounted_managing (κ := κ) host).sound
  have hten := tenure_sound (κ := κ) host
  have kept : (Contract.leaving (Accounted host) World.loans).Kept
      (prog.run (Setting.perform ⟨host, user⟩)) :=
    .run hacc.toOpen (hacc.perform user (hu.keptBy hacc.toOpen)) hprog
  have kept' : tenure.Kept (prog.run (Setting.perform ⟨host, user⟩)) :=
    .run hten.toOpen (fun op _ => hten.perform user (hu.keptBy hten.toOpen) op trivial) hprog
  refine ((kept w hw.accounted).and (kept' w hw.tenure)).mono fun _ v ⟨⟨ha, hl⟩, ht, hp⟩ => ?_
  exact ⟨ha, ht, hl.trans hw.loans, hp.trans hw.pins⟩

theorem World.atRest_start {targets : Dict TargetId EventTarget}
    (hempty : ∀ t target, targets.get? t = some target → target.listeners = [])
    (memory : κ.Memory) : (World.start targets memory).AtRest host :=
  ⟨accounted_start hempty memory, tenure_start targets memory, rfl, rfl⟩

theorem Accounted.pin (ha : Accounted host w) (i : ComponentId) : Accounted host (w.pin i) :=
  ha.still (.of_eq rfl rfl rfl rfl (Nat.le_refl _))

theorem Accounted.recorded (ha : Accounted host w) (record : List (Occurrence κ)) :
    Accounted host { w with record } := ha.still (.of_eq rfl rfl rfl rfl (Nat.le_refl _))

/-! ## Operations where nothing is in use -/

/-- The world after a component was moved to a node. -/
def World.moved (w : World κ) (i : ComponentId) (c : Component) (node : Node) : World κ :=
  if c.node.id = node.id then w.setComponent i { c with node }
  else (w.setComponent i { c with node }).discarded c.host (.node c.node.id) (.update i)

/-- The world after the definers of a type were run. -/
def World.ran (w : World κ) (type : ComponentType) : World κ :=
  { w with record := (type.build.ran.map .defined).reverse ++ w.record }

namespace Act

/-- An action whose first step is known. -/
theorem wp_step {E : Option Halt → Prop} {Q : β → World κ → Prop} {a : Act κ α}
    {f : α → Act κ β} {x : α} (h : a.run w = .ok (x, v)) (hf : (f x).Wp E Q v) :
    (a >>= f).Wp E Q w := by
  rw [wp_bind, Wp, h]
  exact hf

theorem run_bindHandle (hl : w.loans = []) (as : Handle) (i : ComponentId) :
    (bindHandle as i).run w = .ok ((), w.rebound as i) :=
  run_of_wp ((wp_bindHandle_free as i fun _ => World.free_of_nil hl _ _).2 ⟨rfl, rfl⟩)

theorem run_release_none {x : Handle} (hx : w.handles.get? x = none) :
    (release x).run w = .ok (false, w) :=
  run_of_wp ((wp_release x).2 (by simp [hx]))

theorem run_release_some (hl : w.loans = []) {x : Handle} {i : ComponentId}
    (hx : w.handles.get? x = some i) : (release x).run w =
      .ok (true, World.settled { w with handles := w.handles.erase x } i) := by
  refine run_of_wp ((wp_release x).2 ?_)
  rw [hx]
  dsimp only
  rw [wp_settle_free (w := { w with handles := w.handles.erase x }) i
    fun _ => World.free_of_nil hl _ _]
  exact ⟨rfl, rfl⟩

theorem run_pinned {i : ComponentId} {body : Act κ α} {x : α}
    (h : body.run (w.pin i) = .ok (x, v)) (hl : v.loans = []) :
    (pinned i body).run w = .ok (x, v.unpin.settled i) := by
  refine run_of_wp ?_
  rw [wp_pinned, Wp, h]
  exact (wp_settle_free i fun _ => World.free_of_nil (w := v.unpin) hl _ _).2 ⟨rfl, rfl⟩

theorem run_withComponent {i : ComponentId} {c : Component} {body : Component → Act κ α} {x : α}
    (hc : w.components.get? i = some c) (h : (body c).run (w.pin i) = .ok (x, v))
    (hl : v.loans = []) : (withComponent i body).run w = .ok (some x, v.unpin.settled i) := by
  have hmap : (some <$> body c).run (w.pin i) = .ok (some x, v) := by
    rw [StateT.run_map, h]
    rfl
  refine run_of_wp ?_
  rw [wp_withComponent, hc]
  dsimp only
  rw [Wp, run_pinned hmap hl]
  exact ⟨rfl, rfl⟩

theorem run_update (hl : w.loans = []) {i : ComponentId} {c : Component}
    (hc : w.components.get? i = some c) (node : Node) :
    (Act.update i c node).run w = .ok (node.id, w.moved i c node) := by
  refine run_of_wp ?_
  unfold Act.update
  rw [wp_bind, wp_swapNode hc, if_neg (by simp [World.free_of_nil hl]), wp_bind, wp_nodeOf,
    if_neg (by simp [World.free_of_nil (w := w.setComponent i _) hl]),
    World.current_of_get? (Dict.get?_insert_self ..), wp_ite, World.moved]
  dsimp only
  split
  · exact ⟨rfl, rfl⟩
  · rw [wp_bind, wp_discard, if_neg (by simp [World.free_of_nil (w := w.setComponent i _) hl])]
    exact ⟨rfl, rfl⟩

theorem run_remove (hl : w.loans = []) (i : ComponentId) (c : Component) :
    (Act.remove i c).run w = .ok ((),
      w.discarded c.host (.node (w.current i c).node.id) (.remove i)) := by
  refine run_of_wp ?_
  unfold Act.remove
  rw [wp_bind, wp_nodeOf, if_neg (by simp [World.free_of_nil hl]), wp_bind, wp_discard,
    if_neg (by simp [World.free_of_nil hl])]
  exact ⟨rfl, rfl⟩

theorem run_reload (hl : w.loans = []) (h : HostId) (selection : Cache.Selection) :
    (reload h selection).run w = .ok (((w.cache h).reload selection).1.length,
      w.discarded h selection (.reload selection)) := by
  refine run_of_wp ((wp_discard _ _ _).2 ?_)
  rw [if_neg (by simp [World.free_of_nil hl])]
  exact ⟨rfl, rfl⟩

theorem run_freshComponent (w : World κ) (c : Component) :
    (freshComponent c).run w = .ok (w.nextComponent, w.withComponent c) := rfl

theorem run_buildType (w : World κ) (type : ComponentType) :
    (buildType type).run w = .ok (type.build.result, w.ran type) :=
  run_of_wp ((wp_buildType type).2 ⟨rfl, rfl⟩)

end Act

theorem Initialized.frame {i : ComponentId} {c : Component} {r : Except Error Unit}
    (h : Initialized host i c w r v) :
    v.loans = w.loans ∧ v.pins = w.pins ∧ v.nextComponent = w.nextComponent := by
  cases h with
  | absent => exact ⟨rfl, rfl, rfl⟩
  | refused => exact ⟨rfl, rfl, rfl⟩
  | bound t hp hb added w₁ hr =>
    rw [World.setSubscriptions, World.setComponent, hr.rest]
    exact ⟨rfl, rfl, rfl⟩

theorem Unbound.frame {i : ComponentId} {c : Component} {n : Nat} (h : Unbound host i c w n v) :
    v.loans = w.loans ∧ v.pins = w.pins := by
  cases h with
  | absent => exact ⟨rfl, rfl⟩
  | removed t hp w₁ hr =>
    rw [World.setSubscriptions, World.setComponent, hr.rest]
    exact ⟨rfl, rfl⟩

/-! ## Beside the share -/

namespace World

theorem Divided.current_node (hdiv : w.Divided host mine s) {i : ComponentId}
    (hi : ¬s.component i) {c : Component} (hn : ¬s.node c.node.id) :
    ¬s.node (w.current i c).node.id := by
  rw [current, Dict.getD]
  cases hc : w.components.get? i with
  | none => exact hn
  | some d => exact fun hd => hi ((hdiv.placed i d hc).2 hd)

namespace Beside

theorem recorded (hw : w.Divided host mine s) (record : List (Occurrence κ)) :
    w.Beside inner host mine s { w with record } := (Worked.recorded hw record).toBeside

theorem pin (hw : w.Divided host mine s) (i : ComponentId) :
    w.Beside inner host mine s (w.pin i) :=
  .of_eq hw rfl rfl rfl rfl rfl (Nat.le_refl _) (Nat.le_refl _) rfl fun _ _ => rfl

theorem unpin (hw : w.Divided host mine s) : w.Beside inner host mine s w.unpin :=
  .of_eq hw rfl rfl rfl rfl rfl (Nat.le_refl _) (Nat.le_refl _) rfl fun _ _ => rfl

theorem setComponent (hw : w.Divided host mine s) {i : ComponentId} (hi : ¬s.component i)
    {c d : Component} (hc : w.components.get? i = some c) (hh : d.host = c.host)
    (hn : ¬s.node d.node.id) : w.Beside inner host mine s (w.setComponent i d) :=
  ⟨.setComponent hi d, hw.setComponent hc hh (iff_of_false hi hn), rfl⟩

theorem discarded (hw : w.Divided host mine s) {n : NodeId} (hn : ¬s.node n) (h : HostId)
    (cause : Cause) : w.Beside inner host mine s (w.discarded h (.node n) cause) :=
  ⟨.discarded hw.tidy hn h cause, hw.discarded h _ cause, rfl⟩

/-- A variable of the rest gets a component of the rest; what it held may be dropped. -/
theorem rebound (hw : w.Divided host mine s) {as : Handle} (has : mine as = false)
    {i : ComponentId} (hi : ¬s.component i) (hlt : i < w.nextComponent) :
    w.Beside inner host mine s (w.rebound as i) := by
  have hbound : w.Beside inner host mine s { w with handles := w.handles.insert as i } :=
    ⟨.bound has i, hw.bound hlt (iff_of_false (by simp [has]) hi), rfl⟩
  exact hbound.trans (.vacated hbound.divided fun old hold hs =>
    Bool.noConfusion (has.symm.trans ((hw.held as old hold).2.2 hs)))

/-- Listeners of the rest were registered or removed. -/
theorem retargeted (hw : w.Divided host mine s)
    (hv : v = { w with
      targets := v.targets, nextListener := v.nextListener, record := v.record })
    (heard : ∀ t, s.heard (v.target t) = s.heard (w.target t))
    (runtime : ∀ t, (v.target t).present = (w.target t).present ∧
      (v.target t).switchable = (w.target t).switchable) : w.Beside inner host mine s v where
  handles _ _ := by rw [hv]
  components _ _ := by rw [hv]
  entries h n _ := entry_of_caches (by rw [hv]) h n
  heard := heard
  present t := (runtime t).1
  switchable t := (runtime t).2
  states _ _ := by rw [hv]
  divided := hw.of_eq (by rw [hv]) (by rw [hv]) (by rw [hv]) (by rw [hv])
    (Nat.le_of_eq (by rw [hv])) (Nat.le_of_eq (by rw [hv]))
  loans := by rw [hv]

end Beside

end World

open World

section

variable {i : ComponentId} {c : Component} (hdiv : w.Divided host mine s)
  (hi : ¬s.component i) (hc : w.components.get? i = some c)
include hdiv hi hc

theorem Initialized.beside {r : Except Error Unit} (h : Initialized host i c w r v) :
    w.Beside inner host mine s v := by
  have hn : ¬s.node c.node.id := fun hn => hi ((hdiv.placed i c hc).2 hn)
  cases h with
  | absent hp => exact .recorded hdiv _
  | refused t hp hb => exact .refl hdiv
  | bound t hp hb added w₁ hr =>
    have hreg : w.Beside inner host mine s w₁ :=
      .retargeted hdiv hr.rest (hr.heard_other hi) hr.runtime
    have hc₁ : w₁.components.get? i = some c := by rw [hr.components, hc]
    have hset := hreg.trans (.setComponent hreg.divided hi hc₁
      (d := { c with subscriptions := ⟨true, added⟩ }) rfl hn)
    exact hset.trans (.recorded hset.divided _)

theorem Unbound.beside (ha : Accounted host w) {n : Nat} (h : Unbound host i c w n v) :
    w.Beside inner host mine s v := by
  have hn : ¬s.node c.node.id := fun hn => hi ((hdiv.placed i c hc).2 hn)
  cases h with
  | absent hp => exact .recorded hdiv _
  | removed t hp w₁ hr =>
    have ht := target_of_present hp
    have hc₁ : w₁.components.get? i = some c := by rw [hr.rest, hc]
    have hreg : w.Beside inner host mine s w₁ :=
      .retargeted hdiv (by rw [hr.rest]) (hr.heard_other ha hc ht hi)
        (hr.runtime ha.toSubscribed hc ht)
    have hset := hreg.trans (.setComponent hreg.divided hi hc₁
      (d := { c with subscriptions := ∅ }) rfl hn)
    exact hset.trans (.recorded hset.divided _)

end

/-! ## Operations on the rest -/

/-- A new component comes to the rest. -/
theorem World.Beside.withComponent (ha : Accounted host w) (hw : w.Divided host mine s)
    {c : Component} (hn : ¬s.node c.node.id) :
    w.Beside inner host mine s (w.withComponent c) := by
  have hnext : ¬s.component w.nextComponent := fun h => Nat.lt_irrefl _ (hw.component _ h)
  refine ⟨.withComponent hnext c, ?_, rfl⟩
  exact hw.withComponent (fun _ _ => Iff.rfl) (iff_of_false hnext hn)
    (fun i hi => Nat.le_of_lt (hw.component i hi)) ha.fresh fun h => absurd h hnext

/-- An action that holds a component of the rest meanwhile. -/
theorem Act.wp_pinned_beside (hl : w.loans = []) (hdiv : w.Divided host mine s) {i : ComponentId}
    (hi : ¬s.component i) {body : Act κ α}
    (hbody : (w.pin i).Divided host mine s →
      body.Wp (fun _ => False) (fun _ v => (w.pin i).Beside inner host mine s v) (w.pin i)) :
    (pinned i body).Wp (fun _ => False) (fun _ v => w.Beside inner host mine s v) w := by
  have hpin : w.Beside inner host mine s (w.pin i) := .pin hdiv i
  obtain ⟨x, v, hr, hv⟩ := (hbody hpin.divided).run_eq
  rw [Wp, run_pinned hr (hv.loans.trans hl)]
  have hend : v.Beside inner host mine s v.unpin := .unpin hv.divided
  exact ((hpin.trans hv).trans hend).trans (.settled hend.divided hi)

section

variable (hw : w.AtRest host) (hdiv : w.Divided host mine s)
include hw hdiv

/-- An operation on a component of the rest. -/
theorem Act.wp_withComponent_beside {i : ComponentId} (hi : ¬s.component i)
    {body : Component → Act κ α}
    (hbody : ∀ c, w.components.get? i = some c → (w.pin i).Divided host mine s →
      ¬s.node c.node.id →
      (body c).Wp (fun _ => False) (fun _ v => (w.pin i).Beside inner host mine s v) (w.pin i)) :
    (withComponent i body).Wp (fun _ => False) (fun _ v => w.Beside inner host mine s v) w := by
  rw [wp_withComponent]
  cases hc : w.components.get? i with
  | none => exact .refl hdiv
  | some c =>
    have hn : ¬s.node c.node.id := fun hn => hi ((hdiv.placed i c hc).2 hn)
    exact wp_pinned_beside hw.loans hdiv hi fun hpin => (wp_map _ _).2 (hbody c hc hpin hn)

namespace Setting

theorem wp_init_beside {i : ComponentId} (hi : ¬s.component i) :
    (Act.withComponent i fun c => init ⟨host, user⟩ i c).Wp (fun _ => False)
      (fun _ v => w.Beside inner host mine s v) w :=
  Act.wp_withComponent_beside hw hdiv hi fun _ hc hpin _ =>
    (wp_init (hw.accounted.pin _).toSubscribed hc).mono fun _ _ h => h.beside hpin hi hc

theorem wp_beforeRemove_beside {i : ComponentId} (hi : ¬s.component i) :
    (Act.withComponent i fun c => beforeRemove ⟨host, user⟩ i c).Wp (fun _ => False)
      (fun _ v => w.Beside inner host mine s v) w :=
  Act.wp_withComponent_beside hw hdiv hi fun _ hc hpin _ =>
    (wp_beforeRemove (hw.accounted.pin _).toSubscribed hc).mono fun _ _ h =>
      h.beside hpin hi hc (hw.accounted.pin _)

theorem wp_update_beside {i : ComponentId} (hi : ¬s.component i) {node : Node}
    (hn : ¬s.node node.id) : (Act.withComponent i fun c => Act.update i c node).Wp (fun _ => False)
      (fun _ v => w.Beside inner host mine s v) w := by
  refine Act.wp_withComponent_beside hw hdiv hi fun c hc hpin hn' => ?_
  rw [Act.Wp, Act.run_update (w := w.pin i) hw.loans hc, World.moved]
  have hset : (w.pin i).Beside inner host mine s ((w.pin i).setComponent i { c with node }) :=
    .setComponent hpin hi hc rfl hn
  dsimp only
  split
  · exact hset
  · exact hset.trans (.discarded hset.divided hn' _ _)

theorem wp_remove_beside {i : ComponentId} (hi : ¬s.component i) :
    (Act.withComponent i fun c => Act.remove i c).Wp (fun _ => False)
      (fun _ v => w.Beside inner host mine s v) w := by
  refine Act.wp_withComponent_beside hw hdiv hi fun c hc hpin hn => ?_
  rw [Act.Wp, Act.run_remove (w := w.pin i) hw.loans]
  exact .discarded hpin (hpin.current_node hi hn) _ _

theorem wp_unmount_beside {i : ComponentId} (hi : ¬s.component i) :
    (Act.withComponent i fun c => unmount ⟨host, user⟩ i c).Wp (fun _ => False)
      (fun _ v => w.Beside inner host mine s v) w := by
  refine Act.wp_withComponent_beside hw hdiv hi fun c hc hpin hn => ?_
  refine (wp_beforeRemove (hw.accounted.pin _).toSubscribed hc).bind fun n v h => ?_
  have hv : (w.pin i).Beside inner host mine s v := h.beside hpin hi hc (hw.accounted.pin _)
  refine Act.wp_step (Act.run_remove (hv.loans.trans hw.loans) i c) ?_
  have hgone := hv.trans (.discarded hv.divided (hv.divided.current_node hi hn) c.host (.remove i))
  exact hgone.trans (.recorded hgone.divided _)

theorem wp_hold_beside {i : ComponentId} (hi : ¬s.component i) {as : Handle}
    (has : mine as = false) : (perform ⟨host, user⟩ (.hold i as)).Wp (fun _ => False)
      (fun _ v => w.Beside inner host mine s v) w := by
  refine (Act.wp_bind (α := Bool) get _).2 (Act.wp_get.2 ((Act.wp_ite _ _).2 ?_))
  split
  · next hc =>
    obtain ⟨c, hc⟩ := Option.isSome_iff_exists.1 hc
    exact Act.wp_step (Act.run_bindHandle hw.loans as i)
      (.rebound hdiv has hi (hw.accounted.fresh i c hc))
  · exact .refl hdiv

theorem wp_release_beside {x : Handle} (hx : mine x = false) :
    (Act.release x).Wp (fun _ => False) (fun _ v => w.Beside inner host mine s v) w := by
  cases hold : w.handles.get? x with
  | none =>
    rw [Act.Wp, Act.run_release_none hold]
    exact .refl hdiv
  | some old =>
    rw [Act.Wp, Act.run_release_some hw.loans hold]
    have hreleased : w.Beside inner host mine s { w with handles := w.handles.erase x } :=
      ⟨.released hx, hdiv.released x, rfl⟩
    exact hreleased.trans (.settled hreleased.divided fun hs =>
      Bool.noConfusion (hx.symm.trans ((hdiv.held x old hold).2.2 hs)))

section

variable {h : HostId} {type : ComponentType} {node : Node} {as : Handle} (has : mine as = false)
  (hn : ∀ metadata, type.build.result = .ok metadata → ¬s.node node.id)
include has hn

theorem wp_create_beside : (Act.create h type node as).Wp (fun _ => False)
    (fun _ v => w.Beside inner host mine s v) w := by
  have hran : w.Beside inner host mine s (w.ran type) := .recorded hdiv _
  have hacc : Accounted host (w.ran type) := hw.accounted.recorded _
  refine Act.wp_step (Act.run_buildType w type) ?_
  cases hb : type.build.result with
  | error e => exact hran
  | ok metadata =>
    have hadded := hran.trans (.withComponent hacc hran.divided
      (c := { type, metadata, host := h, node }) (hn metadata hb))
    refine Act.wp_step (Act.run_freshComponent _ _)
      (Act.wp_step (Act.run_bindHandle (hadded.loans.trans hw.loans) as _) ?_)
    exact hadded.trans (.rebound hadded.divided has
      (fun hs => Nat.lt_irrefl _ (hdiv.component _ hs)) (Nat.lt_succ_self _))

theorem wp_mount_beside : (mount ⟨host, user⟩ h type node as).Wp (fun _ => False)
    (fun _ v => w.Beside inner host mine s v) w := by
  have hran : w.Beside inner host mine s (w.ran type) := .recorded hdiv _
  have hacc : Accounted host (w.ran type) := hw.accounted.recorded _
  refine Act.wp_step (Act.run_buildType w type) ?_
  cases hb : type.build.result with
  | error e => exact hran
  | ok metadata =>
    have hnext : ¬s.component w.nextComponent := fun hs => Nat.lt_irrefl _ (hdiv.component _ hs)
    let c : Component := { type, metadata, host := h, node }
    have hadded := hran.trans (.withComponent hacc hran.divided (c := c) (hn metadata hb))
    refine Act.wp_step (Act.run_freshComponent _ c) ?_
    refine (Act.wp_pinned_beside (hadded.loans.trans hw.loans) hadded.divided hnext
      fun hpin => ?_).mono fun _ _ hv => hadded.trans hv
    refine (wp_init ((hacc.added (c := c) hb rfl).pin _).toSubscribed
      (Dict.get?_insert_self ..)).bind fun r v hinit => ?_
    have hbound : (((w.ran type).withComponent c).pin w.nextComponent).Beside inner host mine s v :=
      hinit.beside hpin hnext (Dict.get?_insert_self ..)
    cases r with
    | error e => exact hbound
    | ok _ =>
      have htold := hbound.trans (.recorded hbound.divided (.mounted w.nextComponent :: v.record))
      refine Act.wp_step rfl (Act.wp_step (Act.run_bindHandle (htold.loans.trans hw.loans) as _) ?_)
      exact htold.trans (.rebound htold.divided has hnext
        (hinit.frame.2.2.symm ▸ Nat.lt_succ_self _))

end

end Setting

end

end LayeredViews
