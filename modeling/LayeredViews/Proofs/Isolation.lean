import LayeredViews.Proofs.Commands

/-!
# Isolation of components

No node is ever given to components of both sides. What is done with the components of the one side
makes no difference to the other, even if views and view models have states of their own.

* `Command.wp_beside`: a command that concerns the other side leaves the share undisturbed.
* `Command.abreast`: a command that concerns the share, in two worlds with alike shares.
* `abreast_observe`: both, along a list of commands of which some are left out.
* `observe_alike`: then the same is observed, but for the numbers of components, nodes, instances
  and lists, which correspond one to one.
-/

namespace LayeredViews

variable {κ : Client} {S : Type}

/-! ## Commands that do not concern the share -/

section

variable {inner : Inner κ S} {host : HostId → Host} {mine : Handle → Bool} {s : Share}
  {w v : World κ} {user : Callbacks (Act κ)}

/-- An answer is made of what an operation gives. -/
theorem Program.wp_answered {α : Type} {E : Option Halt → Prop} {P : World κ → Prop} {op : Op}
    {f : op.Reply → α} {env : Setting κ}
    (h : (env.perform op).Wp E (fun _ v => P v) w) :
    ((Program.call op fun r => .done (f r)).run env.perform).Wp E (fun _ v => P v) w :=
  Act.Wp.bind h fun _ _ hv => hv

variable (hu : inner.Serves user) (hw : w.AtRest host) (hdiv : w.Divided host mine s)
include hu hw hdiv

/-- Something is done with a component of the other side. -/
theorem Deed.wp_beside {i : ComponentId} (hi : ¬s.component i) (deed : Deed)
    (hplace : ∀ node, deed = .update node → ¬s.node node.id)
    (hhold : ∀ as, deed = .hold as → mine as = false) :
    ((deed.program inner i).run (Setting.perform ⟨host, user⟩)).Wp (fun _ => False)
      (fun _ v => w.Beside inner host mine s v) w := by
  -- the views and the view model of a component are resolved by what does not touch the share
  have worked : ∀ {α : Type} {body : Component → Act κ α},
      (∀ c, (w.pin i).Clear → (w.pin i).Divided host mine s →
        ¬s.node ((w.pin i).current i c).node.id →
        (body c).Wp (fun _ => False) (fun _ v => (w.pin i).Worked inner host mine s v) (w.pin i)) →
      (Act.withComponent i body).Wp (fun _ => False)
        (fun _ v => w.Beside inner host mine s v) w := fun hbody =>
    Act.wp_withComponent_beside hw hdiv hi fun c _ hpin hn =>
      (hbody c (World.clear_of_nil hw.loans) hpin (hpin.current_node hi hn)).mono
        fun _ _ h => h.toBeside
  cases deed with
  | init => exact Program.wp_answered (Setting.wp_init_beside hw hdiv hi)
  | beforeRemove => exact Program.wp_answered (Setting.wp_beforeRemove_beside hw hdiv hi)
  | update node => exact Program.wp_answered (Setting.wp_update_beside hw hdiv hi (hplace node rfl))
  | remove => exact Program.wp_answered (Setting.wp_remove_beside hw hdiv hi)
  | unmount => exact Program.wp_answered (Setting.wp_unmount_beside hw hdiv hi)
  | hold as => exact Program.wp_answered (Setting.wp_hold_beside hw hdiv hi (hhold as rfl))
  | views =>
    exact Program.wp_answered (worked fun c hclear hpin hn =>
      (Setting.wp_views_beside hu _ hclear hpin hn).mono fun _ _ h => h.1)
  | model =>
    refine Act.Wp.bind (worked fun c hclear hpin hn => ?_) fun _ _ hv => hv
    exact (Setting.wp_modelWithSources_beside hu _ hclear hpin hn).bind fun _ _ h => h.1
  | render pipe =>
    exact Program.wp_answered (worked fun c hclear hpin hn =>
      Setting.wp_render_beside hu _ hclear hpin hn pipe)
  | bound => exact .refl hdiv
  | state => exact .refl hdiv

theorem Command.wp_beside (a : Command) (ha : a.concerns mine = false)
    (hplace : ∀ n, a.places = some n → ¬s.node n)
    (hhold : ∀ x as, a = .act x (.hold as) → mine as = mine x) :
    ((a.program inner mine).run (Setting.perform ⟨host, user⟩)).Wp (fun _ => False)
      (fun _ v => w.Beside inner host mine s v) w := by
  cases a with
  | create h type node as =>
    have has : mine as = false := by simpa [concerns, subject] using ha
    exact Program.wp_answered (Setting.wp_create_beside hw hdiv has fun metadata hb =>
      hplace _ (places_create hb ..))
  | mount h type node as =>
    have has : mine as = false := by simpa [concerns, subject] using ha
    exact Program.wp_answered (Setting.wp_mount_beside hw hdiv has fun metadata hb =>
      hplace _ (places_mount hb ..))
  | act x deed =>
    have hx : mine x = false := by simpa [concerns, subject] using ha
    change Act.Wp _ (get >>= _) _ w
    rw [Act.wp_bind, Act.wp_get]
    beta_reduce
    cases hi : w.handles.get? x with
    | none => exact .refl hdiv
    | some i =>
      refine deed.wp_beside hu hw hdiv
        (fun hs => Bool.noConfusion (hx.symm.trans ((hdiv.held x i hi).2.2 hs))) ?_ ?_
      · rintro node rfl
        exact hplace _ rfl
      · rintro as rfl
        exact (hhold x as rfl).trans hx
  | release x =>
    exact Program.wp_answered (Setting.wp_release_beside hw hdiv
      (by simpa [concerns, subject] using ha))
  | reload h selection => cases ha
  | dispatch t event => cases ha
  | switch t on => cases ha

end

/-! ## Commands that concern the share -/

section

variable {inner : Inner κ S} {host : HostId → Host} {mine : Handle → Bool} {T : Ties}
  {w w' : World κ} {user : Callbacks (Act κ)}

/-- Answers are made of what the same operation gives in both worlds. -/
theorem Act.Abreast.answered {α β : Type} {op op' : Op} {r : Ties → op.Reply → op'.Reply → Prop}
    {r' : Ties → α → β → Prop} {f : op.Reply → α} {g : op'.Reply → β} {env : Setting κ}
    (h : Abreast inner host mine T r (env.perform op) (env.perform op') w w')
    (hr : ∀ U x y, r U x y → r' U (f x) (g y)) :
    Abreast inner host mine T r' ((Program.call op fun x => .done (f x)).run env.perform)
      ((Program.call op' fun y => .done (g y)).run env.perform) w w' :=
  h.bind fun U x y _ _ _ hpair _ _ hxy => .pure hpair (hr U x y hxy)

variable (hu : inner.Serves user) (h : World.Paired inner host mine T w w') (hw : w.AtRest host)
  (hw' : w'.AtRest host)
include hu h hw hw'

/-- The same is done with components that are tied. -/
theorem Deed.abreast {i j : ComponentId} (hij : T.component i j) (deed : Deed) (ρ : NodeId → NodeId)
    (hplace : ∀ node, deed = .update node → T.node node.id (ρ node.id))
    (hhold : ∀ as, deed = .hold as → mine as = true) :
    Act.Abreast inner host mine T Answer.Alike
      ((deed.program inner i).run (Setting.perform ⟨host, user⟩))
      (((deed.renamed ρ).program inner j).run (Setting.perform ⟨host, user⟩)) w w' := by
  have hclear : (w.pin i).Clear := World.clear_of_nil (w := w.pin i) hw.loans
  have hclear' : (w'.pin j).Clear := World.clear_of_nil (w := w'.pin j) hw'.loans
  have hacc := hw.accounted.pin i
  have hacc' := hw'.accounted.pin j
  have hcomp := h.alike.components i j hij
  cases deed with
  | init =>
    refine .answered (.withComponent h hw hw' hij fun c d hc hd hcd hpin =>
      Setting.abreast_init hpin hacc hacc' hij hcd hc hd) fun U x y hxy => .of ?_ hxy
    rintro r _ rfl
    exact .initialized r
  | beforeRemove =>
    refine .answered (.withComponent h hw hw' hij fun c d hc hd hcd hpin =>
      Setting.abreast_beforeRemove hpin hacc hacc' hij hcd hc hd) fun U x y hxy => .of ?_ hxy
    rintro n _ rfl
    exact .unbound n
  | update node =>
    exact .answered (.withComponent h hw hw' hij fun c d hc hd hcd hpin =>
      Setting.abreast_update hpin hij hcd hc hd hw.loans hw'.loans (hplace node rfl) rfl)
      fun U x y hxy => .of (fun _ _ hn => .moved hn) hxy
  | remove =>
    exact .answered (.withComponent h hw hw' hij fun c d hc hd hcd hpin =>
      Setting.abreast_remove hpin hij hcd hw.loans hw'.loans)
      fun U x y hxy => .of (fun _ _ _ => .done) hxy
  | unmount =>
    exact .answered (.withComponent h hw hw' hij fun c d hc hd hcd hpin =>
      Setting.abreast_unmount hpin hacc hacc' hij hcd hc hd hw.loans hw'.loans)
      fun U x y hxy => .of (fun _ _ _ => .done) hxy
  | hold as =>
    refine .answered (Setting.abreast_hold h (hhold as rfl) hw hw' hij) ?_
    rintro U b _ rfl
    exact .said b
  | views =>
    refine .answered (.withComponent h hw hw' hij fun c d hc hd hcd hpin => ?_)
      fun U x y hxy => .of (fun _ _ hl => .views hl) hxy
    obtain ⟨classes, hreg⟩ := h.left.served i c hc ⟨j, hij⟩
    exact Setting.abreast_views hu hreg hpin hclear hclear' hij hcd
  | model =>
    have hmodel : Act.Abreast inner host mine T
        (fun U => Option.Rel (SameOutcome (Model.Alike U)))
        (Setting.perform ⟨host, user⟩ (.model i)) (Setting.perform ⟨host, user⟩ (.model j)) w w' :=
      .withComponent h hw hw' hij fun c d hc hd hcd hpin => by
        obtain ⟨classes, hreg⟩ := h.left.served i c hc ⟨j, hij⟩
        exact Setting.abreast_model hu hreg hpin hclear hclear' hij hcd
    refine hmodel.bind fun U x y v v' _ hpair _ _ hxy =>
      .read rfl rfl (.pure hpair (.of (fun m m' hmm => .model ?_) hxy))
    cases hmm with
    | error e => exact .error e
    | ok hmm => exact .ok ⟨hmm, hpair.alike.states _ _ hmm.inst.tied⟩
  | render pipe =>
    have hrender : Act.Abreast inner host mine T (fun _ => Option.Rel Eq)
        (Setting.perform ⟨host, user⟩ (.render i pipe))
        (Setting.perform ⟨host, user⟩ (.render j pipe)) w w' :=
      .withComponent h hw hw' hij fun c d hc hd hcd hpin => by
        obtain ⟨classes, hreg⟩ := h.left.served i c hc ⟨j, hij⟩
        exact Setting.abreast_render hu hreg hpin hclear hclear' hij hcd pipe
    refine .answered hrender fun U x y hxy => .of ?_ hxy
    rintro p _ rfl
    exact .rendered p.1 p.2
  | bound =>
    refine .read rfl rfl (.pure h (.of (fun c d hcd => ?_) hcomp))
    rw [hcd.bound]
    exact .said _
  | state =>
    refine .read rfl rfl (.pure h (.of (fun c d hcd => ?_) hcomp))
    have hmodel := (h.alike.entries c.host _ _ hcd.node).model
    rw [hcd.host] at hmodel ⊢
    generalize (w.entry d.host c.node.id).model = o, (w'.entry d.host d.node.id).model = o'
      at hmodel
    cases hmodel with
    | none => exact .state none
    | some hmm =>
      rw [Option.map_some, Option.map_some, h.alike.states _ _ hmm.inst.tied]
      exact .state _

/-- The same is commanded in both worlds. -/
theorem Command.abreast {N : NodeId → Prop} {ρ : NodeId → NodeId} (hρ : Function.Injective ρ)
    (hT : T.node = fun n n' => N n ∧ n' = ρ n) (a : Command) (ha : a.concerns mine = true)
    (hkeeps : a.Keeps host mine N) :
    Act.Abreast inner host mine T Answer.Alike
      ((a.program inner mine).run (Setting.perform ⟨host, user⟩))
      (((a.renamed ρ).program inner mine).run (Setting.perform ⟨host, user⟩)) w w' := by
  have hplace : ∀ n, a.places = some n → T.node n (ρ n) := fun n hn => by
    rw [hT]
    exact ⟨(hkeeps.nodes n hn).1 ha, rfl⟩
  cases a with
  | create hst type node as =>
    have has : mine as = true := by simpa [concerns, subject] using ha
    exact .answered (Setting.abreast_create h has hw hw' (fun metadata hb =>
      ⟨hkeeps.served ha hst (home_create hb ..), hplace _ (places_create hb ..)⟩) rfl)
      fun U x y hxy => .made hxy
  | mount hst type node as =>
    have has : mine as = true := by simpa [concerns, subject] using ha
    exact .answered (Setting.abreast_mount h has hw hw' (fun metadata hb =>
      ⟨hkeeps.served ha hst (home_mount hb ..), hplace _ (places_mount hb ..)⟩) rfl)
      fun U x y hxy => .made hxy
  | act x deed =>
    have hx : mine x = true := by simpa [concerns, subject] using ha
    have hold := h.alike.handles x hx
    refine .read (α := World κ) (β := World κ) (a := get) (b := get) rfl rfl ?_
    dsimp only [renamed]
    generalize w.handles.get? x = o, w'.handles.get? x = o' at hold
    cases hold with
    | none => exact Act.Abreast.pure h Answer.Alike.nothing
    | some hij =>
      refine deed.abreast hu h hw hw' hij ρ ?_ ?_
      · rintro node rfl
        exact hplace _ rfl
      · rintro as rfl
        exact (hkeeps.hold x as rfl).trans hx
  | release x =>
    have hx : mine x = true := by simpa [concerns, subject] using ha
    refine .answered (Setting.abreast_release h hx hw hw') ?_
    rintro U b _ rfl
    exact .said b
  | reload hst selection =>
    refine .step (Act.run_reload hw.loans hst selection) (Act.run_reload hw'.loans hst _)
      ⟨rfl, rfl⟩ ⟨rfl, rfl⟩ (.refl T) (.pure (h.discarded fun n n' hn => ?_) .done)
    have he := h.alike.entries hst n n' hn
    cases selection with
    | all => rfl
    | source path => exact he.selects_source path n n'
    | node m =>
      rw [hT] at hn
      obtain ⟨-, rfl⟩ := hn
      refine Bool.eq_iff_iff.2 ?_
      simp [Cache.Selection.selects, Cache.Selection.renamed, hρ.eq_iff]
  | dispatch t event =>
    obtain ⟨n, v, hr, hv⟩ := Setting.run_dispatch hu hw t event
    obtain ⟨n', v', hr', hv'⟩ := Setting.run_dispatch hu hw' t event
    have hpair := h.idle (hv.beside h.left) (hv'.beside h.right)
    refine .read (α := World κ) (β := World κ) (a := get) (b := get) rfl rfl
      (.step hr hr' hv.asHeld hv'.asHeld (.refl T) (.read (α := World κ) (β := World κ)
        (a := get) (b := get) rfl rfl (.pure hpair (.received ?_))))
    rw [hv.received_eq, hv'.received_eq, hv.belongs_eq, hv'.belongs_eq]
    exact h.delivered hw hw' t event
  | switch t on =>
    exact .step rfl rfl ⟨rfl, rfl⟩ ⟨rfl, rfl⟩ (.refl T) (.pure (h.switched t on) .done)

end

/-! ## Runs -/

section

variable {inner : Inner κ S} {host : HostId → Host} {mine : Handle → Bool} {N : NodeId → Prop}
  {ρ : NodeId → NodeId} {T : Ties} {w v w' : World κ} {user : Callbacks (Act κ)}

namespace Command

section

variable (hu : inner.Serves user) (hw : w.AtRest host)
include hu hw

/-- A world is at rest again after a command. -/
theorem atRest_of_run (a : Command) {x : Answer S}
    (hr : ((a.program inner mine).run (Setting.perform ⟨host, user⟩)).run w = .ok (x, v)) :
    v.AtRest host :=
  (Program.wp_atRest hu (a.program_uses inner mine) hw).of_run hr

/-- A command that concerns the other side leaves the share undisturbed. -/
theorem run_beside {s : Share} (hdiv : w.Divided host mine s) (a : Command)
    (ha : a.concerns mine = false) (hkeeps : a.Keeps host mine s.node) :
    ∃ x v, ((a.program inner mine).run (Setting.perform ⟨host, user⟩)).run w = .ok (x, v) ∧
      w.Beside inner host mine s v ∧ v.AtRest host := by
  obtain ⟨x, v, hr, hv⟩ := (a.wp_beside hu hw hdiv ha
    (fun n hn hs => Bool.noConfusion (ha.symm.trans ((hkeeps.nodes n hn).2 hs)))
    hkeeps.hold).run_eq
  exact ⟨x, v, hr, hv, a.atRest_of_run hu hw hr⟩

end

end Command

/-- The first of two actions takes a step that is known. -/
theorem Act.Abreast.left {α β γ : Type} {r : Ties → β → γ → Prop} {a : Act κ α} {f : α → Act κ β}
    {b : Act κ γ} {x : α} (hr : a.run w = .ok (x, v)) (hv : w.AsHeld v)
    (h : Abreast inner host mine T r (f x) b v w') :
    Abreast inner host mine T r (a >>= f) b w w' := by
  obtain ⟨hf, hb, hu, hu', hgrows, hpair, hrel⟩ := h
  exact .intro ((run_bind_of hr).trans hf) hb (hv.trans hu) hu' hgrows hpair hrel

theorem World.AtRest.asHeld (hw : w.AtRest host) (hv : v.AtRest host) : w.AsHeld v :=
  ⟨hv.pins.trans hw.pins.symm, hv.loans.trans hw.loans.symm⟩

theorem run_observe (inner : Inner κ S) (mine : Handle → Bool) (a : Command) (rest : List Command)
    (perform : (op : Op) → Act κ op.Reply) :
    (observe inner mine (a :: rest)).run perform = (a.program inner mine).run perform >>= fun x =>
      (observe inner mine rest).run perform >>= fun more =>
        pure (if a.concerns mine then x :: more else more) := by
  rw [observe, Program.run_bind]
  refine congrArg _ (funext fun x => ?_)
  rw [Program.run_bind]
  rfl

/-- Commands that concern the other side may be left out. -/
theorem abreast_observe (hu : inner.Serves user) (hρ : Function.Injective ρ)
    {cs kept : List Command} (hpruned : Command.Pruned mine cs kept)
    (hkeeps : ∀ a ∈ cs, a.Keeps host mine N) (hT : T.node = fun n n' => N n ∧ n' = ρ n)
    (h : World.Paired inner host mine T w w') (hw : w.AtRest host) (hw' : w'.AtRest host) :
    Act.Abreast inner host mine T (fun U => List.Forall₂ (Answer.Alike U))
      ((observe inner mine cs).run (Setting.perform ⟨host, user⟩))
      ((observe inner mine (kept.map (Command.renamed ρ))).run (Setting.perform ⟨host, user⟩))
      w w' := by
  induction hpruned generalizing T w w' with
  | nil => exact .pure h .nil
  | @keep a cs kept _ ih =>
    have hrest : ∀ b ∈ cs, b.Keeps host mine N := fun b hb => hkeeps b (List.mem_cons_of_mem _ hb)
    have ha' := hkeeps a List.mem_cons_self
    rw [List.map_cons, run_observe, run_observe, Command.concerns_renamed]
    cases ha : a.concerns mine with
    | true =>
      obtain ⟨hr, hr', hv, hv', hgrows, hpair, hxy⟩ := a.abreast hu h hw hw' hρ hT ha
        ha'
      have hmore := ih hrest (hgrows.node.trans hT) hpair (a.atRest_of_run hu hw hr)
        (Command.atRest_of_run hu hw' _ hr')
      exact .step hr hr' hv hv' hgrows (hmore.bind fun _ _ _ _ _ hgrows' hpair _ _ hmore =>
        .pure hpair (.cons (hxy.grow hgrows') hmore))
    | false =>
      obtain ⟨x, v, hr, hv, hend⟩ := a.run_beside hu hw h.left ha (ha'.left hT)
      obtain ⟨x', v', hr', hv', hend'⟩ := (a.renamed ρ).run_beside hu hw' h.right
        ((Command.concerns_renamed a).trans ha) (ha'.right hT hρ)
      exact .step hr hr' (hw.asHeld hend) (hw'.asHeld hend') (.refl T)
        ((ih hrest hT (h.idle hv hv') hend hend').bind fun _ _ _ _ _ _ hpair _ _ hmore =>
          .pure hpair hmore)
  | @leaveOut a ha cs kept _ ih =>
    have hrest : ∀ b ∈ cs, b.Keeps host mine N := fun b hb => hkeeps b (List.mem_cons_of_mem _ hb)
    obtain ⟨x, v, hr, hv, hend⟩ := a.run_beside hu hw h.left ha
      ((hkeeps a List.mem_cons_self).left hT)
    rw [run_observe, ha]
    refine .left hr (hw.asHeld hend) ?_
    rw [← bind_pure (Program.run _ (observe inner mine (kept.map (Command.renamed ρ))))]
    exact (ih hrest hT (h.left_step hv) hend hw').bind fun _ _ _ _ _ _ hpair _ _ hmore =>
      .pure hpair hmore

end

/-! ## Isolation -/

/-- Only nodes are tied, to those with another identity. -/
def Ties.start (N : NodeId → Prop) (ρ : NodeId → NodeId) : Ties where
  node n n' := N n ∧ n' = ρ n
  component _ _ := False
  inst _ _ := False
  list _ _ := False

theorem Ties.oneToOne_start (N : NodeId → Prop) {ρ : NodeId → NodeId}
    (hρ : Function.Injective ρ) : (Ties.start N ρ).OneToOne where
  node := ⟨fun _ _ _ h h' => hρ (h.2.symm.trans h'.2), fun _ _ _ h h' => h.2.trans h'.2.symm⟩
  component := ⟨fun _ _ _ h => h.elim, fun _ _ _ h => h.elim⟩
  inst := ⟨fun _ _ _ h => h.elim, fun _ _ _ h => h.elim⟩
  list := ⟨fun _ _ _ h => h.elim, fun _ _ _ h => h.elim⟩

section

variable {host : HostId → Host} {mine : Handle → Bool} {targets : Dict TargetId EventTarget}
  {memory : κ.Memory}

/-- Where nothing has been made yet, nothing has to be divided but nodes. -/
theorem World.divided_start {s : Share} (hcomponent : ∀ i, ¬s.component i)
    (hinst : ∀ i, ¬s.inst i) (hlist : ∀ i, ¬s.list i) :
    (World.start targets memory).Divided host mine s where
  tidy := fun _ => Dict.Sorted.empty
  sorted := Dict.Sorted.empty
  held _ _ hx := by cases hx
  placed _ _ hc := by cases hc
  served _ _ hc := by cases hc
  stored _ _ i hi := absurd hi (Entry.not_has_empty i)
  component i hi := absurd hi (hcomponent i)
  inst i hi := absurd hi (hinst i)
  list i hi := absurd hi (hlist i)

theorem World.paired_start (inner : Inner κ S) (N : NodeId → Prop) {ρ : NodeId → NodeId}
    (hρ : Function.Injective ρ)
    (hempty : ∀ t target, targets.get? t = some target → target.listeners = []) :
    Paired inner host mine (Ties.start N ρ) (World.start targets memory)
      (World.start targets memory) where
  ties := Ties.oneToOne_start N hρ
  left := divided_start (fun _ h => h.elim fun _ => id) (fun _ h => h.elim fun _ => id)
    fun _ h => h.elim fun _ => id
  right := divided_start (fun _ h => h.elim fun _ => id) (fun _ h => h.elim fun _ => id)
    fun _ h => h.elim fun _ => id
  alike := {
    handles := fun _ _ => .none
    components := fun _ _ h => h.elim
    entries := fun _ _ _ _ => .empty
    heard := fun t => by
      rw [Share.heard, Share.heard, listeners_start hempty]
      exact .nil
    present := fun _ => rfl
    switchable := fun _ => rfl
    states := fun _ _ h => h.elim }

/-- **Components with states are isolated.** Let the code of an application call no operation, and
let instances keep any states to themselves that are fresh when they are made. Let the components of
some variables find their classes in registries that stay as they are, and never be on a node that
another component is ever on. Of what is done to other components, anything may be left out, and
nodes may have other identities: what is observed of the components of the variables is the same,
but for numbers that correspond one to one. This is what mounting them and their hooks answer, their
views, view models and renderings with the pipes that these leave, the states of their view models,
whether their events are bound, and the calls that they receive from each dispatch. -/
theorem observe_alike {app : Application κ} {inner : Inner κ S} (happ : app.Confines inner)
    {cs kept : List Command} (hapart : Command.Apart app.host mine cs)
    (hpruned : Command.Pruned mine cs kept) {ρ : NodeId → NodeId} (hρ : Function.Injective ρ)
    (hempty : ∀ t target, targets.get? t = some target → target.listeners = []) (depth : Nat) :
    ∃ answers v answers' v' T,
      (app.exec (depth + 1) (observe inner mine cs)).run (World.start targets memory) =
        .ok (answers, v) ∧
      (app.exec (depth + 1) (observe inner mine (kept.map (Command.renamed ρ)))).run
        (World.start targets memory) = .ok (answers', v') ∧
      T.OneToOne ∧ (∀ n n', T.node n n' → n' = ρ n) ∧
      List.Forall₂ (Answer.Alike T) answers answers' := by
  obtain @⟨answers, answers', v, v', U, hr, hr', -, -, hgrows, hpair, halike⟩ :=
    abreast_observe (happ.serves depth) hρ hpruned hapart.keeps rfl
      (World.paired_start inner _ hρ hempty) (World.atRest_start hempty memory)
      (World.atRest_start hempty memory)
  refine ⟨answers, v, answers', v', U, hr, hr', hpair.ties, fun n n' hn => ?_, halike⟩
  rw [hgrows.node] at hn
  exact hn.2

end

namespace Counters

/-- The memory says how often instances were used to render. -/
abbrev client : Client := ⟨InstanceId → Nat, Empty⟩

/-- A view shows how often it has rendered before, and counts for its view model too. -/
def inner : Inner client Nat where
  state memory := memory
  fresh _ := 0
  draw _ n frame m :=
    { output := some (.text (toString n))
      pipe := frame.pipe
      own := n + 1
      model := m.map (· + 1) }

def application : Application client where
  host _ := { target := some 0 }
  code :=
    { load := fun _ path => .done (.error (.notFound path))
      make := fun inst => .look fun w => .store (Function.update w.memory inst.id 0) (.done ())
      render := fun inst frame => .look fun w =>
        let d := inner.drawing w.memory inst frame
        .store (d.leave w.memory inst frame.model) (.done (d.output, d.pipe))
      handle := fun _ _ _ => .done ()
      listen := fun _ _ => .done () }

theorem confines : application.Confines inner :=
  ⟨fun _ _ _ => rfl, fun _ _ => rfl, fun _ _ _ => ⟨rfl, rfl⟩, fun _ _ _ _ => rfl, fun _ _ _ => rfl⟩

def type : ComponentType where
  own :=
    { label := "Counter"
      definer := some ⟨"Counter",
        [⟨"name", [.text "counter"]⟩, ⟨"views", [.ofClass (.view 1 "Display" ⟨1, "Display"⟩)]⟩,
          ⟨"viewmodel", [.ofClass (.viewModel 0 "Count" ⟨0, "Count"⟩)]⟩,
          ⟨"event", [.text "tick", .text "onTick"]⟩]⟩
      methods := Dict.ofList [("onTick", ⟨0, "onTick"⟩)] }

def one : Handle := ⟨0, "one"⟩

def other : Handle := ⟨0, "other"⟩

def mine (x : Handle) : Bool := x == one

/-- What is done with two counters. -/
def commands : List Command :=
  [.mount 0 type ⟨1, ∅⟩ other, .mount 0 type ⟨2, ∅⟩ one, .act other (.render ∅),
    .act one (.render ∅), .dispatch 0 ⟨"tick", .null⟩, .act other .unmount, .release other,
    .act one (.render ∅), .act one .state, .dispatch 0 ⟨"tick", .null⟩]

/-- What of it is left without the other counter. -/
def kept : List Command :=
  [.mount 0 type ⟨2, ∅⟩ one, .act one (.render ∅), .dispatch 0 ⟨"tick", .null⟩,
    .act one (.render ∅), .act one .state, .dispatch 0 ⟨"tick", .null⟩]

theorem pruned : Command.Pruned mine commands kept :=
  .leaveOut rfl <| .keep _ <| .leaveOut rfl <| .keep _ <| .keep _ <| .leaveOut rfl <|
    .leaveOut rfl <| .keep _ <| .keep _ <| .keep _ .nil

theorem apart : Command.Apart application.host mine commands where
  hold x as h := by simp [commands] at h
  nodes a ha b hb hconc hnot n hn hn' := by
    have hone : ∀ a ∈ commands, a.concerns mine = true → a.places = none ∨ a.places = some 2 := by
      decide +kernel
    have hother : ∀ b ∈ commands, b.concerns mine = false →
        b.places = none ∨ b.places = some 1 := by
      decide +kernel
    have htwo := (hone a ha hconc).resolve_left (by simp [hn])
    have hunit := (hother b hb hnot).resolve_left (by simp [hn'])
    cases (hn.symm.trans htwo).symm.trans (hn'.symm.trans hunit)
  served _ _ _ _ _ := ⟨∅, rfl⟩

/-- What was rendered, of what was observed. -/
def shown (cs : List Command) : List (Option Markup) :=
  match (application.exec 1 (observe inner mine cs)).run (World.start ∅ fun _ => 0) with
  | .ok (answers, _) => answers.filterMap fun
    | .rendered (.ok output) _ => some output
    | _ => none
  | .error _ => []

end Counters

/-- A counter counts its renderings on another node, and without the other counter. -/
theorem observe_alike_counters :
    Counters.application.Confines Counters.inner ∧
      Command.Apart Counters.application.host Counters.mine Counters.commands ∧
      Command.Pruned Counters.mine Counters.commands Counters.kept ∧
      Function.Injective Nat.succ ∧
      ∃ answers v answers' v' T,
        (Counters.application.exec 1 (observe Counters.inner Counters.mine Counters.commands)).run
          (World.start ∅ fun _ => 0) = .ok (answers, v) ∧
        (Counters.application.exec 1 (observe Counters.inner Counters.mine
          (Counters.kept.map (Command.renamed Nat.succ)))).run
          (World.start ∅ fun _ => 0) = .ok (answers', v') ∧
        T.OneToOne ∧ (∀ n n', T.node n n' → n' = n.succ) ∧
        List.Forall₂ (Answer.Alike T) answers answers' :=
  ⟨Counters.confines, Counters.apart, Counters.pruned, Nat.succ_injective,
    observe_alike Counters.confines Counters.apart Counters.pruned Nat.succ_injective
      (fun _ _ h => by cases h) 0⟩

/-- The display has the state that it was left with. -/
example : Counters.shown Counters.commands = [some (.text "0"), some (.text "1")] := by
  decide +kernel

end LayeredViews
