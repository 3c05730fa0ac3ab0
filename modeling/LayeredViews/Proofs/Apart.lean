import LayeredViews.Proofs.Calls
import LayeredViews.Proofs.Instances

/-!
# Nodes do not share instances

* `Op.given`: what an operation answers was given for the node that the component had when it was
  asked (`Setting.gave_of_given`).
* `Program.nodes`: nodes that are made separately differ, whatever is done in between
  (`Separate.nodes_lt`).
* `instances_apart`: two answers with a common instance were given for the same node of the same
  host.
-/

namespace LayeredViews

variable {κ : Client} {α : Type}

/-! ## What operations answer -/

/-- What an operation gave for a component. -/
def Op.given : (op : Op) → op.Reply → Option (ComponentId × Resolved)
  | .views id, some (.ok l) => some (id, .views l)
  | .model id, some (.ok m) => some (id, .model m)
  | _, _ => none

namespace Act

/-- What is recorded stays recorded when a component is let go. -/
theorem wp_settle_record (c : ComponentId) (w : World κ) :
    (settle c).Wp (fun _ => True) (fun _ w' => ∀ o ∈ w.record, o ∈ w'.record) w :=
  .settle (fun _ => trivial) (fun _ ho => ho) fun _ _ _ _ ho => List.mem_append_right _ ho

/-- What an operation on a component records with its answer. -/
theorem wp_withComponent_record {id : ComponentId} {body : Component → Act κ α}
    {P : Component → α → Occurrence κ → Prop}
    (h : ∀ c w, w.components.get? id = some c →
      (body c).Wp (fun _ => True) (fun x w' => ∀ o, P c x o → o ∈ w'.record) w) (w : World κ) :
    (withComponent id body).Wp (fun _ => True) (fun r w' => ∀ x, r = some x →
      ∃ c, w.components.get? id = some c ∧ ∀ o, P c x o → o ∈ w'.record) w := by
  rw [wp_withComponent]
  cases hc : w.components.get? id with
  | none => exact fun _ he => by cases he
  | some c =>
    dsimp only
    rw [wp_pinned, wp_map]
    refine (h c { w with pins := id :: w.pins } hc).mono fun x w₁ hx => ?_
    refine (wp_settle_record id _).mono fun _ w₂ hsame y hy => ?_
    cases hy
    exact ⟨c, rfl, fun o ho => hsame o (hx o ho)⟩

end Act

namespace Setting

variable (env : Setting κ)

theorem views_gave (id : ComponentId) (c : Component) (w : World κ) :
    (env.views id c).Wp (fun _ => True) (fun r w' => ∀ l, r = .ok l →
      .gave c.host (w.current id c).node.id (.views l) ∈ w'.record) w := by
  have failed : ∀ n e w, (views.fail (κ := κ) c n e).Wp (fun _ => True)
      (fun r w' => ∀ l, r = .ok l → .gave c.host n (.views l) ∈ w'.record) w :=
    fun n e w l he => by cases he
  have resolved : ∀ n model paths w, (views.resolve env c n model paths).Wp (fun _ => True)
      (fun r w' => ∀ l, r = .ok l → .gave c.host n (.views l) ∈ w'.record) w := by
    intro n model paths w
    refine (Act.Wp.any (env.resolveViews c.host model _) w).bind fun ⟨found, more⟩ w₁ _ => ?_
    cases found with
    | error e => exact failed n e w₁
    | ok list =>
      dsimp only
      rw [Act.wp_bind, Act.wp_freshList, Act.wp_bind, Act.wp_updateEntry]
      split
      · trivial
      · intro l he
        cases he
        exact List.mem_cons_self
  rw [views_eq]
  rw [Act.wp_bind, Act.wp_nodeOf]
  split
  · trivial
  rw [Act.wp_bind, Act.wp_entryOf]
  split
  · trivial
  generalize (w.current id c).node.id = n
  cases hl : (w.entry c.host n).views with
  | some l =>
    intro l' he
    cases he
    exact List.mem_cons_self
  | none =>
    dsimp only
    rw [Act.wp_bind, Act.wp_record]
    refine (Act.Wp.any (env.modelWithSources id c) _).bind fun ⟨model, paths⟩ w₁ _ => ?_
    cases model with
    | ok m => exact resolved n (some m) paths w₁
    | error e =>
      dsimp only
      rw [Act.wp_ite]
      split
      · exact resolved n none paths w₁
      · exact failed n e w₁

theorem modelWithSources_gave (id : ComponentId) (c : Component) (w : World κ) :
    (env.modelWithSources id c).Wp (fun _ => True) (fun r w' => ∀ m, r.1 = .ok m →
      .gave c.host (w.current id c).node.id (.model m) ∈ w'.record) w := by
  unfold modelWithSources
  rw [Act.wp_bind, Act.wp_nodeOf]
  split
  · trivial
  rw [Act.wp_bind, Act.wp_entryOf]
  split
  · trivial
  generalize (w.current id c).node.id = n
  cases hm : (w.entry c.host n).model with
  | some m =>
    intro m' he
    cases he
    exact List.mem_cons_self
  | none =>
    dsimp only
    rw [Act.wp_bind, Act.wp_record]
    refine (Act.Wp.any (env.resolveModel c) _).bind fun ⟨model, paths⟩ w₁ _ => ?_
    cases model with
    | error e => exact fun m he => by cases he
    | ok m =>
      rw [Act.wp_bind, Act.wp_updateEntry]
      split
      · trivial
      · intro m' he
        cases he
        exact List.mem_cons_self

/-- What an operation answers for a component is recorded as given for the node that the component
had when it was asked. -/
theorem gave_of_given {op : Op} {r : op.Reply} {w w' : World κ} {id : ComponentId} {x : Resolved}
    (hrun : (env.perform op).run w = .ok (r, w')) (hx : op.given r = some (id, x)) :
    ∃ c, w.components.get? id = some c ∧ .gave c.host c.node.id x ∈ w'.record := by
  cases op with
  | views id' =>
    have hwp : (env.perform (.views id')).Wp (fun _ => True) (fun r w' => ∀ y, r = some y →
        ∃ c, w.components.get? id' = some c ∧ ∀ o, (∃ l, y = .ok l ∧
          o = .gave c.host c.node.id (.views l)) → o ∈ w'.record) w := by
      refine Act.wp_withComponent_record (fun c w hc => ?_) w
      refine (env.views_gave id' c w).mono fun r w' hr o ⟨l, hl, ho⟩ => ?_
      rw [World.current_of_get? hc] at hr
      exact ho ▸ hr l hl
    match r with
    | some (.ok l) =>
      cases hx
      obtain ⟨c, hc, hgave⟩ := hwp.of_run hrun _ rfl
      exact ⟨c, hc, hgave _ ⟨l, rfl, rfl⟩⟩
    | some (.error e) => cases hx
    | none => cases hx
  | model id' =>
    have hwp : (env.perform (.model id')).Wp (fun _ => True) (fun r w' => ∀ y, r = some y →
        ∃ c, w.components.get? id' = some c ∧ ∀ o, (∃ m, y = .ok m ∧
          o = .gave c.host c.node.id (.model m)) → o ∈ w'.record) w := by
      refine Act.wp_withComponent_record (fun c w hc => ?_) w
      refine (env.modelWithSources_gave id' c w).bind fun r w' hr o ⟨m, hm, ho⟩ => ?_
      rw [World.current_of_get? hc] at hr
      exact ho ▸ hr m hm
    match r with
    | some (.ok m) =>
      cases hx
      obtain ⟨c, hc, hgave⟩ := hwp.of_run hrun _ rfl
      exact ⟨c, hc, hgave _ ⟨m, rfl, rfl⟩⟩
    | some (.error e) => cases hx
    | none => cases hx
  | _ => cases hx

end Setting

/-! ## Runs -/

/-- Every world that a run of an application comes to keeps nodes apart. -/
theorem separate_of_reaches {app : Application κ} {prog : Program κ α}
    {targets : Dict TargetId EventTarget} {memory : κ.Memory} {v : World κ}
    (hv : app.Reaches prog (World.start targets memory) v) : Separate v :=
  Contract.inv_of_reaches (C := separate) (separate_sound app.host) (fun h => h rfl)
    (Callbacks.uses_of_forall (fun _ => trivial) app.code)
    (Program.uses_of_forall (fun _ => trivial) prog) (separate_start targets memory) hv

/-- Makes a node, does something, and makes another node. -/
def Program.nodes (mid : NodeId → Program κ Unit) : Program κ (NodeId × NodeId) :=
  .call .freshNode fun n => (mid n).bind fun _ => .call .freshNode fun n' => .done (n, n')

/-- Nodes that are made separately have different identities. -/
theorem Separate.nodes_lt {app : Application κ} {v : World κ} (hv : Separate v) (depth : Nat)
    (mid : NodeId → Program κ Unit) :
    (app.exec depth (.nodes mid)).Wp (fun _ => True) (fun p _ => p.1 < p.2) v := by
  cases depth with
  | zero => exact trivial
  | succ depth =>
    have hmid := (separate_sound app.host).exec
      (Callbacks.uses_of_forall (fun _ => trivial) app.code) (depth + 1)
      (Program.uses_of_forall (fun _ => trivial) (mid v.nextNode))
    obtain ⟨hplaced, -⟩ := hv.calm (.placed v)
    have hgrows := hmid _ hplaced
    show ((Program.nodes mid).run _).Wp _ _ v
    unfold Program.nodes
    show (((mid v.nextNode).bind _).run _).Wp _ _ { v with nextNode := v.nextNode + 1 }
    rw [Program.run_bind]
    refine (hgrows.weaken fun _ _ => trivial).bind fun _ u ⟨_, hstep⟩ => ?_
    show v.nextNode < u.nextNode
    exact Nat.lt_of_lt_of_le (Nat.lt_succ_self _) hstep.nodes

/-- **Instances are never shared between nodes or hosts.** In every run of every application,
whatever its code calls back: two answers with an instance in common were given for the same node
of the same host; a view that was given is bound only to a view model made for its own node; what
an operation answers was given for the node that the component had when it was asked; and nodes
that are made separately differ. -/
theorem instances_apart (app : Application κ) (prog : Program κ α)
    (targets : Dict TargetId EventTarget) (memory : κ.Memory) {v : World κ}
    (hv : app.Reaches prog (World.start targets memory) v) :
    (∀ h n x h' n' y i, .gave h n x ∈ v.record → .gave h' n' y ∈ v.record →
      i ∈ x.instances → i ∈ y.instances → h = h' ∧ n = n') ∧
    (∀ h n l r m, .gave h n (.views l) ∈ v.record → r ∈ l.views → r.model = some m →
      .stored h n (.model m) ∈ v.record ∧
      ∀ h' n', .stored h' n' (.model m) ∈ v.record → h' = h ∧ n' = n) ∧
    (∀ (user : Callbacks (Act κ)) (op : Op) (r : op.Reply) (w : World κ) (id : ComponentId)
      (x : Resolved), (Setting.perform ⟨app.host, user⟩ op).run v = .ok (r, w) →
      op.given r = some (id, x) →
      ∃ c, v.components.get? id = some c ∧ .gave c.host c.node.id x ∈ w.record) ∧
    (∀ depth mid n n' w, (app.exec depth (.nodes mid)).run v = .ok ((n, n'), w) → n ≠ n') := by
  have hsep := separate_of_reaches hv
  refine ⟨fun h n x h' n' y i hx hy => ?_, fun h n l r m hl hr hm => ?_,
    fun user op r w id x hrun hx => Setting.gave_of_given _ hrun hx,
    fun depth mid n n' w hrun => ?_⟩
  · exact hsep.apart h n x h' n' y (hsep.given h n x hx) (hsep.given h' n' y hy) i
  · have hstored : .stored h n (.model m) ∈ v.record :=
      hsep.bound h n l (hsep.given h n _ hl) r hr m hm
    refine ⟨hstored, fun h' n' hm' => ?_⟩
    exact hsep.apart h' n' _ h n _ hm' hstored m.inst.id
      (Resolved.mem_instances_model.2 rfl) (Resolved.mem_instances_model.2 rfl)
  · have hlt : n < n' := (hsep.nodes_lt depth mid).of_run hrun
    exact Nat.ne_of_lt hlt

/-! ## Two components of one type -/

namespace Twins

def model : Class := Class.viewModel 0 "Twin" ⟨0, "Twin"⟩

def view : Class := Class.view 1 "Portrait" ⟨1, "Portrait"⟩

def type : ComponentType where
  own :=
    { label := "Twin"
      definer := some ⟨"Twin",
        [⟨"name", [.text "twin"]⟩, ⟨"views", [.ofClass view]⟩, ⟨"viewmodel", [.ofClass model]⟩]⟩ }

/-- An application whose code does nothing. -/
def application : Application ⟨Unit, Empty⟩ where
  host _ := {}
  code :=
    { load := fun _ path => .done (.error (.notFound path))
      make := fun _ => .done ()
      render := fun _ frame => .done (none, frame.pipe)
      handle := fun _ _ _ => .done ()
      listen := fun _ _ => .done () }

/-- Asks for the views of two components on nodes made separately. -/
def program : Program ⟨Unit, Empty⟩ Unit :=
  .call .freshNode fun n => .call (.create 0 type ⟨n, ∅⟩ ⟨0, "first"⟩) fun _ =>
  .call .freshNode fun n' => .call (.create 0 type ⟨n', ∅⟩ ⟨0, "second"⟩) fun _ =>
  .call (.views 0) fun _ => .call (.views 1) fun _ => .done ()

/-- The views of a twin. -/
def portrait (l : Nat) (m i : InstanceId) : Resolved :=
  .views ⟨l, [⟨"Portrait", ⟨i, ⟨1, "Portrait"⟩⟩, some ⟨"Twin", m, ⟨0, "Twin"⟩⟩⟩]⟩

/-- The views that were given, with their host and node. -/
def given : Occurrence ⟨Unit, Empty⟩ → Option (HostId × NodeId × Resolved)
  | .gave h n (.views l) => some (h, n, .views l)
  | _ => none

theorem gave_of_given {past : List (Occurrence ⟨Unit, Empty⟩)} {h : HostId} {n : NodeId}
    {x : Resolved} (hx : (h, n, x) ∈ past.filterMap given) : .gave h n x ∈ past := by
  obtain ⟨o, ho, he⟩ := List.mem_filterMap.1 hx
  cases o with
  | gave h' n' y =>
    cases y with
    | views l =>
      cases he
      exact ho
    | model m => cases he
  | _ => cases he

/-- How the program ends. -/
def outcome : Except (Option Halt) (Unit × World ⟨Unit, Empty⟩) :=
  (application.exec 2 program).run (World.start ∅ ())

theorem outcome_given :
    (match outcome with
      | .ok (_, v) => v.record.filterMap given
      | .error _ => []) = [(0, 2, portrait 1 3 4), (0, 1, portrait 0 1 2)] := by
  decide +kernel

end Twins

/-- Two components of one type that are on nodes made separately have no instance in common. -/
theorem instances_apart_twins :
    ∃ v, Twins.application.Reaches Twins.program (World.start ∅ ()) v ∧
      .gave 0 1 (Twins.portrait 0 1 2) ∈ v.record ∧ .gave 0 2 (Twins.portrait 1 3 4) ∈ v.record ∧
      ∀ i ∈ (Twins.portrait 0 1 2).instances, i ∉ (Twins.portrait 1 3 4).instances := by
  have hrun := Twins.outcome_given
  cases ho : Twins.outcome with
  | error e => simp [ho] at hrun
  | ok p =>
    obtain ⟨_, v⟩ := p
    simp only [ho] at hrun
    have hv : Twins.application.Reaches Twins.program (World.start ∅ ()) v :=
      Application.reaches_of_exec ho
    have hfirst : .gave 0 1 (Twins.portrait 0 1 2) ∈ v.record :=
      Twins.gave_of_given (by rw [hrun]; simp)
    have hsecond : .gave 0 2 (Twins.portrait 1 3 4) ∈ v.record :=
      Twins.gave_of_given (by rw [hrun]; simp)
    refine ⟨v, hv, hfirst, hsecond, fun i hi hi' => ?_⟩
    have hsame := (instances_apart Twins.application Twins.program ∅ () hv).1 0 1 _ 0 2 _ i hfirst
      hsecond hi hi'
    exact absurd hsame.2 (by decide)

end LayeredViews
