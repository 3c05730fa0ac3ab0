import LayeredViews.Proofs.Calls
import LayeredViews.Proofs.Keeping

/-!
# What is in use while code runs

Operations use parts of the world in ways that could exclude each other, and code that they call
may call operations. They give back everything before they call code, with one exception: the node
of a component is read while the component is rendered.

* `lending`: the contract of code that finds in use, and leaves in use, only certain things, and
  that stops for certain reasons only. While nodes are read, every operation keeps it
  (`lending_sound`), and only one has a conflict (`lending_sparing`).
* `World.Interrupts`: the operation moves a component that is being rendered.
* `calls_of_conflict`: a run that stops for a conflict has called such an operation if instances
  own nothing.
* `Mover.application`: an application with a view that moves its own component
  (`conflict_while_rendering`).
* `Keeper.application`: an application with a view that owns a component. It goes with the view,
  which is replaced while the entries are in use (`Keeper.outcome_conflict`).
-/

namespace LayeredViews

variable {κ : Client} {α : Type}

/-- The use reads a node. -/
def OfNode (l : Cell × Access) : Prop := ∃ id, l = (.node id, .read)

/-- The use is not of the listeners of a target. -/
def Unheard (l : Cell × Access) : Prop := ∀ t, l.1 ≠ .listeners t

theorem OfNode.unheard {l : Cell × Access} (h : OfNode l) : Unheard l := by
  obtain ⟨id, rfl⟩ := h
  exact fun _ => nofun

/-- Code runs while uses with `Q` are under way, and leaves them as they are. It stops for certain
reasons only. -/
def lending (Q : Cell × Access → Prop) (stops : Option Halt → Prop) : Contract κ :=
  .leaving (fun w => ∀ l ∈ w.loans, Q l) World.loans stops

/-- Any reason to stop but that `cell` is in use. -/
abbrev Unless (cell : Cell) : Option Halt → Prop := (· ≠ some (.conflict cell))

section

variable {Q : Cell × Access → Prop} {stops : Option Halt → Prop} {w : World κ}

theorem lending_of_loans {a : Act κ α} (h : ∀ w, (∀ l ∈ w.loans, Q l) →
      a.Wp stops (fun _ w' => w'.loans = w.loans) w) :
    (lending Q stops).Kept a := fun w hw =>
  (h w hw).mono fun _ _ hloans => ⟨fun l hl => hw l (hloans ▸ hl), hloans⟩

/-- Something that is not among the uses under way can be used. -/
theorem World.free_of_ne (hw : ∀ l ∈ w.loans, Q l) {cell' : Cell} (h : ∀ l, Q l → l.1 ≠ cell')
    (access : Access) : w.conflicts cell' access = false := by
  unfold conflicts
  rw [List.any_eq_false]
  intro l hl
  simp [h l (hw l hl)]

/-- While nodes are read, anything can be read. -/
theorem World.free_of_read (hw : ∀ l ∈ w.loans, OfNode l) (cell' : Cell) :
    w.conflicts cell' .read = false := by
  unfold conflicts
  rw [List.any_eq_false]
  intro l hl
  obtain ⟨id, rfl⟩ := hw l hl
  simp

/-- Code that is run while something more is in use. -/
theorem lending_lend (Q' : Cell × Access → Prop) {cell' : Cell} {access : Access} {body : Act κ α}
    (hfree : ∀ w : World κ, (∀ l ∈ w.loans, Q l) → w.conflicts cell' access = false)
    (hsub : ∀ l, Q l → Q' l) (hlent : Q' (cell', access)) (h : (lending Q' stops).Kept body) :
    (lending Q stops).Kept (Act.lend cell' access body) := by
  refine lending_of_loans fun w hw => ?_
  rw [Act.wp_lend, hfree w hw, if_neg Bool.false_ne_true]
  have hinner : ∀ l ∈ (cell', access) :: w.loans, Q' l := by
    intro l hl
    rcases List.mem_cons.1 hl with rfl | hl
    · exact hlent
    · exact hsub l (hw l hl)
  refine (h { w with loans := (cell', access) :: w.loans } hinner).mono fun x w' ⟨_, hloans⟩ => ?_
  show w'.loans.tail = w.loans
  rw [hloans]
  rfl

theorem lending_modify {f : World κ → World κ} (hf : ∀ w, (f w).loans = w.loans) :
    (lending Q stops).Kept (modify f : Act κ PUnit) := lending_of_loans fun w _ => hf w

/-- Listeners can be registered unless they are in use. -/
theorem lending_registering (hQ : ∀ l, Q l → Unheard l) :
    (lending Q stops).Registering (κ := κ) where
  idle _ := lending_of_loans fun _ _ => rfl
  updateTarget t _ :=
    lending_lend (fun _ => True) (fun _ hw => World.free_of_ne hw (fun l hl => hQ l hl t) _)
      (fun _ _ => trivial) trivial (lending_modify fun _ => rfl)
  freshListener _ := lending_of_loans fun _ _ => rfl

end

/-! ## While nodes are read -/

section

variable {stops : Option Halt → Prop} {host : HostId → Host} {user : Callbacks (Act κ)}

theorem free_entries {w : World κ} (hw : ∀ l ∈ w.loans, OfNode l) (h : HostId)
    (access : Access) : w.conflicts (.entries h) access = false :=
  World.free_of_ne hw (by rintro l ⟨id, rfl⟩; nofun) access

theorem lending_discard (h : HostId) (selection : Cache.Selection) (cause : Cause) :
    (lending OfNode stops).Kept (κ := κ) (Act.discard h selection cause) := by
  refine lending_of_loans fun w hw => ?_
  rw [Act.wp_discard, free_entries hw, if_neg Bool.false_ne_true]
  rfl

theorem lending_settle (c : ComponentId) : (lending OfNode stops).Kept (κ := κ) (Act.settle c) := by
  refine lending_of_loans fun w hw => ?_
  rw [Act.wp_settle]
  split
  · rfl
  · cases w.components.get? c with
    | none => rfl
    | some comp =>
      dsimp only
      rw [free_entries hw, if_neg Bool.false_ne_true]
      rfl

theorem lending_tended : (lending OfNode stops).Tended (κ := κ) where
  toHolding := .of_pins lending_settle fun hw _ => ⟨hw, rfl⟩
  discard := lending_discard
  read cell' f :=
    lending_lend (fun _ => True) (fun _ hw => World.free_of_read hw cell')
      (fun _ _ => trivial) trivial (.get_bind fun w => .pure (f w))
  lendNode id _ h :=
    lending_lend OfNode (fun _ hw => World.free_of_read hw (.node id)) (fun _ hl => hl) ⟨id, rfl⟩ h
  handles hw _ := ⟨hw, rfl⟩
  idle _ := lending_of_loans fun _ _ => rfl

theorem lending_storing : (lending OfNode stops).Storing (κ := κ) where
  toRunning := lending_tended.toRunning
  freshInstance _ := lending_of_loans fun _ _ => rfl
  record _ := lending_of_loans fun _ _ => rfl
  freshList _ := lending_of_loans fun _ _ => rfl
  updateEntry h _ _ := lending_of_loans fun w hw => by
    rw [Act.wp_updateEntry, free_entries hw, if_neg Bool.false_ne_true]
    rfl

theorem lending_updateComponent {Q : Cell × Access → Prop} (id : ComponentId)
    (f : Component → Component) : (lending Q stops).Kept (κ := κ) (Act.updateComponent id f) :=
  lending_modify fun w => by
    cases w.components.get? id with
    | none => rfl
    | some c => rfl

/-- No code of the application runs while the subscriptions of a component are in use, so that
they are free when an operation takes them. -/
theorem lending_withSubscriptions (id : ComponentId) (c : Component)
    {body : Subscriptions → Act κ (α × Subscriptions)}
    (h : ∀ s, (lending Unheard stops).Kept (body s)) :
    (lending OfNode stops).Kept (Act.withSubscriptions id c body) := by
  have hfree : ∀ w : World κ, (∀ l ∈ w.loans, OfNode l) →
      w.conflicts (.subscriptions id) .write = false := fun w hw =>
    World.free_of_ne hw (by rintro l ⟨id, rfl⟩; nofun) _
  have hown : Unheard (.subscriptions id, .write) := fun _ => nofun
  refine lending_lend Unheard hfree (fun _ => OfNode.unheard) hown (.get_bind fun w => ?_)
  exact (h _).bind fun ⟨a, s⟩ => (lending_updateComponent id _).bind fun _ => .pure a

theorem lending_serving : (lending OfNode stops).Serving (κ := κ) host :=
  { lending_tended, lending_registering fun _ => OfNode.unheard,
    lending_storing.resolving.answering lending_tended.toAttending with
    init := fun id c => (lending_registering fun _ => OfNode.unheard).init_of id c
      (lending_withSubscriptions id c fun s =>
        (lending_registering fun _ h => h).bindAll c.host id c s)
    beforeRemove := fun id c => (lending_registering fun _ => OfNode.unheard).beforeRemove_of id c
      (lending_withSubscriptions id c fun s =>
        (lending_registering fun _ h => h).unbindAll c.host s)
    placed := fun hw => ⟨hw, rfl⟩
    switched := fun hw _ _ => ⟨hw, rfl⟩ }

theorem lending_living : (lending OfNode stops).Living (κ := κ) where
  toTended := lending_tended
  freshComponent _ := lending_of_loans fun _ _ => rfl

/-- The operation moves a component while its node, which is `cell`, is read: while the component
is rendered. -/
def World.Interrupts (cell : Cell) (w : World κ) (op : Op) : Prop :=
  ∃ id node, op = .update id node ∧ cell = .node id ∧ (cell, .read) ∈ w.loans

/-- Moving a component, unless its node is in use and that is no reason to stop. -/
theorem lending_update (id : ComponentId) (node : Node) {w : World κ}
    (hw : ∀ l ∈ w.loans, OfNode l)
    (hstops : w.conflicts (.node id) .write = true → stops (some (.conflict (.node id)))) :
    (lending OfNode stops).KeptFrom w (Act.withComponent id fun c => Act.update id c node) := by
  refine lending_tended.withComponent_at hw fun c hc _ => ?_
  have hpresent : (w.pin id).components.get? id = some c := hc
  unfold Contract.KeptFrom Act.update
  rw [Act.wp_bind, Act.wp_swapNode hpresent]
  split
  · next hconflict => exact hstops hconflict
  · have hmoved : (lending OfNode stops).inv ((w.pin id).setComponent id { c with node }) ∧
        (lending OfNode stops).step (w.pin id) ((w.pin id).setComponent id { c with node }) :=
      ⟨hw, rfl⟩
    refine Contract.Kept.after ?_ hmoved
    refine (lending_tended.read _ _).bind fun current => ?_
    by_cases hsame : c.node.id = current.id
    · simp only [hsame, if_true]
      exact .pure _
    · simp only [hsame, if_false]
      exact (lending_discard _ _ _).bind fun _ => .pure _

/-- If the node of a component is in use, then it is read. -/
theorem OfNode.read_of_conflicts {w : World κ} (hw : ∀ l ∈ w.loans, OfNode l) {id : ComponentId}
    (h : w.conflicts (.node id) .write = true) : (.node id, .read) ∈ w.loans := by
  obtain ⟨l, hl, hcell⟩ := List.any_eq_true.1 h
  obtain ⟨id', rfl⟩ := hw l hl
  simp only [Bool.and_eq_true, beq_iff_eq, Cell.node.injEq] at hcell
  obtain ⟨rfl, -⟩ := hcell
  exact hl

/-- Nothing but moving a component that is rendered stops for a conflict. -/
theorem lending_sparing (host : HostId → Host) (cell : Cell) :
    (lending OfNode (Unless cell)).Sparing (κ := κ) host (World.Interrupts cell) where
  exhausted := nofun
  stopped := nofun
  memory hw _ := ⟨hw, rfl⟩
  note hw _ := ⟨hw, rfl⟩
  perform user hu op w hw hop := by
    cases op with
    | update id node =>
      refine lending_update id node hw fun hconflict he => ?_
      cases he
      exact hop ⟨id, node, rfl, rfl, OfNode.read_of_conflicts hw hconflict⟩
    | _ => exact (lending_living.working lending_serving).perform hu (by nofun) w hw

/-- All operations give back what they use. -/
theorem lending_sound (host : HostId → Host) :
    (lending OfNode (· ≠ none)).Sound (κ := κ) host fun _ => True where
  exhausted := nofun
  memory hw _ := ⟨hw, rfl⟩
  note hw _ := ⟨hw, rfl⟩
  perform user hu op _ w hw := by
    cases op with
    | update id node => exact lending_update id node hw fun _ => nofun
    | _ => exact (lending_living.working lending_serving).perform hu (by nofun) w hw

/-- Moving a component that is rendered stops the run. -/
theorem update_conflicts {w : World κ} {id : ComponentId} {c : Component}
    (hc : w.components.get? id = some c) (hl : (.node id, .read) ∈ w.loans) (node : Node) :
    (Setting.perform ⟨host, user⟩ (.update id node)).run w =
      .error (some (.conflict (.node id))) := by
  have hpinned : (w.pin id).components.get? id = some c := hc
  have hconflict : (w.pin id).conflicts (.node id) .write = true :=
    List.any_eq_true.2 ⟨_, hl, by simp⟩
  have stops : (Act.withComponent id fun c => Act.update id c node).Wp
      (· = some (.conflict (.node id))) (fun _ _ => False) w := by
    rw [Act.wp_withComponent, hc]
    show (Act.pinned id _).Wp _ _ w
    rw [Act.wp_pinned, Act.wp_map]
    show (Act.update id c node).Wp _ _ (w.pin id)
    unfold Act.update
    rw [Act.wp_bind, Act.wp_swapNode hpinned, if_pos hconflict]
  cases hrun : (Setting.perform ⟨host, user⟩ (.update id node)).run w with
  | ok p => exact (stops.of_run hrun).elim
  | error e => rw [stops.of_stop hrun]

end

/-! ## Runs -/

/-- **The only conflict.** Where instances own nothing, a run of an application that stops because
some part of the world is in use has called an operation that moves a component while it is
rendered, and that part is the node of the component. Such an operation always stops the run. -/
theorem calls_of_conflict [Ownership κ] (hown : OwnsNothing κ) (app : Application κ)
    (prog : Program κ α) (targets : Dict TargetId EventTarget) (memory : κ.Memory) {depth : Nat}
    {cell : Cell}
    (h : (app.exec depth prog).run (World.start targets memory) =
      .error (some (.conflict cell))) :
    app.Calls prog (World.start targets memory) (World.Interrupts cell) ∧
    ∀ (user : Callbacks (Act κ)) (w : World κ) (id : ComponentId) (node : Node),
      (∃ c, w.components.get? id = some c) → w.Interrupts cell (.update id node) →
      (Setting.perform ⟨app.host, user⟩ (.update id node)).run w =
        .error (some (.conflict cell)) := by
  obtain rfl := hown.eq_nothing
  refine ⟨Classical.byContradiction fun hcalls => ?_, ?_⟩
  · have hstart : ∀ l ∈ (World.start targets memory : World κ).loans, OfNode l :=
      fun _ hl => by cases hl
    have hwp := (lending_sparing app.host cell).exec hstart hcalls depth
    exact hwp.of_stop h rfl
  · rintro user w id node ⟨c, hc⟩ ⟨id', node', hop, rfl, hl⟩
    cases hop
    exact update_conflicts hc hl node

/-- Why a run has stopped, if it has and there is a reason. -/
def haltOf {β : Type} : Except (Option Halt) β → Option Halt
  | .ok _ => none
  | .error e => e

theorem eq_error_of_haltOf {β : Type} {o : Except (Option Halt) β} {h : Halt}
    (hh : haltOf o = some h) : o = .error (some h) := by
  cases o with
  | ok _ => cases hh
  | error e => exact congrArg Except.error hh

/-! ## A view that moves its own component -/

namespace Mover

def view : Class := Class.view 0 "Wanderer" ⟨0, "Wanderer"⟩

def type : ComponentType where
  own :=
    { label := "Wanderer"
      definer := some ⟨"Wanderer",
        [⟨"name", [.text "wanderer"]⟩, ⟨"views", [.ofClass view]⟩]⟩ }

/-- Its views move the first component to another node when they render. -/
def application : Application ⟨Unit, Empty⟩ where
  host _ := {}
  code :=
    { load := fun _ path => .done (.error (.notFound path))
      make := fun _ => .done ()
      render := fun _ frame => .call (.update 0 ⟨2, ∅⟩) fun _ => .done (none, frame.pipe)
      handle := fun _ _ _ => .done ()
      listen := fun _ _ => .done () }

def program : Program ⟨Unit, Empty⟩ Unit :=
  .call (.create 0 type ⟨1, ∅⟩ ⟨0, "wanderer"⟩) fun _ => .call (.render 0 ∅) fun _ => .done ()

/-- How the program ends. -/
def outcome : Except (Option Halt) (Unit × World ⟨Unit, Empty⟩) :=
  (application.exec 2 program).run (World.start ∅ ())

theorem outcome_conflict : outcome = .error (some (.conflict (.node 0))) :=
  eq_error_of_haltOf (by decide +kernel)

end Mover

/-- A view that moves its own component interrupts its rendering. -/
theorem calls_of_conflict_mover :
    (Mover.application.exec 2 Mover.program).run (World.start ∅ ()) =
        .error (some (.conflict (.node 0))) ∧
      Mover.application.Calls Mover.program (World.start ∅ ()) (World.Interrupts (.node 0)) :=
  ⟨Mover.outcome_conflict,
    (calls_of_conflict (fun _ => rfl) Mover.application Mover.program ∅ ()
      Mover.outcome_conflict).1⟩

/-- It is not so that no run stops for a conflict. -/
theorem conflict_while_rendering :
    ¬∀ (κ : Client) (app : Application κ) (prog : Program κ Unit) (memory : κ.Memory)
      (depth : Nat) (cell : Cell),
      (app.exec depth prog).run (World.start ∅ memory) ≠ .error (some (.conflict cell)) :=
  fun h => h _ _ _ _ _ _ Mover.outcome_conflict

/-! ## A view that owns a component -/

namespace Keeper

/-- The variable that the second instance owns. -/
def kept : Handle := ⟨0, "kept"⟩

def view : Class := Class.view 0 "Keeper" ⟨0, "Keeper"⟩

def type : ComponentType where
  own :=
    { label := "Keeper"
      definer := some ⟨"Keeper", [⟨"name", [.text "keeper"]⟩, ⟨"views", [.ofClass view]⟩]⟩ }

@[reducible]
def ownership : Ownership ⟨Unit, Empty⟩ :=
  .ofHandles (fun inst => if inst.id = 2 then [kept] else []) 1

/-- While its first instance is made, the views of the component are resolved once more; the second
instance makes a component of its own. -/
def application : Application ⟨Unit, Empty⟩ where
  host _ := {}
  code :=
    { Callbacks.idle with
      make inst :=
        if inst.id = 1 then .call (.views 0) fun _ => .done ()
        else .call (.create 0 type ⟨2, ∅⟩ kept) fun _ => .done () }

def program : Program ⟨Unit, Empty⟩ Unit :=
  .call (.create 0 type ⟨1, ∅⟩ ⟨0, "keeper"⟩) fun _ => .call (.views 0) fun _ => .done ()

/-- No component is moved or rendered, and yet the run stops: the list with the second instance is
replaced while the entries are in use, and with the component that the instance owns goes an
entry. -/
theorem outcome_conflict :
    (@Application.exec _ ownership application 3 _ program).run (World.start ∅ ()) =
      .error (some (.conflict (.entries 0))) :=
  eq_error_of_haltOf (by decide +kernel)

end Keeper

end LayeredViews
