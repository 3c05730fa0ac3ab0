import LayeredViews.Run

/-!
# What instances own

* `OwnsNothing`: nothing happens when an instance is let go. So it is if nothing else is said
  (`OwnsNothing.eq_nothing`).
* `Ownership.ofHandles`: instances that own handles of components.
* `Setting.resolveViews_cons`, `Setting.views_eq`, `Setting.render_eq`: resolving and rendering
  where instances own nothing.
-/

namespace LayeredViews

variable {κ : Client}

/-- No instance owns anything. -/
def OwnsNothing (κ : Client) [Ownership κ] : Prop :=
  ∀ inst : Instance, Ownership.giveUp inst = (pure () : Act κ Unit)

/-- Instances that own nothing are those of which nothing is said. -/
theorem OwnsNothing.eq_nothing [o : Ownership κ] (h : OwnsNothing κ) : o = Ownership.nothing :=
  congrArg Ownership.mk (funext h)

/-- Some entry holds an instance. -/
def World.stores (w : World κ) (inst : Instance) : Bool :=
  w.caches.values.any fun cache => cache.values.any fun e => e.instances.contains inst

/-- Instances own variables. These are emptied when an instance is let go and no entry holds it. What
goes with them may own variables in turn, to the given depth. -/
@[reducible]
def Ownership.ofHandles (owned : Instance → List Handle) : Nat → Ownership κ
  | 0 => .nothing
  | depth + 1 =>
    { giveUp inst := do
        if (← get).stores inst then return ()
        else (owned inst).forM fun h => do
          let _ ← @Act.release κ (ofHandles owned depth) h }

/-- Where instances own nothing, nothing happens when they are let go. -/
@[simp] theorem Act.giveUp_nothing (instances : List Instance) :
    (giveUp instances : Act κ Unit) = pure () := by
  induction instances with
  | nil => rfl
  | cons inst rest ih => exact (pure_bind _ _).trans ih

theorem Act.bind_giveUp {α : Type} (a : Act κ α) (instances : α → List Instance) :
    (do
      let x ← a
      giveUp (instances x)
      return x) = a := by
  simp only [giveUp_nothing, pure_bind, bind_pure]

namespace Setting

variable (env : Setting κ)

theorem resolveViews_cons (h : HostId) (model : Option Model) (d : Declaration)
    (rest : List Declaration) :
    env.resolveViews h model (d :: rest) = do
      let (found, paths) ← env.classOf h (env.host h).config.viewPath d
      match found with
      | .error e => return (.error e, paths)
      | .ok cls =>
        match ← env.instantiate cls .view with
        | .error e => return (.error e, paths)
        | .ok inst =>
          let (views, more) ← env.resolveViews h model rest
          return (views.map (⟨d.label, inst, model⟩ :: ·), paths ++ more) := by
  simp only [resolveViews, resolveEach, bind_assoc, Act.giveUp_nothing, pure_bind]
  refine bind_congr fun r => ?_
  obtain ⟨found, paths⟩ := r
  cases found with
  | error e => simp only [pure_bind]
  | ok cls =>
    simp only [bind_assoc]
    refine bind_congr fun made => ?_
    cases made with
    | error e => simp only [pure_bind]
    | ok inst =>
      simp only [bind_assoc, pure_bind]
      refine bind_congr fun r => ?_
      obtain ⟨⟨views, error⟩, more⟩ := r
      cases error with
      | none => simp only [pure_bind, Except.map]
      | some e => simp only [pure_bind, Except.map]

theorem views_eq (id : ComponentId) (c : Component) :
    env.views id c = (do
      let node ← Act.nodeOf id c
      match (← Act.entryOf c.host node.id).views with
      | some list =>
        Act.record (.gave c.host node.id (.views list))
        return .ok list
      | none =>
        Act.record (.resolving c.host node.id .views)
        let (model, paths) ← env.modelWithSources id c
        match model with
        | .error e =>
          if e.isResolution then views.resolve env c node.id none paths
          else views.fail c node.id e
        | .ok m => views.resolve env c node.id (some m) paths) := by
  unfold views
  refine bind_congr fun node => bind_congr fun e => ?_
  cases e.views with
  | some list => rfl
  | none =>
    refine bind_congr fun _ => bind_congr fun r => ?_
    obtain ⟨model, paths⟩ := r
    cases model with
    | error e => rfl
    | ok m => exact Act.bind_giveUp _ fun _ => [m.inst]

theorem render_eq (id : ComponentId) (c : Component) (pipe : Pipe) :
    env.render id c pipe = (do
      match ← env.views id c with
      | .error e => return (.error e, pipe)
      | .ok list => render.composeAll env id c pipe list) := by
  unfold render
  refine bind_congr fun found => ?_
  cases found with
  | error e => rfl
  | ok list => exact Act.bind_giveUp _ fun _ => list.instances

end Setting

end LayeredViews
