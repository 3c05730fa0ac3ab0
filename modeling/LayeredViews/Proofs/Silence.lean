import LayeredViews.Proofs.Loans
import LayeredViews.Proofs.Private
import LayeredViews.Proofs.Tenure

/-!
# Operations during which no code calls an operation

While a component is resolved, loaders and factories run. Where they call no operation, they change
nothing but the memory of the application, and the component that is resolved stays what it is.

* `Application.Undisturbed op w`: while the operation is performed in `w`, no code calls an
  operation.
* `Callbacks.Silent`: the code that resolutions run does what code does that calls no operation, and
  stops for certain reasons only.
* `Application.Undisturbed.run_of_wp`: what an operation does with code that is stopped as it calls
  an operation, it does with the code of the application if it is undisturbed.
* `Application.silent_of_quiet`: code that has no calls in it.
* `Act.wp_withComponent_held`: a component that exists is held by somebody, so asking for it does
  not drop it.
-/

namespace LayeredViews

variable {κ : Client} {α : Type}

/-- Any operation at all. -/
abbrev AnyCall (_ : World κ) (_ : Op) : Prop := True

/-- The setting of an application in which code is stopped as it calls an operation. -/
noncomputable def Application.watched (app : Application κ) (depth : Nat) : Setting κ :=
  ⟨app.host, app.code.under (app.execBefore AnyCall depth)⟩

/-- The setting in which operations that a program calls are performed. -/
def Application.setting (app : Application κ) (depth : Nat) : Setting κ :=
  ⟨app.host, app.code.under (app.exec depth)⟩

/-- While the operation is performed in `w`, no code calls an operation. -/
def Application.Undisturbed (app : Application κ) (op : Op) (w : World κ) : Prop :=
  ∀ depth, ((app.watched depth).perform op).run w ≠ .error none

/-- The code that resolutions run changes nothing but the memory, and writes notes. -/
structure Callbacks.Silent (E : Option Halt → Prop) (user : Callbacks (Act κ)) : Prop where
  load : ∀ key path w, (user.load key path).Wp E (fun _ w' => w.Noted w') w
  make : ∀ inst w, (user.make inst).Wp E (fun _ w' => w.Noted w') w

/-! ## Undisturbed operations -/

/-- Code that is stopped as it calls an operation does nothing before that. -/
theorem Program.wp_before_any (perform : (op : Op) → Act κ op.Reply) (prog : Program κ α)
    (w : World κ) :
    (prog.run (Act.before AnyCall perform)).Wp (· = none) (fun _ w' => w.Noted w') w := by
  induction prog generalizing w with
  | done a => exact .refl w
  | look k ih =>
    rw [run, Act.wp_bind, Act.wp_get]
    exact ih w w
  | store m next ih =>
    rw [run, Act.wp_bind, Act.wp_modify]
    exact (ih _).mono fun _ _ hend => (World.Noted.stored w m).trans hend
  | note n next ih =>
    rw [run, Act.wp_bind, Act.wp_record]
    exact (ih _).mono fun _ _ hend => (World.Noted.noted w n).trans hend
  | call op k ih =>
    rw [run, Act.before, Act.wp_bind, Act.wp_bind, Act.wp_watch]
    exact ⟨fun _ => rfl, fun hnot => absurd trivial hnot⟩

namespace Application

variable {app : Application κ} {op : Op} {w : World κ}

theorem execBefore_any (app : Application κ) (depth : Nat) (prog : Program κ α) (w : World κ) :
    (app.execBefore AnyCall depth prog).Wp (· = none) (fun _ w' => w.Noted w') w := by
  cases depth with
  | zero => exact prog.wp_before_any _ w
  | succ depth => exact prog.wp_before_any _ w

theorem watched_silent (app : Application κ) (depth : Nat) :
    (app.watched depth).user.Silent (· = none) where
  load key path w := app.execBefore_any depth (app.code.load key path) w
  make inst w := app.execBefore_any depth (app.code.make inst) w

/-- **Undisturbed operations.** An operation during which no code calls an operation ends, if all
that could stop it is such a call. -/
theorem Undisturbed.run_of_wp {Q : op.Reply → World κ → Prop} (h : app.Undisturbed op w)
    {depth : Nat} (hwp : ((app.watched depth).perform op).Wp (· = none) Q w) :
    ∃ r w', ((app.setting depth).perform op).run w = .ok (r, w') ∧ Q r w' := by
  have runs : (app.code.under (app.execBefore AnyCall depth)).Follows
      (app.code.under (app.exec depth)) :=
    .under (fun prog => app.execBefore_follows AnyCall depth prog) app.code
  have hsame : ((app.watched depth).perform op).run w = ((app.setting depth).perform op).run w :=
    (Setting.perform_follows runs op w).resolve_left (h depth)
  cases hrun : ((app.watched depth).perform op).run w with
  | ok p => exact ⟨p.1, p.2, hsame.symm.trans hrun, hwp.of_run hrun⟩
  | error e => exact absurd ((hwp.of_stop hrun) ▸ hrun) (h depth)

/-- Code that has no calls in it does not stop. -/
theorem silent_of_quiet (hload : ∀ key path w, (app.code.load key path).Quietly (fun _ _ => True) w)
    (hmake : ∀ inst w, (app.code.make inst).Quietly (fun _ _ => True) w) (depth : Nat) :
    (app.watched depth).user.Silent fun _ => False := by
  have noted : ∀ {α : Type} {prog : Program κ α} {w : World κ},
      prog.Quietly (fun _ _ => True) w →
      (app.execBefore AnyCall depth prog).Wp (fun _ => False) (fun _ w' => w.Noted w') w := by
    intro α prog w hquiet
    cases depth with
    | zero => exact (hquiet.wp_noted _ _).mono fun _ _ h => h.2
    | succ depth => exact (hquiet.wp_noted _ _).mono fun _ _ h => h.2
  exact ⟨fun key path w => noted (hload key path w), fun inst w => noted (hmake inst w)⟩

end Application

/-! ## Components that are held -/

/-- In a world that a run comes to, nothing but nodes is in use. -/
theorem ofNode_of_reaches {app : Application κ} {prog : Program κ α}
    {targets : Dict TargetId EventTarget} {memory : κ.Memory} {w : World κ}
    (h : app.Reaches prog (World.start targets memory) w) : ∀ l ∈ w.loans, OfNode l := by
  have hstart : ∀ l ∈ (World.start targets memory : World κ).loans, OfNode l :=
    fun _ hl => by cases hl
  exact Contract.inv_of_reaches (lending_sound app.host) (fun hs => hs rfl)
    (Callbacks.uses_of_forall (fun _ => trivial) app.code)
    (Program.uses_of_forall (fun _ => trivial) prog) hstart h

/-- What exists is held in `w` and is held after something that leaves those who hold it alone. So
asking for a component ends as soon as the body does. -/
theorem Act.wp_withComponent_held {E : Option Halt → Prop} {Q : α → World κ → Prop} {w : World κ}
    {i : ComponentId} {c : Component} (hw : Tenure none w) (hc : w.components.get? i = some c)
    {body : Component → Act κ α}
    (hbody : (body c).Wp E (fun a w' => w'.handles = w.handles ∧ w'.pins = i :: w.pins ∧ Q a w')
      (w.pin i)) :
    (withComponent i body).Wp E (fun r w' => ∃ a w₁, r = some a ∧ w' = w₁.unpin ∧ Q a w₁) w := by
  rw [wp_withComponent, hc]
  dsimp only
  rw [wp_pinned, wp_map]
  refine hbody.mono fun a w₁ ⟨hhandles, hpins, ha⟩ => ?_
  have hheld : w₁.unpin.holds i = true := by
    have hpins' : w₁.unpin.pins = w.pins := congrArg List.tail hpins
    rcases hw.held i _ (World.location_of_get? hc) nofun with hvariable | hpin
    · obtain ⟨h, hi⟩ := hvariable
      exact World.holds_of_inVariable ⟨h, (congrArg (fun d => Dict.get? d h) hhandles).trans hi⟩
    · simp [World.holds, hpins', hpin]
  rw [wp_settle, if_pos hheld]
  exact ⟨a, w₁, rfl, rfl, ha⟩

end LayeredViews
