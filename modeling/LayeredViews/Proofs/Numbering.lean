import LayeredViews.Proofs.Calm

/-!
# Instances are numbered as they are made

Instances get increasing numbers, so one that is made is new: nothing known of older instances is
true of it. This holds whatever a contract takes "new" to mean.

* `Contract.Numbering`: no number below the next one becomes new under the contract, and the next
  one is.
* `Made`: an instance was made since some time and is new.
* `Contract.Numbering.resolveModel`, `Contract.Numbering.resolveViews`: what is resolved anew is
  made of such instances.
-/

namespace LayeredViews

variable {κ : Client} {α : Type}

/-- The instance was made since `w`, and is new in `w'`. -/
structure Made (New : InstanceId → List (Occurrence κ) → Prop) (w : World κ) (i : InstanceId)
    (w' : World κ) : Prop where
  since : w.nextInstance ≤ i
  before : i < w'.nextInstance
  new : New i w'.record

namespace Contract

variable (C : Contract κ)

/-- The action keeps the contract, and its value is such as `P` says. -/
def Yields (a : Act κ α) (P : World κ → α → World κ → Prop) : Prop :=
  ∀ w, C.inv w → a.Wp C.stops (fun x w' => (C.inv w' ∧ C.step w w') ∧ P w x w') w

/-- What is new: the number that the next instance gets, and what was new before. -/
structure Numbering (New : InstanceId → List (Occurrence κ) → Prop) : Prop
    extends C.Calming where
  next : ∀ {w w'}, C.step w w' → w.nextInstance ≤ w'.nextInstance
  new : ∀ {w}, C.inv w → New w.nextInstance w.record
  still : ∀ {w w'}, C.step w w' → ∀ i, i < w.nextInstance → New i w.record → New i w'.record

variable {C}

theorem Yields.kept {a : Act κ α} {P : World κ → α → World κ → Prop} (h : C.Yields a P) :
    C.Kept a := fun w hw => (h w hw).mono fun _ _ hx => hx.1

namespace Numbering

variable {New : InstanceId → List (Occurrence κ) → Prop} (hN : C.Numbering New)
include hN

/-- An instance that was made since a time was made since any time before. -/
theorem made_since {w w' w'' : World κ} {i : InstanceId} (h : C.step w w')
    (hm : Made New w' i w'') : Made New w i w'' :=
  ⟨Nat.le_trans (hN.next h) hm.since, hm.before, hm.new⟩

theorem made_still {w w' w'' : World κ} {i : InstanceId} (hm : Made New w i w')
    (h : C.step w' w'') : Made New w i w'' :=
  ⟨hm.since, Nat.lt_of_lt_of_le hm.before (hN.next h), hN.still h i hm.before hm.new⟩

variable {host : HostId → Host} {user : Callbacks (Act κ)} (hu : C.KeptBy user)
include hu

theorem make (capability : Capability) (factory : Factory) :
    C.Yields (Setting.make ⟨host, user⟩ capability factory)
      fun w inst w' => Made New w inst.id w' := by
  intro w hw
  obtain ⟨hcounted, hcount⟩ := hN.calm hw (.counted w)
  have made : Made New w w.nextInstance { w with nextInstance := w.nextInstance + 1 } :=
    ⟨Nat.le_refl _, Nat.lt_succ_self _, hN.new hw⟩
  have noted : C.Kept (Act.record (.made capability ⟨w.nextInstance, factory⟩)) := hN.idle trivial
  unfold Setting.make
  rw [Act.wp_bind, Act.wp_freshInstance]
  refine (noted _ hcounted).bind fun _ w₁ ⟨hw₁, hstep₁⟩ => ?_
  refine (hu.make _ w₁ hw₁).bind fun _ w₂ ⟨hw₂, hstep₂⟩ => ?_
  exact ⟨⟨hw₂, C.trans hcount (C.trans hstep₁ hstep₂)⟩,
    hN.made_still made (C.trans hstep₁ hstep₂)⟩

theorem instantiate (cls : Class) (capability : Capability) :
    C.Yields (Setting.instantiate ⟨host, user⟩ cls capability) fun w made w' =>
      ∀ inst, made = .ok inst → Made New w inst.id w' := by
  intro w hw
  unfold Setting.instantiate
  cases cls.factory capability with
  | error e => exact ⟨⟨hw, C.refl w⟩, fun _ h => by cases h⟩
  | ok factory =>
    refine (Act.wp_map _ _).2 ((hN.make hu capability factory w hw).mono ?_)
    intro inst w' ⟨hkept, hmade⟩
    exact ⟨hkept, fun inst' he => by cases he; exact hmade⟩

theorem makeModel (cls : Class) :
    C.Yields (Setting.makeModel ⟨host, user⟩ cls) fun w model w' =>
      ∀ m, model = .ok m → Made New w m.inst.id w' := by
  intro w hw
  unfold Setting.makeModel
  cases cls.ensure .viewModel with
  | error e => exact ⟨⟨hw, C.refl w⟩, fun _ h => by cases h⟩
  | ok _ =>
    have ran : C.Kept (cls.buildModel.ran.forM fun owner => Act.record (.defined owner)) :=
      .forM fun _ => hN.idle trivial
    refine (ran w hw).bind fun _ w₁ ⟨hw₁, hstep₁⟩ => ?_
    cases cls.buildModel.result with
    | error e => exact ⟨⟨hw₁, hstep₁⟩, fun _ h => by cases h⟩
    | ok name =>
      refine (hN.instantiate hu cls .viewModel w₁ hw₁).bind
        fun made w₂ ⟨⟨hw₂, hstep₂⟩, hmade⟩ => ?_
      cases made with
      | error e => exact ⟨⟨hw₂, C.trans hstep₁ hstep₂⟩, fun _ h => by cases h⟩
      | ok inst =>
        refine ⟨⟨hw₂, C.trans hstep₁ hstep₂⟩, fun m he => ?_⟩
        cases he
        exact hN.made_since hstep₁ (hmade inst rfl)

/-- A view model that is resolved anew has an instance that is new. -/
theorem resolveModel (c : Component) :
    C.Yields (Setting.resolveModel ⟨host, user⟩ c) fun w result w' =>
      ∀ m, result.1 = .ok m → Made New w m.inst.id w' := by
  intro w hw
  refine (hN.tended.classOf hu c.host _ _ w hw).bind fun ⟨found, paths⟩ w₁ ⟨hw₁, hstep₁⟩ => ?_
  cases found with
  | error e => exact ⟨⟨hw₁, hstep₁⟩, fun _ h => by cases h⟩
  | ok cls =>
    refine (hN.makeModel hu cls w₁ hw₁).bind fun model w₂ ⟨⟨hw₂, hstep₂⟩, hmade⟩ => ?_
    exact ⟨⟨hw₂, C.trans hstep₁ hstep₂⟩, fun m he => hN.made_since hstep₁ (hmade m he)⟩

/-- Views that are resolved anew have instances that are new, and are bound to the view model they
were resolved for. -/
theorem resolveViews (h : HostId) (model : Option Model) (ds : List Declaration) :
    C.Yields (Setting.resolveViews ⟨host, user⟩ h model ds) fun w result w' =>
      ∀ views, result.1 = .ok views → ∀ v ∈ views, v.model = model ∧ Made New w v.inst.id w' := by
  induction ds with
  | nil =>
    intro w hw
    refine ⟨⟨hw, C.refl w⟩, fun views he v hv => ?_⟩
    cases he
    cases hv
  | cons d rest ih =>
    intro w hw
    rw [Setting.resolveViews_cons]
    refine (hN.tended.classOf hu h _ d w hw).bind fun ⟨found, paths⟩ w₁ ⟨hw₁, hstep₁⟩ => ?_
    cases found with
    | error e => exact ⟨⟨hw₁, hstep₁⟩, fun _ h => by cases h⟩
    | ok cls =>
      refine (hN.instantiate hu cls .view w₁ hw₁).bind fun made w₂ ⟨⟨hw₂, hstep₂⟩, hmade⟩ => ?_
      have hstep := C.trans hstep₁ hstep₂
      cases made with
      | error e => exact ⟨⟨hw₂, hstep⟩, fun _ h => by cases h⟩
      | ok inst =>
        refine (ih w₂ hw₂).bind fun ⟨views, more⟩ w₃ ⟨⟨hw₃, hstep₃⟩, hviews⟩ => ?_
        refine ⟨⟨hw₃, C.trans hstep hstep₃⟩, fun all he v hv => ?_⟩
        cases views with
        | error e => cases he
        | ok views =>
          cases he
          rcases List.mem_cons.1 hv with rfl | hv
          · exact ⟨rfl, hN.made_since hstep₁ (hN.made_still (hmade inst rfl) hstep₃)⟩
          · obtain ⟨hmodel, hnew⟩ := hviews views rfl v hv
            exact ⟨hmodel, hN.made_since hstep hnew⟩

end Numbering

end Contract

end LayeredViews
