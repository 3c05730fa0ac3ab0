import LayeredViews.Proofs.Mismatch
import Mathlib.Data.List.Induction

/-!
# Deriving classes

Classes are made one after the other, from nothing or from a class made before. A class that is
made so has a descent: the constructor that it starts from, and the steps that lead from there to
it.

* `Making`, `Making.run`: what is made, and the classes there are afterwards. A class is known by
  its place among them.
* `Descent`: the descent of a class, read off what was made.
* `Class.Derived`: what a descent says of a class; of every class that was made its descent does
  (`Making.derived_of_run`).
* `Class.Derived.instantiate`: what instantiating a class does, by where it starts from.
* `class_of_descent`: the capability, the instances, the name and the definer of every class that
  is ever made, and that nothing made later changes them.
-/

namespace LayeredViews

/-- What a class starts from. -/
inductive Origin where
  | view (make : Factory)
  | viewModel (make : Factory)
  | plain

/-- A step from one class to another. -/
inductive Derivation where
  | extend (name : String)
  | withDefiner (definer : Definer)

/-- How a class is made. A class made before is given by its place. -/
inductive Making where
  | start (origin : Origin) (name : String)
  | derive (base : Nat) (step : Derivation)

namespace Origin

/-- A class that starts from here. -/
def cls (id : Nat) (name : String) : Origin → Class
  | view make => Class.view id name make
  | viewModel make => Class.viewModel id name make
  | plain => Class.plain id name

/-- The body that the constructor gives. -/
def body : Origin → Body
  | view make => .view make
  | viewModel make => .viewModel make
  | plain => .plain

/-- The capability that the constructor gives. -/
def capability : Origin → Option Capability
  | view _ => some .view
  | viewModel _ => some .viewModel
  | plain => none

/-- The factory that the constructor was given, if it is one for the capability. -/
def factory? : Origin → Capability → Option Factory
  | view make, .view => some make
  | viewModel make, .viewModel => some make
  | _, _ => none

end Origin

namespace Derivation

/-- The class that a step makes of `c`. -/
def cls (c : Class) (id : Nat) : Derivation → Class
  | extend name => c.extend id name
  | withDefiner definer => c.withDefiner id definer

/-- The name that a step gives. -/
def name? : Derivation → Option String
  | extend name => some name
  | withDefiner _ => none

/-- The definer that a step gives. -/
def definer? : Derivation → Option Definer
  | extend _ => none
  | withDefiner definer => some definer

end Derivation

namespace Making

/-- The classes after one more was made; its identity is its place. -/
def apply (classes : List Class) : Making → Option (List Class)
  | start origin name => some (classes ++ [origin.cls classes.length name])
  | derive base step => classes[base]?.map fun c => classes ++ [step.cls c classes.length]

/-- The classes after all of them were made; `none` when a base does not exist. -/
def run (makings : List Making) : Option (List Class) := makings.foldlM apply []

theorem apply_eq_some {classes classes' : List Class} {making : Making}
    (h : making.apply classes = some classes') :
    ∃ c, classes' = classes ++ [c] ∧ c.id = classes.length := by
  cases making with
  | start origin name =>
    obtain rfl := Option.some.inj h
    exact ⟨_, rfl, by cases origin <;> rfl⟩
  | derive base step =>
    obtain ⟨c, -, rfl⟩ := Option.map_eq_some_iff.1 h
    exact ⟨_, rfl, by cases step <;> rfl⟩

theorem run_append (makings more : List Making) :
    run (makings ++ more) = (run makings).bind fun classes => more.foldlM apply classes :=
  List.foldlM_append

/-- The last class made comes after those made before it. -/
theorem run_append_singleton {makings : List Making} {making : Making} {classes : List Class}
    (h : run (makings ++ [making]) = some classes) :
    ∃ before, run makings = some before ∧ making.apply before = some classes := by
  rw [run_append] at h
  obtain ⟨before, hbefore, hlast⟩ := Option.bind_eq_some_iff.1 h
  exact ⟨before, hbefore, by simpa using hlast⟩

/-- What is made later leaves the classes there are as they are. -/
theorem prefix_of_run {makings more : List Making} {classes classes' : List Class}
    (h : run makings = some classes) (h' : run (makings ++ more) = some classes') :
    classes <+: classes' := by
  induction more using List.reverseRecOn generalizing classes' with
  | nil =>
    rw [List.append_nil, h] at h'
    exact Option.some.inj h' ▸ List.prefix_refl _
  | append_singleton more making ih =>
    obtain ⟨before, hbefore, hlast⟩ := run_append_singleton (List.append_assoc .. ▸ h')
    obtain ⟨c, rfl, -⟩ := apply_eq_some hlast
    exact (ih hbefore).trans (List.prefix_append before [c])

/-- A class that is there when one more was made was there before, or it is that one. -/
theorem getElem?_append_last {classes : List Class} {c d : Class} {i : Nat}
    (h : (classes ++ [d])[i]? = some c) :
    classes[i]? = some c ∨ i = classes.length ∧ c = d := by
  rcases Nat.lt_or_ge i classes.length with hi | hi
  · exact .inl (List.getElem?_append_left hi ▸ h)
  · rw [List.getElem?_append_right hi] at h
    obtain ⟨hi', he⟩ := List.getElem?_eq_some_iff.1 h
    have hi0 : i - classes.length = 0 := by simpa using hi'
    exact .inr ⟨by omega, by simpa [hi0] using he.symm⟩

/-- There is one class for each, and the identity of a class is its place. -/
theorem id_of_run {makings : List Making} {classes : List Class} (h : run makings = some classes) :
    classes.length = makings.length ∧ ∀ (i : Nat) (c : Class), classes[i]? = some c → c.id = i := by
  induction makings using List.reverseRecOn generalizing classes with
  | nil =>
    obtain rfl := Option.some.inj h
    exact ⟨rfl, fun i c hc => nomatch hc⟩
  | append_singleton makings making ih =>
    obtain ⟨before, hbefore, hlast⟩ := run_append_singleton h
    obtain ⟨hlength, hids⟩ := ih hbefore
    obtain ⟨last, rfl, hid⟩ := apply_eq_some hlast
    refine ⟨by simp [hlength], fun i c hc => ?_⟩
    rcases getElem?_append_last hc with hc | ⟨rfl, rfl⟩
    · exact hids i c hc
    · exact hid

end Making

/-- The descent of the class at a place: where it starts from, under which name, and the steps. -/
inductive Descent (makings : List Making) : Nat → Origin → String → List Derivation → Prop where
  | start {i : Nat} {origin : Origin} {name : String}
      (h : makings[i]? = some (.start origin name)) : Descent makings i origin name []
  | derive {i base : Nat} {origin : Origin} {name : String} {steps : List Derivation}
      {step : Derivation} (h : makings[i]? = some (.derive base step))
      (descent : Descent makings base origin name steps) :
      Descent makings i origin name (steps ++ [step])

theorem Descent.append {makings : List Making} {i : Nat} {origin : Origin} {name : String}
    {steps : List Derivation} (h : Descent makings i origin name steps) (more : List Making) :
    Descent (makings ++ more) i origin name steps := by
  have later {i : Nat} {making : Making} (h : makings[i]? = some making) :
      (makings ++ more)[i]? = some making := by
    rw [List.getElem?_append_left (List.getElem?_eq_some_iff.1 h).1, h]
  induction h with
  | start h => exact .start (later h)
  | derive h _ ih => exact .derive (later h) ih

/-- A class has one descent. -/
theorem Descent.unique {makings : List Making} {i : Nat} {origin origin' : Origin}
    {name name' : String} {steps steps' : List Derivation}
    (h : Descent makings i origin name steps) (h' : Descent makings i origin' name' steps') :
    origin = origin' ∧ name = name' ∧ steps = steps' := by
  induction h generalizing origin' name' steps' with
  | start h =>
    cases h' with
    | start h' =>
      cases h.symm.trans h'
      exact ⟨rfl, rfl, rfl⟩
    | derive h' _ => cases h.symm.trans h'
  | derive h _ ih =>
    cases h' with
    | start h' => cases h.symm.trans h'
    | derive h' descent' =>
      cases h.symm.trans h'
      obtain ⟨rfl, rfl, rfl⟩ := ih descent'
      exact ⟨rfl, rfl, rfl⟩

namespace Class

/-! ## What a step keeps -/

variable (c : Class) (id : Nat)

@[simp] theorem body_extend (name : String) : (c.extend id name).body = c.body := rfl

@[simp] theorem body_withDefiner (definer : Definer) :
    (c.withDefiner id definer).body = c.body := rfl

@[simp] theorem definer_extend (name : String) : (c.extend id name).definer = c.definer := rfl

@[simp] theorem definer_withDefiner (definer : Definer) :
    (c.withDefiner id definer).definer = some definer := rfl

/-- What a descent says of a class. -/
structure Derived (c : Class) (origin : Origin) (name : String) (steps : List Derivation) :
    Prop where
  body : c.body = origin.body
  name : c.name = (steps.filterMap Derivation.name?).getLast?.getD name
  definer : c.definer = (steps.filterMap Derivation.definer?).getLast?

theorem Derived.start (id : Nat) (origin : Origin) (name : String) :
    (origin.cls id name).Derived origin name [] := by
  cases origin <;> exact ⟨rfl, rfl, rfl⟩

variable {c} {origin : Origin} {name : String} {steps : List Derivation}

/-- Every step keeps the body; it gives a name or a definer. -/
theorem Derived.step (h : c.Derived origin name steps) (id : Nat) (step : Derivation) :
    (step.cls c id).Derived origin name (steps ++ [step]) := by
  have hname : c.name = ((steps.filterMap Derivation.name?) ++ []).getLast?.getD name := by
    rw [List.append_nil, h.name]
  have hdefiner : c.definer = ((steps.filterMap Derivation.definer?) ++ []).getLast? := by
    rw [List.append_nil, h.definer]
  cases step with
  | extend next =>
    refine ⟨h.body, ?_, ?_⟩ <;> rw [List.filterMap_append]
    · exact (congrArg (Option.getD · name) List.getLast?_concat).symm
    · exact hdefiner
  | withDefiner definer =>
    refine ⟨h.body, ?_, ?_⟩ <;> rw [List.filterMap_append]
    · exact hname
    · exact List.getLast?_concat.symm

theorem Derived.capability (h : c.Derived origin name steps) :
    c.capability = origin.capability := by
  rw [capability_eq_body, h.body]
  cases origin <;> rfl

/-- The factory that is used is the one that the class starts from. -/
theorem Derived.factory (h : c.Derived origin name steps) (capability : Capability) :
    c.factory capability =
      match origin.factory? capability with
      | some make => .ok make
      | none => .error (.typeMismatch c.name capability) := by
  cases capability <;> cases origin <;>
    simp only [Class.factory, viewFactory, viewModelFactory, h.body, Origin.body, Origin.factory?]

/-- The check agrees with the factory. -/
theorem Derived.ensure (h : c.Derived origin name steps) (capability : Capability) :
    c.ensure capability =
      match origin.factory? capability with
      | some _ => .ok ()
      | none => .error (.typeMismatch c.name capability) := by
  rw [Class.ensure, satisfies, h.capability]
  cases capability <;> cases origin <;> rfl

end Class

/-- The name that a definer gives when it is run alone, for what is called `label`. -/
def DefinerOf.naming (definer : Definer) (label : String) : Built String where
  ran := [definer.owner]
  result :=
    let session := Vocabulary.viewModel.runDefiner ∅ definer
    match session.error, session.declarations.name with
    | some e, _ => .error e
    | none, none => .error (.configuration (.missingName label))
    | none, some name =>
      if name = "" then .error (.configuration (.emptyName label)) else .ok name

/-- Nothing but the definer of a class is run for the name of its view models. -/
theorem Class.buildModel_eq (c : Class) :
    c.buildModel =
      match c.definer with
      | none => ⟨[], .ok c.name⟩
      | some definer => definer.naming c.name := by
  unfold buildModel
  cases c.definer with
  | none => rfl
  | some definer =>
    simp only [DefinerOf.naming, Vocabulary.run, Vocabulary.runFrom]
    cases he : (Vocabulary.viewModel.runDefiner ∅ definer).error with
    | some e => rfl
    | none =>
      simp only [Vocabulary.Run.owners, Except.bind]
      cases (Vocabulary.viewModel.runDefiner ∅ definer).declarations.name <;> rfl

variable {κ : Client}

/-- Instantiating a class runs the factory that it starts from, once, or nothing at all. -/
theorem Class.Derived.instantiate {c : Class} {origin : Origin} {name : String}
    {steps : List Derivation} (h : c.Derived origin name steps) (env : Setting κ)
    (capability : Capability) (w : World κ) :
    (env.instantiate c capability).run w =
      match origin.factory? capability with
      | none => .ok (.error (.typeMismatch c.name capability), w)
      | some make =>
        let inst : Instance := ⟨w.nextInstance, make⟩
        ((fun _ => .ok inst) <$> env.user.make inst).run
          { w with
            nextInstance := w.nextInstance + 1
            record := .made capability inst :: w.record } := by
  rw [Setting.instantiate, h.factory]
  cases origin.factory? capability with
  | none => rfl
  | some make =>
    simp only [Setting.make, map_bind, bind_pure_comp, Functor.map_map]
    rfl

/-- A class that was made has a descent, and it is as this says. -/
theorem Making.derived_of_run {makings : List Making} {classes : List Class}
    (h : run makings = some classes) {i : Nat} {c : Class} (hc : classes[i]? = some c) :
    ∃ origin name steps, Descent makings i origin name steps ∧ c.Derived origin name steps := by
  -- from the last class made: its base was there before, and has a descent by induction
  induction makings using List.reverseRecOn generalizing classes i c with
  | nil =>
    obtain rfl := Option.some.inj h
    cases hc
  | append_singleton makings making ih =>
    obtain ⟨before, hbefore, hlast⟩ := run_append_singleton h
    have hlength := (id_of_run hbefore).1
    obtain ⟨last, rfl, -⟩ := apply_eq_some hlast
    rcases getElem?_append_last hc with hc | ⟨rfl, rfl⟩
    · obtain ⟨origin, name, steps, hdescent, hderived⟩ := ih hbefore hc
      exact ⟨origin, name, steps, hdescent.append _, hderived⟩
    have hmaking : (makings ++ [making])[before.length]? = some making := by simp [hlength]
    cases making with
    | start origin name =>
      obtain rfl : origin.cls before.length name = c := by simpa [apply] using hlast
      exact ⟨origin, name, [], .start hmaking, .start ..⟩
    | derive base step =>
      obtain ⟨parent, hparent, hmade⟩ := Option.map_eq_some_iff.1 hlast
      obtain rfl : step.cls parent before.length = c := by simpa using hmade
      obtain ⟨origin, name, steps, hdescent, hderived⟩ := ih hbefore hparent
      exact ⟨origin, name, _, .derive hmaking (hdescent.append _), hderived.step _ step⟩

/-- **Descent decides.** A class that was made from a constructor by extending and by giving
definers has the capability of that constructor. The check for a capability and instantiating
agree: they succeed where the constructor has the capability, and are refused under the class's own
name where it has not; instantiating runs the constructor's factory, once, and no other. The last
definer given is the definer of the class, and only that one is run for the name of its view
models; without any the class gives its own name. A class that is made later is another one and
changes none of this. -/
theorem class_of_descent {makings : List Making} {classes : List Class}
    (hmade : Making.run makings = some classes) {i : Nat} {c : Class}
    (hc : classes[i]? = some c) :
    ∃ origin name steps, Descent makings i origin name steps ∧
      c.capability = origin.capability ∧
      c.name = (steps.filterMap Derivation.name?).getLast?.getD name ∧
      (∀ capability,
        match origin.factory? capability with
        | some make =>
          c.ensure capability = .ok () ∧
          ∀ (env : Setting κ) (w : World κ),
            (env.instantiate c capability).run w =
              let inst : Instance := ⟨w.nextInstance, make⟩
              ((fun _ => .ok inst) <$> env.user.make inst).run
                { w with
                  nextInstance := w.nextInstance + 1
                  record := .made capability inst :: w.record }
        | none =>
          c.ensure capability = .error (.typeMismatch c.name capability) ∧
          ∀ (env : Setting κ) (w : World κ),
            (env.instantiate c capability).run w =
              .ok (.error (.typeMismatch c.name capability), w)) ∧
      c.definer = (steps.filterMap Derivation.definer?).getLast? ∧
      (c.buildModel =
        match (steps.filterMap Derivation.definer?).getLast? with
        | some definer => definer.naming c.name
        | none => ⟨[], .ok c.name⟩) ∧
      ∀ more classes', Making.run (makings ++ more) = some classes' →
        classes'[i]? = some c ∧ ∀ j d, classes'[j]? = some d → (d.same c = true ↔ j = i) := by
  obtain ⟨origin, name, steps, hdescent, hderived⟩ := Making.derived_of_run hmade hc
  refine ⟨origin, name, steps, hdescent, hderived.capability, hderived.name, fun capability => ?_,
    hderived.definer, ?_, fun more classes' hmore => ?_⟩
  · have hensure := hderived.ensure capability
    have hrun (env : Setting κ) (w : World κ) := hderived.instantiate env capability w
    cases hmake : origin.factory? capability with
    | some make =>
      simp only [hmake] at hensure hrun
      exact ⟨hensure, hrun⟩
    | none =>
      simp only [hmake] at hensure hrun
      exact ⟨hensure, hrun⟩
  · rw [c.buildModel_eq, hderived.definer]
    cases (steps.filterMap Derivation.definer?).getLast? <;> rfl
  · obtain ⟨rest, rfl⟩ := Making.prefix_of_run hmade hmore
    have hc' : (classes ++ rest)[i]? = some c :=
      List.getElem?_append_left (List.getElem?_eq_some_iff.1 hc).1 ▸ hc
    have hids := (Making.id_of_run hmore).2
    refine ⟨hc', fun j d hd => ?_⟩
    rw [Class.same, beq_iff_eq, hids j d hd, hids i c hc']

namespace Renamed

/-- A definer that gives a name. -/
def definer (name : String) : Definer := ⟨name, [⟨"name", [.text name]⟩]⟩

/-- A view model class with a definer, a class derived from it, that one with a definer of its own,
and a class derived from there. -/
def makings : List Making :=
  [.start (.viewModel ⟨1, "Model"⟩) "Model", .derive 0 (.withDefiner (definer "first")),
    .derive 1 (.extend "Middle"), .derive 2 (.withDefiner (definer "second")),
    .derive 3 (.extend "Tip")]

/-- How the last class comes about. -/
theorem descent : Descent makings 4 (.viewModel ⟨1, "Model"⟩) "Model"
    [.withDefiner (definer "first"), .extend "Middle", .withDefiner (definer "second"),
      .extend "Tip"] :=
  .derive rfl (.derive rfl (.derive rfl (.derive rfl (.start rfl))))

end Renamed

/-- A class at the end of a chain with two definers in it. -/
theorem class_of_descent_renamed :
    ∃ classes c, Making.run Renamed.makings = some classes ∧ classes[4]? = some c ∧
      c.capability = some .viewModel ∧ c.ensure .viewModel = .ok () ∧
      c.ensure .view = .error (.typeMismatch "Tip" .view) ∧
      c.buildModel.ran = ["second"] ∧ c.buildModel.result = .ok "second" := by
  obtain ⟨classes, hmade⟩ : ∃ classes, Making.run Renamed.makings = some classes := ⟨_, rfl⟩
  obtain ⟨c, hc⟩ : ∃ c, classes[4]? = some c := by
    cases hmade
    exact ⟨_, rfl⟩
  refine ⟨classes, c, hmade, hc, ?_⟩
  obtain ⟨origin, name, steps, hdescent, hcapability, hname, hinstances, -, hmodel, -⟩ :=
    class_of_descent (κ := ⟨Unit, Unit⟩) hmade hc
  obtain ⟨rfl, rfl, rfl⟩ := Renamed.descent.unique hdescent
  have htip : c.name = "Tip" := hname
  exact ⟨hcapability, (hinstances .viewModel).1, htip ▸ (hinstances .view).1,
    congrArg Built.ran hmodel, congrArg Built.result hmodel⟩

end LayeredViews
