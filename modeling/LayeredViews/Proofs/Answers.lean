import LayeredViews.Proofs.Memo

/-!
# Whether two answers for a node are the same

Views and view models are stored for their node, so one would expect two accesses to give the same
as long as nothing is dropped in between. Code can call back, though: an access made while the node
is being resolved resolves it anew, and what is stored last replaces what the other one was given.

* `same_answer_iff`: in every run, two answers are the same if and only if nothing was stored for
  the node in between; what is stored in between comes from a resolution that was under way when
  the first answer was given.
* `Impatient.application`: an application whose view model asks for itself while it is made, so
  that its answers differ (`answers_differ_under_resolution`).
-/

namespace LayeredViews

variable {κ : Client} {α : Type}

/-- **When two answers for a node are the same.** In every run of every application, whatever its
code calls back: of two answers of an aspect for a node, with no drop of its entry in between, the
second is the first if and only if nothing of the aspect was stored for the node in between. What
was stored in between comes from a resolution under way when the first answer was given, so the
answers are the same unless the first was given while the node was being resolved. -/
theorem same_answer_iff (app : Application κ) (prog : Program κ α)
    (targets : Dict TargetId EventTarget) (memory : κ.Memory) {v : World κ}
    (hv : app.Reaches prog (World.start targets memory) v) {a b c : List (Occurrence κ)}
    {h : HostId} {n : NodeId} {x y : Resolved}
    (hr : v.record = c ++ .gave h n y :: (b ++ .gave h n x :: a)) (ha : y.aspect = x.aspect)
    (hd : ∀ cause, .dropped h n cause ∉ b) :
    (x = y ↔ ∀ z, z.aspect = x.aspect → .stored h n z ∉ b) ∧
      ∀ z, z.aspect = x.aspect → .stored h n z ∈ b → 0 < underWay h n x.aspect a :=
  (hr ▸ (memoized_of_reaches hv).chronicle).gave_eq_iff ha hd

/-! ## A view model that asks for itself -/

namespace Impatient

/-- The memory says whether an instance was made. -/
abbrev client : Client := ⟨Bool, Empty⟩

def model : Class := Class.viewModel 0 "Clock" ⟨0, "Clock"⟩

def type : ComponentType where
  own :=
    { label := "Face"
      definer := some ⟨"Face", [⟨"name", [.text "face"]⟩, ⟨"viewmodel", [.ofClass model]⟩]⟩ }

/-- While the first instance is made, it asks for the view model of the component. -/
def application : Application client where
  host _ := {}
  code :=
    { load := fun _ path => .done (.error (.notFound path))
      make := fun _ => .look fun w =>
        if w.memory then .done () else .store true (.call (.model 0) fun _ => .done ())
      render := fun _ frame => .done (none, frame.pipe)
      handle := fun _ _ _ => .done ()
      listen := fun _ _ => .done () }

def program : Program client Unit :=
  .call (.create 0 type ⟨1, ∅⟩ ⟨0, "face"⟩) fun _ => .call (.model 0) fun _ => .done ()

/-- The view model with a given instance. -/
def clock (i : InstanceId) : Resolved := .model ⟨"Clock", i, ⟨0, "Clock"⟩⟩

/-- What an occurrence says about the answers for a node: one was given, or the entry was
dropped. -/
def bearing : Occurrence client → Option (HostId × NodeId × Option Resolved)
  | .gave h n x => some (h, n, some x)
  | .dropped h n _ => some (h, n, none)
  | _ => none

theorem eq_gave {o : Occurrence client} {h : HostId} {n : NodeId} {x : Resolved}
    (ho : bearing o = some (h, n, some x)) : o = .gave h n x := by
  cases o <;> simp_all [bearing]

/-- How the program ends. -/
def outcome : Except (Option Halt) (Unit × World client) :=
  (application.exec 3 program).run (World.start ∅ false)

/-- The second instance is given first, the first one in the end. -/
theorem outcome_record :
    (match outcome with
      | .ok (_, v) => some (v.record.map bearing)
      | .error _ => none) =
      some [some (0, 1, some (clock 1)), none, some (0, 1, some (clock 2)), none, none, none,
        none, none, none] := by
  decide +kernel

/-- Two answers are given for the node, and nothing is dropped in between. -/
theorem reaches_answers :
    ∃ v a b, application.Reaches program (World.start ∅ false) v ∧
      v.record = [] ++ .gave 0 1 (clock 1) :: (b ++ .gave 0 1 (clock 2) :: a) ∧
      ∀ cause, .dropped 0 1 cause ∉ b := by
  have hrun := outcome_record
  cases ho : outcome with
  | error e => simp [ho] at hrun
  | ok p =>
    obtain ⟨_, v⟩ := p
    simp only [ho, Option.some.injEq, List.map_eq_cons_iff] at hrun
    obtain ⟨o₁, _, hv, h₁, o₂, _, rfl, h₂, o₃, a, rfl, h₃, -⟩ := hrun
    refine ⟨v, a, [o₂], Application.reaches_of_exec ho, ?_, fun cause hm => ?_⟩
    · rw [hv, eq_gave h₁, eq_gave h₃]
      rfl
    · rw [← List.mem_singleton.1 hm] at h₂
      cases h₂

end Impatient

/-- A view model that asks for itself while it is made is under way when it is answered. -/
theorem same_answer_iff_impatient :
    ∃ (v : World Impatient.client) (a b : List (Occurrence Impatient.client)),
      Impatient.application.Reaches Impatient.program (World.start ∅ false) v ∧
      v.record = [] ++ .gave 0 1 (Impatient.clock 1) :: (b ++ .gave 0 1 (Impatient.clock 2) :: a) ∧
      (∀ cause, .dropped 0 1 cause ∉ b) ∧
      (Impatient.clock 2 = Impatient.clock 1 ↔
        ∀ z : Resolved, z.aspect = .model → .stored 0 1 z ∉ b) := by
  obtain ⟨v, a, b, hv, hr, hd⟩ := Impatient.reaches_answers
  exact ⟨v, a, b, hv, hr, hd, (same_answer_iff _ _ _ _ hv hr rfl hd).1⟩

/-- It is not so that two answers for a node are the same whenever nothing is dropped in
between. -/
theorem answers_differ_under_resolution :
    ¬∀ (κ : Client) (app : Application κ) (prog : Program κ Unit) (memory : κ.Memory)
      (v : World κ), app.Reaches prog (World.start ∅ memory) v →
        ∀ (a b c : List (Occurrence κ)) (h : HostId) (n : NodeId) (x y : Resolved),
          v.record = c ++ .gave h n y :: (b ++ .gave h n x :: a) → y.aspect = x.aspect →
          (∀ cause, .dropped h n cause ∉ b) → x = y := by
  intro hsame
  obtain ⟨v, a, b, hv, hr, hd⟩ := Impatient.reaches_answers
  have he := hsame _ _ _ _ v hv a b [] 0 1 (Impatient.clock 2) (Impatient.clock 1) hr rfl hd
  exact absurd he (by decide)

end LayeredViews
