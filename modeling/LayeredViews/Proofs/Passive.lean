import LayeredViews.Proofs.Wp

/-!
# Code that stays passive

An application is passive when its loaders, factories and view bodies call no operation, its loaders
look their classes up, and what a view produces depends on nothing but what it is given.

* `Program.Quietly Q p w`: started in `w`, the program ends with a value and a memory of which `Q`
  holds, and calls no operation.
* `Library`: what loaders look into, as the application's memory has it.
* `Application.Passive app lib draw`: the application is passive; `draw` says what views produce.
* `Library.Unmoved lib w w'`: what passive code leaves alone.
* `Library.Serves lib draw user`: the same about code that is run, whatever runs it.

Instances made separately differ in their numbers; `Instance.anonymous`, and the same for what
contains instances, forgets them.
-/

namespace LayeredViews

variable {κ : Client} {α : Type}

/-! ## Quiet programs -/

/-- The program calls no operation when it is started in a world; it ends with a value and a memory
of which `Q` holds. -/
def Program.Quietly (Q : α → κ.Memory → Prop) : Program κ α → World κ → Prop
  | .done a, w => Q a w.memory
  | .look k, w => (k w).Quietly Q w
  | .store m next, w => next.Quietly Q { w with memory := m }
  | .note n next, w => next.Quietly Q { w with record := .noted n :: w.record }
  | .call _ _, _ => False

/-- Whatever performs operations, a quiet program ends, and changes the memory and the record
only. -/
theorem Program.Quietly.wp {Q : α → κ.Memory → Prop} {p : Program κ α} {w : World κ}
    (h : p.Quietly Q w) (perform : (op : Op) → Act κ op.Reply) (E : Option Halt → Prop) :
    (p.run perform).Wp E (fun a w' => Q a w'.memory ∧
      w' = { w with memory := w'.memory, record := w'.record }) w := by
  induction p generalizing w with
  | done a => exact ⟨h, rfl⟩
  | look k ih =>
    rw [run, Act.wp_bind, Act.wp_get]
    exact ih w h
  | store m next ih =>
    rw [run, Act.wp_bind, Act.wp_modify]
    exact (ih h).mono fun _ _ hend => ⟨hend.1, hend.2⟩
  | note n next ih =>
    rw [run, Act.wp_bind, Act.wp_record]
    exact (ih h).mono fun _ _ hend => ⟨hend.1, hend.2⟩
  | call op k ih => exact h.elim

theorem Application.exec_quiet (app : Application κ) {Q : α → κ.Memory → Prop}
    {p : Program κ α} {w : World κ} (h : p.Quietly Q w) (depth : Nat) (E : Option Halt → Prop) :
    (app.exec depth p).Wp E (fun a w' => Q a w'.memory ∧
      w' = { w with memory := w'.memory, record := w'.record }) w := by
  cases depth with
  | zero => exact h.wp _ E
  | succ depth => exact h.wp _ E

/-! ## Without identities -/

/-- The instance without its identity: no instance has the number 0. -/
def Instance.anonymous (i : Instance) : Instance := { i with id := 0 }

def Model.anonymous (m : Model) : Model := { m with inst := m.inst.anonymous }

def ResolvedView.anonymous (v : ResolvedView) : ResolvedView :=
  { v with inst := v.inst.anonymous, model := v.model.map Model.anonymous }

/-- What a view is given, but for the identity of its view model. -/
def Frame.anonymous (f : Frame) : Frame := { f with model := f.model.map Model.anonymous }

/-! ## Passive applications -/

/-- What loaders find for a path, by host. -/
abbrev Answers := HostId → String → Except LoadError Class

/-- Where the loaders of an application find classes. -/
structure Library (κ : Client) where
  /-- The registry of the loader with a given key, as the memory has it. -/
  registry : κ.Memory → Nat → ClassRegistry
  /-- Why the class at a path cannot be made, for paths that always fail. -/
  broken : Nat → String → Option String

namespace Library

/-- What a loader answers for a path. -/
def answer (lib : Library κ) (m : κ.Memory) (loader : Loader) (path : String) :
    Except LoadError Class :=
  match loader with
  | .registry classes => classes.load path
  | .code key =>
    match lib.broken key path with
    | some reason => .error (.construct path reason)
    | none => (lib.registry m key).load path

/-- What the loaders of hosts answer. -/
def answers (lib : Library κ) (host : HostId → Host) (m : κ.Memory) : Answers :=
  fun h path => lib.answer m (host h).loader path

/-- The answers depend on the registries alone. -/
theorem answers_congr (lib : Library κ) {m m' : κ.Memory} (h : lib.registry m' = lib.registry m)
    (host : HostId → Host) : lib.answers host m' = lib.answers host m := by
  funext p path
  unfold answers answer
  rw [h]

/-- Nothing has changed but the memory, in which the classes are still the same, the record, and
the numbers of what is made next. -/
structure Unmoved (lib : Library κ) (w w' : World κ) : Prop where
  caches : w'.caches = w.caches
  components : w'.components = w.components
  loans : w'.loans = w.loans
  nextComponent : w'.nextComponent = w.nextComponent
  registry : lib.registry w'.memory = lib.registry w.memory

theorem Unmoved.refl (lib : Library κ) (w : World κ) : lib.Unmoved w w := ⟨rfl, rfl, rfl, rfl, rfl⟩

theorem Unmoved.trans {lib : Library κ} {w₁ w₂ w₃ : World κ} (h : lib.Unmoved w₁ w₂)
    (h' : lib.Unmoved w₂ w₃) : lib.Unmoved w₁ w₃ where
  caches := h'.caches.trans h.caches
  components := h'.components.trans h.components
  loans := h'.loans.trans h.loans
  nextComponent := h'.nextComponent.trans h.nextComponent
  registry := h'.registry.trans h.registry

theorem Unmoved.recorded (lib : Library κ) (w : World κ) (record : List (Occurrence κ)) :
    lib.Unmoved w { w with record } := ⟨rfl, rfl, rfl, rfl, rfl⟩

theorem Unmoved.answers {lib : Library κ} {w w' : World κ} (h : lib.Unmoved w w')
    (host : HostId → Host) : lib.answers host w'.memory = lib.answers host w.memory :=
  lib.answers_congr h.registry host

theorem Unmoved.of_quiet {lib : Library κ} {w w' : World κ}
    (hw' : w' = { w with memory := w'.memory, record := w'.record })
    (hr : lib.registry w'.memory = lib.registry w.memory) : lib.Unmoved w w' := by
  rw [hw']
  exact ⟨rfl, rfl, rfl, rfl, hr⟩

/-- Running code of the application is what the library says: loaders look into it, views produce
what `draw` says, and nothing else happens. -/
structure Serves (lib : Library κ) (draw : Factory → Frame → Option Markup × Pipe)
    (user : Callbacks (Act κ)) : Prop where
  load : ∀ E key path w, (user.load key path).Wp E
    (fun r w' => r = lib.answer w.memory (.code key) path ∧ lib.Unmoved w w') w
  make : ∀ E inst w, (user.make inst).Wp E (fun _ w' => lib.Unmoved w w') w
  render : ∀ E inst frame w, (user.render inst frame).Wp E
    (fun r w' => r = draw inst.factory frame.anonymous ∧ lib.Unmoved w w') w

end Library

/-- The loaders of the application look into a library, its factories and views call no operation
and leave the library as it is, and `draw` says what a view produces from what it is given, the
identities of instances apart. -/
structure Application.Passive (app : Application κ) (lib : Library κ)
    (draw : Factory → Frame → Option Markup × Pipe) : Prop where
  load : ∀ key path w, (app.code.load key path).Quietly (fun r m =>
    r = lib.answer w.memory (.code key) path ∧ lib.registry m = lib.registry w.memory) w
  make : ∀ inst w, (app.code.make inst).Quietly (fun _ m =>
    lib.registry m = lib.registry w.memory) w
  render : ∀ inst frame w, (app.code.render inst frame).Quietly (fun r m =>
    r = draw inst.factory frame.anonymous ∧ lib.registry m = lib.registry w.memory) w

theorem Application.Passive.serves {app : Application κ} {lib : Library κ}
    {draw : Factory → Frame → Option Markup × Pipe} (h : app.Passive lib draw) (depth : Nat) :
    lib.Serves draw (app.code.under (app.exec depth)) where
  load E key path w := (app.exec_quiet (h.load key path w) depth E).mono
    fun _ _ ⟨⟨hr, hm⟩, hw'⟩ => ⟨hr, .of_quiet hw' hm⟩
  make E inst w := (app.exec_quiet (h.make inst w) depth E).mono
    fun _ _ ⟨hm, hw'⟩ => .of_quiet hw' hm
  render E inst frame w := (app.exec_quiet (h.render inst frame w) depth E).mono
    fun _ _ ⟨⟨hr, hm⟩, hw'⟩ => ⟨hr, .of_quiet hw' hm⟩

end LayeredViews
