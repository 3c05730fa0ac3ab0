import Mathlib.Logic.Function.Basic
import LayeredViews.Proofs.Passive

/-!
# Instances that keep a state to themselves

A view and a view model may change each time the view renders, as long as nobody else can tell: a
state belongs to one instance, it is fresh when the instance is made, and it changes only as the
instance renders, or for a view model as a view renders that is bound to it.

* `World.Noted w v`: what code does that calls no operation (`Application.exec_noted`).
* `Inner κ S`: where the memory of an application keeps the states, which of type `S`, and how they
  change.
* `Application.Confines`: the code of the application calls no operation, and treats the states so.
* `Inner.Serves`: the same about code that is run, whatever runs it.
-/

namespace LayeredViews

variable {κ : Client} {α S : Type}

/-! ## What quiet code does -/

/-- The memory may have changed, and notes may have been written. -/
structure World.Noted (w v : World κ) : Prop where
  eq : ∃ notes : List κ.Note,
    v = { w with memory := v.memory, record := notes.map .noted ++ w.record }

namespace World.Noted

variable {w v u : World κ}

theorem refl (w : World κ) : w.Noted w := ⟨[], rfl⟩

theorem stored (w : World κ) (m : κ.Memory) : w.Noted { w with memory := m } := ⟨[], rfl⟩

theorem noted (w : World κ) (n : κ.Note) : w.Noted { w with record := .noted n :: w.record } :=
  ⟨[n], rfl⟩

theorem trans (h : w.Noted v) (h' : v.Noted u) : w.Noted u := by
  obtain ⟨notes, hv⟩ := h
  obtain ⟨notes', hu⟩ := h'
  refine ⟨notes' ++ notes, ?_⟩
  rw [hu, hv, List.map_append, List.append_assoc]

end World.Noted

/-- A quiet program ends, and does nothing but to change the memory and to write notes. -/
theorem Program.Quietly.wp_noted {Q : α → κ.Memory → Prop} {p : Program κ α} {w : World κ}
    (h : p.Quietly Q w) (perform : (op : Op) → Act κ op.Reply) (E : Option Halt → Prop) :
    (p.run perform).Wp E (fun a v => Q a v.memory ∧ w.Noted v) w := by
  induction p generalizing w with
  | done a => exact ⟨h, .refl w⟩
  | look k ih =>
    rw [run, Act.wp_bind, Act.wp_get]
    exact ih w h
  | store m next ih =>
    rw [run, Act.wp_bind, Act.wp_modify]
    exact (ih h).mono fun _ _ hend => ⟨hend.1, (World.Noted.stored w m).trans hend.2⟩
  | note n next ih =>
    rw [run, Act.wp_bind, Act.wp_record]
    exact (ih h).mono fun _ _ hend => ⟨hend.1, (World.Noted.noted w n).trans hend.2⟩
  | call op k ih => exact h.elim

theorem Application.exec_noted (app : Application κ) {Q : α → κ.Memory → Prop}
    {p : Program κ α} {w : World κ} (h : p.Quietly Q w) (depth : Nat) (E : Option Halt → Prop) :
    (app.exec depth p).Wp E (fun a v => Q a v.memory ∧ w.Noted v) w := by
  cases depth with
  | zero => exact h.wp_noted _ E
  | succ depth => exact h.wp_noted _ E

/-! ## States -/

/-- What a view does as it renders. -/
structure Drawing (S : Type) where
  output : Option Markup
  pipe : Pipe
  /-- The state that the view comes to. -/
  own : S
  /-- The state that the view model comes to; none if it stays as it is. -/
  model : Option S := none

/-- The states of instances, as the memory of an application keeps them. -/
structure Inner (κ : Client) (S : Type) where
  state : κ.Memory → InstanceId → S
  /-- The state of an instance that a factory has just made. -/
  fresh : Factory → S
  /-- How an instance of a factory renders, from its state, from what it is given but for the
  identity of the view model, and from the state of the view model. -/
  draw : Factory → S → Frame → Option S → Drawing S

namespace Inner

/-- What an instance does as it renders, when all instances have the given states. -/
def drawing (inner : Inner κ S) (states : InstanceId → S) (inst : Instance) (frame : Frame) :
    Drawing S :=
  inner.draw inst.factory (states inst.id) frame.anonymous
    (frame.model.map fun m => states m.inst.id)

end Inner

/-- The states of all instances after one of them did something as it rendered. -/
def Drawing.leave (d : Drawing S) (states : InstanceId → S) (inst : Instance)
    (model : Option Model) : InstanceId → S := fun i =>
  if i = inst.id then d.own
  else if (model.map fun m => m.inst.id) = some i then d.model.getD (states i)
  else states i

theorem Drawing.leave_of_ne {d : Drawing S} {states : InstanceId → S} {inst : Instance}
    {model : Option Model} {i : InstanceId} (hi : i ≠ inst.id)
    (hm : ∀ m, model = some m → i ≠ m.inst.id) : d.leave states inst model i = states i := by
  rw [leave, if_neg hi, if_neg]
  intro he
  obtain ⟨m, hmodel, he⟩ := Option.map_eq_some_iff.1 he
  exact hm m hmodel he.symm

/-- The code of the application calls no operation; instances have states of their own, which
change only as they render. -/
structure Application.Confines (app : Application κ) (inner : Inner κ S) : Prop where
  load : ∀ key path w, (app.code.load key path).Quietly
    (fun _ m => inner.state m = inner.state w.memory) w
  make : ∀ inst w, (app.code.make inst).Quietly
    (fun _ m => inner.state m =
      Function.update (inner.state w.memory) inst.id (inner.fresh inst.factory)) w
  render : ∀ inst frame w, (app.code.render inst frame).Quietly
    (fun r m => r = ((inner.drawing (inner.state w.memory) inst frame).output,
        (inner.drawing (inner.state w.memory) inst frame).pipe) ∧
      inner.state m = (inner.drawing (inner.state w.memory) inst frame).leave
        (inner.state w.memory) inst frame.model) w
  handle : ∀ method c event w, (app.code.handle method c event).Quietly
    (fun _ m => inner.state m = inner.state w.memory) w
  listen : ∀ key event w, (app.code.listen key event).Quietly
    (fun _ m => inner.state m = inner.state w.memory) w

/-- Running code changes the memory as the states of instances change, and does nothing else. -/
structure Inner.Serves (inner : Inner κ S) (user : Callbacks (Act κ)) : Prop where
  load : ∀ E key path w, (user.load key path).Wp E
    (fun _ v => inner.state v.memory = inner.state w.memory ∧ w.Noted v) w
  make : ∀ E inst w, (user.make inst).Wp E
    (fun _ v => inner.state v.memory =
      Function.update (inner.state w.memory) inst.id (inner.fresh inst.factory) ∧ w.Noted v) w
  render : ∀ E inst frame w, (user.render inst frame).Wp E
    (fun r v => (r = ((inner.drawing (inner.state w.memory) inst frame).output,
        (inner.drawing (inner.state w.memory) inst frame).pipe) ∧
      inner.state v.memory = (inner.drawing (inner.state w.memory) inst frame).leave
        (inner.state w.memory) inst frame.model) ∧ w.Noted v) w
  handle : ∀ E method c event w, (user.handle method c event).Wp E
    (fun _ v => inner.state v.memory = inner.state w.memory ∧ w.Noted v) w
  listen : ∀ E key event w, (user.listen key event).Wp E
    (fun _ v => inner.state v.memory = inner.state w.memory ∧ w.Noted v) w

theorem Application.Confines.serves {app : Application κ} {inner : Inner κ S}
    (h : app.Confines inner) (depth : Nat) : inner.Serves (app.code.under (app.exec depth)) where
  load E key path w := app.exec_noted (h.load key path w) depth E
  make E inst w := app.exec_noted (h.make inst w) depth E
  render E inst frame w := app.exec_noted (h.render inst frame w) depth E
  handle E method c event w := app.exec_noted (h.handle method c event w) depth E
  listen E key event w := app.exec_noted (h.listen key event w) depth E

end LayeredViews
