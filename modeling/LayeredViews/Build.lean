import LayeredViews.Vocabulary
/-!
# Building metadata

* `Metadata.build`: runs the chain of a component and checks what it declares.
* `Class.buildModel`: the name of a view model, from its definer or its class.

Both also say which definers were run, in order.
-/

namespace LayeredViews

/-- A result with the owners of the definers that were run for it. -/
structure Built (α : Type) where
  ran : List String
  result : Except Error α

/-- The owners of the definers that a run reached. -/
def Vocabulary.Run.owners (r : Vocabulary.Run) : List String := r.reached.map fun p => p.2.owner

namespace Metadata

/-- Checks the declarations of the component with a given label. -/
def check (label : String) (hasHandler : String → Bool) (d : Declarations) :
    Except Error Metadata :=
  match d.name with
  | none => .error (.configuration (.missingName label))
  | some name =>
    if name = "" then .error (.configuration (.emptyName label))
    else match d.events.find? fun b => !hasHandler b.handler with
      | some b => .error (.configuration (.unknownHandler label b.event b.handler))
      | none => .ok ⟨name, d.views, d.viewModel, d.events⟩

/-- Builds the metadata of the component with a given label, chain of definers and handlers. -/
def build (label : String) (chain : List Definer) (hasHandler : String → Bool) :
    Built Metadata :=
  match chain with
  | [] => ⟨[], .error (.configuration (.missingDefiner label))⟩
  | chain =>
    let run := Vocabulary.component.run chain
    ⟨run.owners, run.result.bind (check label hasHandler)⟩

end Metadata

/-- The name of a view model of class `c`: the one its definer gives, or that of the class when it
has no definer. -/
def Class.buildModel (c : Class) : Built String :=
  match c.definer with
  | none => ⟨[], .ok c.name⟩
  | some definer =>
    let run := Vocabulary.viewModel.run [definer]
    ⟨run.owners, run.result.bind fun d =>
      match d.name with
      | none => .error (.configuration (.missingName c.name))
      | some name => if name = "" then .error (.configuration (.emptyName c.name)) else .ok name⟩

end LayeredViews
