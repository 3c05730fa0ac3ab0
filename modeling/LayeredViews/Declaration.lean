import LayeredViews.Class
/-!
# Declarations and metadata

* `Declaration`: a view or view model, named by an identifier or given as a class.
* `Declarations`: what the verbs of a chain of definers have declared so far.
* `Metadata`: the declarations of a component once they have been checked.
-/

namespace LayeredViews

/-- A declared view or view model. -/
inductive Declaration where
  /-- An identifier, loaded when the component is resolved. -/
  | ident (ident : String)
  /-- A class, checked when it is declared. -/
  | ofClass (c : Class)

namespace Declaration

/-- The identifier or the name of the class. -/
def label : Declaration → String
  | .ident s => s
  | .ofClass c => c.name

/-- The identifier, if the declaration is one. -/
def ident? : Declaration → Option String
  | .ident s => some s
  | .ofClass _ => none

/-- Whether two declarations are the same: equal identifiers, or one and the same class. -/
def same : Declaration → Declaration → Bool
  | .ident a, .ident b => a == b
  | .ofClass a, .ofClass b => a.same b
  | _, _ => false

instance : BEq Declaration := ⟨same⟩

/-- The declaration that an argument makes. -/
def ofArgument : Argument Class → Declaration
  | .text s => .ident s
  | .ofClass c => .ofClass c

end Declaration

/-- A global event and the method that handles it. -/
structure EventBinding where
  event : String
  handler : String
  deriving DecidableEq

/-- What has been declared so far. -/
structure Declarations where
  /-- The name given last. -/
  name : Option String := none
  /-- The views, in the order of the calls. -/
  views : List Declaration := []
  /-- The view model given last. -/
  viewModel : Option Declaration := none
  /-- The events, in the order of the calls. -/
  events : List EventBinding := []

instance : EmptyCollection Declarations := ⟨{}⟩

/-- Checked declarations of a component; its name is not empty. -/
structure Metadata where
  name : String
  views : List Declaration
  viewModel : Option Declaration
  events : List EventBinding
  deriving BEq

end LayeredViews
