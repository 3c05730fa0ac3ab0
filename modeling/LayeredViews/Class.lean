import LayeredViews.Dict
import LayeredViews.Error
/-!
# Classes and definers

A class is what a definer refers to when it declares a view or a view model. It has a lineage: its
own layer, then the layers of the classes it derives from, nearest first.

* `Class.view`, `Class.viewModel`, `Class.plain`, `Class.extend`, `Class.withDefiner`: the ways
  to make a class.
* `Class.capability`, `Class.definer`, `Class.body`: the nearest layer that has one decides.
* `Class.ensure`: a class that lacks a capability is refused under its own name.
* `ClassRegistry`: classes by path.
-/

namespace LayeredViews

/-- An argument of a verb; `γ` is the type of classes. -/
inductive Argument (γ : Type) where
  /-- A name, an identifier, an event or a handler. -/
  | text (s : String)
  /-- A class. -/
  | ofClass (c : γ)

/-- A verb called by a definer. -/
structure Call (γ : Type) where
  verb : String
  arguments : List (Argument γ)

/-- A definer: the verbs it calls, in order. `owner` says what it describes. The calls are the same
each time that the definer is run; one whose calls depend on something else is not described by
this. -/
structure DefinerOf (γ : Type) where
  owner : String
  calls : List (Call γ)

/-- The code that makes the instances of a class. `key` tells factories apart, `owner` is the name
of the class it was written for. -/
structure Factory where
  key : Nat
  owner : String
  deriving DecidableEq, Inhabited

/-- What a layer of a class adds to the layers below it. -/
inductive Body where
  | view (make : Factory)
  | viewModel (make : Factory)
  /-- Nothing: the layers below decide. -/
  | plain
  deriving DecidableEq

/-- The capability that a body brings. -/
def Body.capability : Body → Option Capability
  | .view _ => some .view
  | .viewModel _ => some .viewModel
  | .plain => none

/-- One layer of a class. `id` is the identity of the class that this is the top layer of. -/
structure Layer (γ : Type) where
  id : Nat
  name : String
  body : Body
  definer : Option (DefinerOf γ)

/-- A class: its own layer and those of the classes it derives from, nearest first. -/
structure Class where
  own : Layer Class
  bases : List (Layer Class)

abbrev Definer := DefinerOf Class

namespace Class

/-- A view class whose instances `make` makes. -/
def view (id : Nat) (name : String) (make : Factory) : Class := ⟨⟨id, name, .view make, none⟩, []⟩

/-- A view model class whose instances `make` makes. -/
def viewModel (id : Nat) (name : String) (make : Factory) : Class :=
  ⟨⟨id, name, .viewModel make, none⟩, []⟩

/-- A class without a capability. -/
def plain (id : Nat) (name : String) : Class := ⟨⟨id, name, .plain, none⟩, []⟩

/-- All layers, nearest first. -/
def layers (c : Class) : List (Layer Class) := c.own :: c.bases

/-- A new class that derives from `c` and adds nothing. -/
def extend (c : Class) (id : Nat) (name : String) : Class :=
  ⟨⟨id, name, .plain, none⟩, c.layers⟩

/-- A new class like `c` with another definer of its own. -/
def withDefiner (c : Class) (id : Nat) (definer : Definer) : Class :=
  ⟨{ c.own with id, definer := some definer }, c.bases⟩

def name (c : Class) : String := c.own.name

/-- The identity of the class. -/
def id (c : Class) : Nat := c.own.id

/-- Whether both are the same class. -/
def same (c d : Class) : Bool := c.id == d.id

/-- The class that `c` derives from directly. -/
def parent? (c : Class) : Option Class :=
  match c.bases with
  | [] => none
  | l :: rest => some ⟨l, rest⟩

/-- The names of the class and of those it derives from, nearest first. -/
def ancestors (c : Class) : List String := c.layers.map Layer.name

/-- The capability of the nearest layer that brings one. -/
def capability (c : Class) : Option Capability := c.layers.findSome? fun l => l.body.capability

def satisfies (c : Class) (capability : Capability) : Bool := c.capability == some capability

/-- Refuses a class without the capability. -/
def ensure (c : Class) (capability : Capability) : Except Error Unit :=
  if c.satisfies capability then .ok () else .error (.typeMismatch c.name capability)

/-- The definer of the nearest layer that has one. -/
def definer (c : Class) : Option Definer := c.layers.findSome? Layer.definer

/-- The body of the nearest layer that brings a capability. -/
def body (c : Class) : Body :=
  ((c.layers.map Layer.body).find? fun b => b.capability.isSome).getD .plain

/-- The factory of a view class. -/
def viewFactory (c : Class) : Except Error Factory :=
  match c.body with
  | .view make => .ok make
  | _ => .error (.typeMismatch c.name .view)

/-- The factory of a view model class. -/
def viewModelFactory (c : Class) : Except Error Factory :=
  match c.body with
  | .viewModel make => .ok make
  | _ => .error (.typeMismatch c.name .viewModel)

/-- The factory of a class that is used for a capability. -/
def factory (c : Class) : Capability → Except Error Factory
  | .view => c.viewFactory
  | .viewModel => c.viewModelFactory

end Class

/-- Classes by path. -/
structure ClassRegistry where
  classes : Dict String Class := ∅

namespace ClassRegistry

instance : EmptyCollection ClassRegistry := ⟨{}⟩
instance : Inhabited ClassRegistry := ⟨∅⟩

/-- Puts a class at a path; gives the class that was there. -/
def register (r : ClassRegistry) (path : String) (c : Class) : Option Class × ClassRegistry :=
  (r.classes.get? path, ⟨r.classes.insert path c⟩)

/-- Removes what is at a path and gives it. -/
def unregister (r : ClassRegistry) (path : String) : Option Class × ClassRegistry :=
  (r.classes.get? path, ⟨r.classes.erase path⟩)

def size (r : ClassRegistry) : Nat := r.classes.size

def isEmpty (r : ClassRegistry) : Bool := r.classes.isEmpty

/-- The class at a path. -/
def load (r : ClassRegistry) (path : String) : Except LoadError Class :=
  match r.classes.get? path with
  | some c => .ok c
  | none => .error (.notFound path)

end ClassRegistry

end LayeredViews
