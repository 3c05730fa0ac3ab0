import LayeredViews.Build
/-!
# Component types

A component type has a lineage like a class: its own layer, then those of the types it derives
from. Definers run from the most basic type down, methods are looked up from the type itself up.

* `ComponentType.chain`: the definers in the order in which they run.
* `ComponentType.findMethod`: the method of the nearest type that has one of that name.
* `ComponentType.build`: the metadata of the type.
-/

namespace LayeredViews

/-- A method of a component type; `owner` tells types apart. -/
structure Method where
  owner : Nat
  name : String
  deriving DecidableEq

/-- What a component type adds to those it derives from. -/
structure TypeLayer where
  label : String
  definer : Option Definer := none
  methods : Dict String Method := ∅

/-- A component type: its own layer and those of the types it derives from, nearest first. -/
structure ComponentType where
  own : TypeLayer
  bases : List TypeLayer := []

namespace ComponentType

/-- All layers, nearest first. -/
def layers (t : ComponentType) : List TypeLayer := t.own :: t.bases

def label (t : ComponentType) : String := t.own.label

/-- The label of the type that `t` derives from directly. -/
def parentLabel? (t : ComponentType) : Option String := t.bases.head?.map TypeLayer.label

/-- The labels of the type and of those it derives from, nearest first. -/
def ancestors (t : ComponentType) : List String := t.layers.map TypeLayer.label

/-- The definers, most basic type first. -/
def chain (t : ComponentType) : List Definer := (t.layers.filterMap TypeLayer.definer).reverse

/-- The method of the nearest type that has one with this name. -/
def findMethod (t : ComponentType) (name : String) : Option Method :=
  t.layers.findSome? fun l => l.methods.get? name

def hasHandler (t : ComponentType) (name : String) : Bool := (t.findMethod name).isSome

/-- The metadata of the type. -/
def build (t : ComponentType) : Built Metadata := Metadata.build t.label t.chain t.hasHandler

end ComponentType

end LayeredViews
