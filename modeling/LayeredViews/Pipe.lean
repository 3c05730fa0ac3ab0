import LayeredViews.Json.Typed
/-!
# The pipe

A `Pipe` holds the values that the views of one render pass share. Inner views run first, so what
they store is seen by the views around them.

* `Pipe.insert`, `Pipe.remove`: give the previous value and the new pipe.
* `Pipe.insertAs`, `Pipe.getAs`: the same for values of any type with a JSON form.
-/

namespace LayeredViews

/-- The values shared by the views of one render pass. -/
structure Pipe where
  values : Dict String Json := ∅
  deriving DecidableEq

namespace Pipe

instance : EmptyCollection Pipe := ⟨{}⟩
instance : Inhabited Pipe := ⟨∅⟩

/-- The value stored for `key`. -/
def get? (p : Pipe) (key : String) : Option Json := p.values.get? key

def contains (p : Pipe) (key : String) : Bool := p.values.contains key

def isEmpty (p : Pipe) : Bool := p.values.isEmpty

/-- Stores a value; gives the previous one. -/
def insert (p : Pipe) (key : String) (value : Json) : Option Json × Pipe :=
  (p.get? key, ⟨p.values.insert key value⟩)

/-- Removes what is stored for `key` and gives it. -/
def remove (p : Pipe) (key : String) : Option Json × Pipe :=
  (p.get? key, ⟨p.values.erase key⟩)

/-- Reads the value stored for `key` as one of type `α`; `none` when there is none or it has
another shape. -/
def getAs {α : Type} [Decode α] (p : Pipe) (key : String) : Option α :=
  (p.get? key).bind decode

/-- Stores the JSON form of `a`; `none` when it has none, and then nothing is stored. -/
def insertAs {α : Type} [Encode α] (p : Pipe) (key : String) (a : α) :
    Option (Option Json × Pipe) :=
  (encode a).map (p.insert key)

end Pipe

end LayeredViews
