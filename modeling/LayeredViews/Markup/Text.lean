import LayeredViews.Json.Text
import LayeredViews.Markup.Format
/-!
# Reading markup from text

A text is read from left to right and the first fault decides: the type of the outermost node is
checked where it stands, all else once the whole node has been read.

* `Markup.ofText`: the node that a JSON text stands for.
* `Markup.repeatsField`: whether a node gives a field of its own twice, which is a mismatch.
-/

namespace LayeredViews.Markup

open Json.Text

/-- Reads the type of a node. -/
def readKind : Reader Json := fun cs =>
  match skip cs with
  | [] => .error .truncated
  | '"' :: rest => do
    let (name, rest) ← string rest
    if (Kind.ofName? name).isSome then return (.str name, rest) else throw .mismatch
  | '[' :: _ | '{' :: _ => .error .mismatch
  | rest => do
    let _ ← scalar rest
    throw .mismatch

/-- Reads the outermost node, without its children being checked. -/
def readNode : Reader Json := fun cs =>
  match skip cs with
  | '[' :: rest => do
    let item (index : Nat) := if index = 0 then readKind else value (maxDepth - 1)
    let (js, rest) ← items item (rest.length + 1) 0 rest
    return (.arr js, rest)
  | '{' :: rest => do
    let entry (seen : List String) (key : String) : Reader Json := fun cs =>
      if key ≠ "type" then afterColon (value (maxDepth - 1)) cs
      else if key ∈ seen then throw .mismatch
      else afterColon readKind cs
    let (fields, rest) ← members entry (rest.length + 1) [] rest
    return (.obj ⟨fields⟩, rest)
  | rest => do
    let _ ← scalar rest
    throw .mismatch

/-- The fields of a node's own. -/
def Kind.fields : Kind → List String
  | .text => ["text"]
  | .element => ["tag", "attrs", "children"]
  | .fragment => ["children"]

mutual

/-- Whether the node, or one below it, gives its type or a field of its own more than once. -/
def repeatsField (below : Bool) : Json → Bool
  | .obj ⟨fields⟩ =>
    let twice (key : String) := decide (1 < (fields.filter fun p => p.1 == key).length)
    twice "type" ||
      match (Dict.lookup "type" fields).bind (Kind.ofJson? below) with
      | none => false
      | some kind => kind.fields.any twice ||
          (kind.fields.contains "children" && childrenRepeat fields)
  | .arr items => itemsRepeat items
  | _ => false

/-- Whether a node in the field `children` repeats a field. -/
def childrenRepeat : List (String × Json) → Bool
  | [] => false
  | (key, .arr items) :: rest => (key == "children" && anyRepeats items) || childrenRepeat rest
  | _ :: rest => childrenRepeat rest

/-- Whether a node in one of the arrays among the items repeats a field. -/
def itemsRepeat : List Json → Bool
  | [] => false
  | .arr items :: rest => anyRepeats items || itemsRepeat rest
  | _ :: rest => itemsRepeat rest

/-- Whether one of the nodes repeats a field. -/
def anyRepeats : List Json → Bool
  | [] => false
  | j :: rest => repeatsField true j || anyRepeats rest

end

/-- The node that a JSON text stands for, or the first fault. -/
def ofText (text : String) : Except Fault Markup := do
  let (j, rest) ← readNode text.toList
  if repeatsField false j then throw .mismatch
  match ofJson? j.normal with
  | none => throw .mismatch
  | some m => if (skip rest).isEmpty then return m else throw .malformed

end LayeredViews.Markup
