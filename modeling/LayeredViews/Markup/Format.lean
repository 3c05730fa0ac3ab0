import LayeredViews.Json.Typed
import LayeredViews.Markup.Basic
/-!
# The JSON form of markup

A node is an object whose field `type` says what it is: `text` has the field `text`, `element`
has `tag` and, unless empty, `attrs` and `children`, `fragment` has `children`.

* `Markup.toJson`: writing.
* `Markup.ofJson?`: reading. Fields of other names are ignored, missing `attrs` and `children` of
  an element are empty, and a node may also be an array: its type, then its fields in order.
* `Json.Canonical`: the values that writing produces.
-/

namespace LayeredViews

namespace Markup

/-- What a node is. -/
inductive Kind where
  | text
  | element
  | fragment
  deriving DecidableEq

namespace Kind

/-- The kind with a given name. -/
def ofName? : String → Option Kind
  | "text" => some .text
  | "element" => some .element
  | "fragment" => some .fragment
  | _ => none

/-- The kind at a given place in the order text, element, fragment. -/
def ofIndex? : Int → Option Kind
  | 0 => some .text
  | 1 => some .element
  | 2 => some .fragment
  | _ => none

/-- Reads a kind. A node below another one may give its place in the order instead of its
name. -/
def ofJson? (below : Bool) : Json → Option Kind
  | .str s => ofName? s
  | .int i => if below then ofIndex? i else none
  | _ => none

end Kind

mutual

/-- The JSON form of a node. -/
def toJson : Markup → Json
  | .text t => .obj ⟨[("text", .str t), ("type", .str "text")]⟩
  | .element tag attrs children =>
    .obj ⟨(if attrs.isEmpty then [] else [("attrs", .obj attrs)]) ++
      (match children with
        | [] => []
        | c :: rest => [("children", .arr (toJson c :: toJsons rest))]) ++
      [("tag", .str tag), ("type", .str "element")]⟩
  | .fragment children =>
    .obj ⟨[("children", .arr (toJsons children)), ("type", .str "fragment")]⟩

/-- The JSON forms of a list of nodes. -/
def toJsons : List Markup → List Json
  | [] => []
  | m :: rest => toJson m :: toJsons rest

end

/-- The text in the field `key`. -/
def textField (key : String) (fields : List (String × Json)) : Option String :=
  match Dict.lookup key fields with
  | some (.str s) => some s
  | _ => none

/-- The attributes of an element: none when the field is missing. -/
def attrsField (fields : List (String × Json)) : Option Attrs :=
  match Dict.lookup "attrs" fields with
  | none => some ∅
  | some (.obj attrs) => some attrs
  | some _ => none

/-- What reading a field can find: nothing, a value of another shape, or the children. -/
inductive Found where
  | missing
  | malformed
  | children (children : List Markup)

mutual

/-- The node that a JSON value stands for; `below` says that it is the child of another one. -/
def ofJsonAt (below : Bool) : Json → Option Markup
  | .obj ⟨fields⟩ =>
    match (Dict.lookup "type" fields).bind (Kind.ofJson? below) with
    | some .text => (textField "text" fields).map .text
    | some .element =>
      match textField "tag" fields, attrsField fields, childrenField fields with
      | some tag, some attrs, .missing => some (.element tag attrs [])
      | some tag, some attrs, .children children => some (.element tag attrs children)
      | _, _, _ => none
    | some .fragment =>
      match childrenField fields with
      | .children children => some (.fragment children)
      | _ => none
    | none => none
  | .arr (kind :: items) =>
    match Kind.ofJson? below kind, items with
    | some .text, [.str t] => some (.text t)
    | some .element, [.str tag] => some (.element tag ∅ [])
    | some .element, [.str tag, .obj attrs] => some (.element tag attrs [])
    | some .element, [.str tag, .obj attrs, .arr children] =>
      (ofJsons? children).map (.element tag attrs)
    | some .fragment, [.arr children] => (ofJsons? children).map .fragment
    | _, _ => none
  | _ => none

/-- The children in the field `children`. -/
def childrenField : List (String × Json) → Found
  | [] => .missing
  | (key, j) :: rest =>
    if key = "children" then
      match j with
      | .arr items =>
        match ofJsons? items with
        | some children => .children children
        | none => .malformed
      | _ => .malformed
    else childrenField rest

/-- The nodes that the items of an array stand for. -/
def ofJsons? : List Json → Option (List Markup)
  | [] => some []
  | j :: rest =>
    match ofJsonAt true j, ofJsons? rest with
    | some m, some ms => some (m :: ms)
    | _, _ => none

end

/-- The node that a JSON value stands for. -/
def ofJson? (j : Json) : Option Markup := ofJsonAt false j

instance : Encode Markup := ⟨fun m => some m.toJson⟩
instance : Decode Markup := ⟨ofJson?⟩

end Markup

/-- The JSON values that writing markup produces: no field but the node's own, empty `attrs` and
`children` of an element left out. -/
inductive Json.Canonical : Json → Prop where
  | text (t : String) : Canonical (.obj ⟨[("text", .str t), ("type", .str "text")]⟩)
  | leaf (tag : String) : Canonical (.obj ⟨[("tag", .str tag), ("type", .str "element")]⟩)
  | attrs (attrs : Attrs) (tag : String) (h : attrs.isEmpty = false) :
      Canonical (.obj ⟨[("attrs", .obj attrs), ("tag", .str tag), ("type", .str "element")]⟩)
  | children (items : List Json) (tag : String) (h : items ≠ [])
      (canonical : ∀ j ∈ items, Canonical j) :
      Canonical (.obj ⟨[("children", .arr items), ("tag", .str tag), ("type", .str "element")]⟩)
  | element (attrs : Attrs) (items : List Json) (tag : String) (h : attrs.isEmpty = false)
      (h' : items ≠ []) (canonical : ∀ j ∈ items, Canonical j) :
      Canonical (.obj ⟨[("attrs", .obj attrs), ("children", .arr items), ("tag", .str tag),
        ("type", .str "element")]⟩)
  | fragment (items : List Json) (canonical : ∀ j ∈ items, Canonical j) :
      Canonical (.obj ⟨[("children", .arr items), ("type", .str "fragment")]⟩)

end LayeredViews
