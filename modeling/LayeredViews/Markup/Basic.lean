import LayeredViews.Json.Basic
/-!
# Markup

`Markup` is what a view produces: a tree of texts, elements and fragments.

* `Markup.attr`, `Markup.child`, `Markup.childOpt`: building a tree step by step.
* `Markup.textContent`: the texts of the leaves, in document order.
* `Markup.Edit`: the steps as data, with `Markup.Edit.apply`.
-/

namespace LayeredViews

/-- Attributes of a rendering node or of an element. -/
abbrev Attrs := Dict String Json

/-- Output of a render pass. -/
inductive Markup where
  /-- A text leaf. -/
  | text (text : String)
  /-- A tagged element. -/
  | element (tag : String) (attrs : Attrs) (children : List Markup)
  /-- A group of nodes without an element around it. -/
  | fragment (children : List Markup)

namespace Markup

instance : Inhabited Markup := ⟨.text ""⟩

mutual

/-- Equality of trees is decided by walking both. -/
def decEq : (a b : Markup) → Decidable (a = b)
  | .text a, .text b => if h : a = b then isTrue (by rw [h]) else isFalse (by simp [h])
  | .element s as xs, .element t bs ys =>
    if h : s = t ∧ as = bs then
      match decEqAll xs ys with
      | isTrue h' => isTrue (by rw [h.1, h.2, h'])
      | isFalse h' => isFalse (by simp [h'])
    else isFalse (by simpa using fun h₁ h₂ => absurd ⟨h₁, h₂⟩ h)
  | .fragment xs, .fragment ys =>
    match decEqAll xs ys with
    | isTrue h => isTrue (by rw [h])
    | isFalse h => isFalse (by simp [h])
  | .text _, .element _ _ _ | .text _, .fragment _ | .element _ _ _, .text _
  | .element _ _ _, .fragment _ | .fragment _, .text _ | .fragment _, .element _ _ _ =>
    isFalse nofun

/-- Equality of lists of trees, one by one. -/
def decEqAll : (a b : List Markup) → Decidable (a = b)
  | [], [] => isTrue rfl
  | [], _ :: _ | _ :: _, [] => isFalse nofun
  | a :: as, b :: bs =>
    match decEq a b, decEqAll as bs with
    | isTrue h, isTrue h' => isTrue (by rw [h, h'])
    | isFalse h, _ => isFalse (by simp [h])
    | _, isFalse h => isFalse (by simp [h])

end

instance : DecidableEq Markup := decEq

/-- An element without attributes and children. -/
def tagged (tag : String) : Markup := .element tag ∅ []

/-- Sets an attribute of an element; texts and fragments have none and stay as they are. -/
def attr (m : Markup) (key : String) (value : Json) : Markup :=
  match m with
  | .element tag attrs children => .element tag (attrs.insert key value) children
  | m => m

/-- Appends a child; a text becomes the first child of a fragment. -/
def child (m c : Markup) : Markup :=
  match m with
  | .element tag attrs children => .element tag attrs (children ++ [c])
  | .fragment children => .fragment (children ++ [c])
  | .text t => .fragment [.text t, c]

/-- Appends a child when there is one. -/
def childOpt (m : Markup) (c : Option Markup) : Markup :=
  match c with
  | some c => m.child c
  | none => m

/-- The tag of an element. -/
def tag? : Markup → Option String
  | .element tag _ _ => some tag
  | _ => none

/-- The children of an element or a fragment. -/
def children : Markup → List Markup
  | .element _ _ children => children
  | .fragment children => children
  | .text _ => []

mutual

/-- The texts of all leaves, one after the other. -/
def textContent : Markup → String
  | .text t => t
  | .element _ _ children => textContents children
  | .fragment children => textContents children

/-- The texts of all leaves of a list of trees. -/
def textContents : List Markup → String
  | [] => ""
  | m :: rest => textContent m ++ textContents rest

end

/-- The markup `m` inside `n` elements with the same tag. -/
def wrapped (tag : String) : Nat → Markup → Markup
  | 0, m => m
  | n + 1, m => wrapped tag n ((tagged tag).child m)

/-- One step in the building of a tree. -/
inductive Edit where
  | attr (key : String) (value : Json)
  | child (c : Markup)
  | childOpt (c : Option Markup)
  /-- Puts the tree inside `count` elements. -/
  | wrap (tag : String) (count : Nat)
  /-- Puts the tree inside a fragment. -/
  | wrapFragment
  /-- Appends the tree to itself. -/
  | selfChild
  /-- Goes on with a child of the tree. -/
  | pick (index : Nat)

/-- The tree after a step; `none` when the child to go on with does not exist. -/
def Edit.apply (m : Markup) : Edit → Option Markup
  | .attr key value => some (m.attr key value)
  | .child c => some (m.child c)
  | .childOpt c => some (m.childOpt c)
  | .wrap tag count => some (wrapped tag count m)
  | .wrapFragment => some (.fragment [m])
  | .selfChild => some (m.child m)
  | .pick index => m.children[index]?

end Markup

end LayeredViews
