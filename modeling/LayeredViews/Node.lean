import LayeredViews.Markup.Basic
/-!
# Rendering nodes

A node is a place where a component is rendered: an identity that stays, and attributes that may
change. Identities are handed out one after the other, so two nodes made separately differ.
-/

namespace LayeredViews

/-- The identity of a node. -/
abbrev NodeId := Nat

/-- A rendering node. -/
structure Node where
  id : NodeId
  attrs : Attrs := ∅
  deriving DecidableEq

/-- The same node with other attributes. -/
def Node.updated (n : Node) (attrs : Attrs) : Node := { n with attrs }

end LayeredViews
