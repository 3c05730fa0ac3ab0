import LayeredViews.Node
import LayeredViews.Class
/-!
# Resolved views and the cache of a host

* `ViewList`, `Model`: what the views and the view model of a node are resolved to; `Resolved` is
  either of them.
* `Entry`: what is stored for a node, with the paths that were consulted for it.
* `Cache`: the entries of a host.

`ResolvedView.instances`, `ViewList.instances`, `Entry.instances`: the instances that each of them
holds, in the order in which it lets them go.
-/

namespace LayeredViews

/-- The identity of an instance; instances are numbered as they are made. -/
abbrev InstanceId := Nat

/-- An instance of a class: of a view or of a view model. -/
structure Instance where
  id : InstanceId
  factory : Factory
  deriving DecidableEq

/-- A resolved view model: its name and its instance. -/
structure Model where
  name : String
  inst : Instance
  deriving DecidableEq

/-- A resolved view: the declaration it comes from, its instance, and the view model bound to
it. -/
structure ResolvedView where
  label : String
  inst : Instance
  model : Option Model
  deriving DecidableEq

def ResolvedView.instances (v : ResolvedView) : List Instance :=
  v.inst :: (v.model.map Model.inst).toList

/-- The resolved views of a node; `id` is the identity of the list. -/
structure ViewList where
  id : Nat
  views : List ResolvedView
  deriving DecidableEq

def ViewList.instances (l : ViewList) : List Instance := l.views.flatMap ResolvedView.instances

/-- What is resolved for a node. -/
inductive Aspect where
  | model
  | views
  deriving DecidableEq

/-- Something resolved for a node. -/
inductive Resolved where
  | model (m : Model)
  | views (l : ViewList)
  deriving DecidableEq

def Resolved.aspect : Resolved → Aspect
  | .model _ => .model
  | .views _ => .views

/-- What is stored for a node. -/
structure Entry where
  views : Option ViewList := none
  model : Option Model := none
  /-- The paths consulted for what is stored. -/
  sources : List String := []
  deriving DecidableEq

namespace Entry

instance : EmptyCollection Entry := ⟨{}⟩

/-- Adds paths that are not yet among the sources. -/
def consult (e : Entry) (paths : List String) : Entry :=
  { e with sources := paths.foldl (fun s p => if p ∈ s then s else s ++ [p]) e.sources }

/-- A path is a source after consulting `paths` if it was one before or is among them. -/
theorem mem_sources_consult {e : Entry} {paths : List String} {p : String} :
    p ∈ (e.consult paths).sources ↔ p ∈ e.sources ∨ p ∈ paths := by
  have key : ∀ s : List String,
      p ∈ paths.foldl (fun s p => if p ∈ s then s else s ++ [p]) s ↔ p ∈ s ∨ p ∈ paths := by
    induction paths with
    | nil => simp
    | cons q rest ih =>
      intro s
      rw [List.foldl_cons, ih]
      by_cases hq : q ∈ s
      · rw [if_pos hq, List.mem_cons]
        exact ⟨Or.imp_right Or.inr, fun h => h.elim Or.inl fun h =>
          h.elim (fun e => Or.inl (e ▸ hq)) Or.inr⟩
      · rw [if_neg hq, List.mem_append, List.mem_singleton, List.mem_cons, or_assoc]
  exact key e.sources

/-- Stores a view model resolved by way of `paths`. -/
def withModel (e : Entry) (m : Model) (paths : List String) : Entry :=
  { e.consult paths with model := some m }

/-- Stores a list of views resolved by way of `paths`. -/
def withViews (e : Entry) (l : ViewList) (paths : List String) : Entry :=
  { e.consult paths with views := some l }

def instances (e : Entry) : List Instance :=
  (e.views.map ViewList.instances).getD [] ++ (e.model.map Model.inst).toList

/-- The instances that an entry lets go when it becomes `e'`. -/
def replaced (e e' : Entry) : List Instance :=
  let gone : Entry :=
    { views := if e'.views = e.views then none else e.views
      model := if e'.model = e.model then none else e.model }
  gone.instances

end Entry

/-- The entries of a host by node. -/
abbrev Cache := Dict NodeId Entry

namespace Cache

/-- Which entries to drop. -/
inductive Selection where
  | all
  | node (id : NodeId)
  /-- Every entry for which the path was consulted. -/
  | source (path : String)
  deriving DecidableEq

/-- Whether an entry is selected. -/
def Selection.selects (s : Selection) (id : NodeId) (e : Entry) : Bool :=
  match s with
  | .all => true
  | .node id' => id == id'
  | .source path => e.sources.contains path

/-- Drops the selected entries; gives the nodes that had them. -/
def reload (c : Cache) (s : Selection) : List NodeId × Cache :=
  ((c.filter s.selects).keys, c.filter fun id e => !s.selects id e)

/-- The instances of the selected entries. -/
def instances (c : Cache) (s : Selection) : List Instance :=
  (c.filter s.selects).values.flatMap Entry.instances

end Cache

end LayeredViews
