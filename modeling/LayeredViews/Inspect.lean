import LayeredViews.World
/-!
# Inspection texts

A value can be shown for a reader who wants to see its parts: the name of its type, then the
fields. Text that ends in two dots leaves fields out.
-/

namespace LayeredViews

namespace Inspect

/-- A text in quotes. -/
def quoted (s : String) : String := "\"" ++ s ++ "\""

/-- A truth value. -/
def flag (b : Bool) : String := if b then "true" else "false"

/-- A value that may be missing. -/
def optional (v : Option String) : String :=
  match v with
  | none => "None"
  | some s => "Some(" ++ s ++ ")"

/-- A list of values. -/
def list (items : List String) : String := "[" ++ String.intercalate ", " items ++ "]"

/-- A dictionary. -/
def dict (entries : List (String × String)) : String :=
  "\x7b" ++ String.intercalate ", " (entries.map fun p => quoted p.1 ++ ": " ++ p.2) ++ "\x7d"

/-- The name of a type and named fields; `more` says that others are left out. -/
def fields (type : String) (fields : List (String × String)) (more : Bool) : String :=
  type ++ " \x7b " ++ String.intercalate ", " (fields.map fun p => p.1 ++ ": " ++ p.2) ++
    (if more then ", .. \x7d" else " \x7d")

end Inspect

/-- The name of a part of the declarations. -/
def Part.shown : Part → String
  | .name => "Name"
  | .views => "Views"
  | .viewModel => "ViewModel"
  | .events => "Events"

/-- The name of a mode. -/
def Mode.shown : Mode → String
  | .overwrite => "Overwrite"
  | .append => "Append"

/-- A verb with what it writes. -/
def Verb.inspect (v : Verb) : String :=
  Inspect.fields "Verb"
    [("name", Inspect.quoted v.name), ("target", v.target.shown), ("mode", v.mode.shown)] true

/-- A class with its capability and the name of the class it derives from. -/
def Class.inspect (c : Class) : String :=
  Inspect.fields "Class"
    [("name", Inspect.quoted c.name),
      ("capability", Inspect.optional (c.capability.map Capability.name)),
      ("parent", Inspect.optional (c.parent?.map fun p => Inspect.quoted p.name))] true

/-- A component type with the names of its own methods. -/
def ComponentType.inspect (t : ComponentType) : String :=
  Inspect.fields "ComponentType"
    [("label", Inspect.quoted t.label), ("defined", Inspect.flag t.own.definer.isSome),
      ("parent", Inspect.optional (t.parentLabel?.map Inspect.quoted)),
      ("methods", Inspect.list (t.own.methods.keys.map Inspect.quoted))] false

/-- A decimal number with its point. -/
def Decimal.inspect (d : Decimal) : String :=
  let sign := if d.mantissa < 0 then "-" else ""
  let digits := toString d.mantissa.natAbs
  if 0 ≤ d.exponent then
    sign ++ digits ++ String.ofList (List.replicate d.exponent.toNat '0') ++ ".0"
  else
    let places := (-d.exponent).toNat
    let padded := List.replicate (places + 1 - digits.length) '0' ++ digits.toList
    let whole := padded.take (padded.length - places)
    let fraction := padded.drop (padded.length - places)
    sign ++ String.ofList whole ++ "." ++ String.ofList fraction

mutual

/-- A JSON value with the names of its kinds. -/
def Json.inspect : Json → String
  | .null => "Null"
  | .bool b => "Bool(" ++ Inspect.flag b ++ ")"
  | .int i => "Number(" ++ toString i ++ ")"
  | .decimal d => "Number(" ++ d.inspect ++ ")"
  | .str s => "String(" ++ Inspect.quoted s ++ ")"
  | .arr items => "Array " ++ Inspect.list (Json.inspectItems items)
  | .obj ⟨fields⟩ => "Object " ++ Inspect.dict (Json.inspectFields fields)

/-- The items of an array. -/
def Json.inspectItems : List Json → List String
  | [] => []
  | j :: rest => j.inspect :: Json.inspectItems rest

/-- The fields of an object. -/
def Json.inspectFields : List (String × Json) → List (String × String)
  | [] => []
  | (k, j) :: rest => (k, j.inspect) :: Json.inspectFields rest

end

/-- A pipe with its values. -/
def Pipe.inspect (p : Pipe) : String :=
  Inspect.fields "Pipe" [("values", Inspect.dict (Json.inspectFields p.values.entries))] false

/-- What a view is given, except for what was yielded to it. -/
def Frame.inspect (f : Frame) : String :=
  Inspect.fields "RenderContext"
    [("component", Inspect.quoted f.component),
      ("attrs", Inspect.dict (Json.inspectFields f.attrs.entries)),
      ("pipe", f.pipe.inspect), ("view_model", Inspect.flag f.model.isSome)] false

/-- The settings of a host. -/
def Config.inspect (c : Config) : String :=
  Inspect.fields "Config"
    [("kind", Inspect.quoted c.kind), ("views_dir", Inspect.quoted c.viewsDir),
      ("view_models_dir", Inspect.quoted c.viewModelsDir),
      ("fallback_to_name", Inspect.flag c.fallbackToName),
      ("require_views", Inspect.flag c.requireViews)] false

/-- A cache with the number of its entries. -/
def Cache.inspect (c : Cache) : String :=
  Inspect.fields "ResolutionCache" [("nodes", toString c.size)] false

/-- A host with its settings, its cache, and whether it has global events. -/
def Host.inspect (h : Host) (globalEvents : Bool) (cache : Cache) : String :=
  Inspect.fields "Host"
    [("config", h.config.inspect), ("global_events", Inspect.flag globalEvents),
      ("cache", cache.inspect)] true

/-- A component with its type, its node, and whether its events are bound. -/
def Component.inspect (c : Component) : String :=
  Inspect.fields "Component"
    [("name", Inspect.quoted c.metadata.name), ("type", Inspect.quoted c.type.label),
      ("node", "NodeId(" ++ toString c.node.id ++ ")"),
      ("bound", Inspect.optional (some (Inspect.flag c.subscriptions.bound)))] false

/-- A resolved view model with its name. -/
def Model.inspect (m : Model) : String :=
  Inspect.fields "ResolvedViewModel" [("name", Inspect.quoted m.name)] true

/-- A resolved view with its declaration and its view model. -/
def ResolvedView.inspect (v : ResolvedView) : String :=
  Inspect.fields "ResolvedView"
    [("label", Inspect.quoted v.label),
      ("view_model", Inspect.optional (v.model.map Model.inspect))] true

/-- A list of views. -/
def ViewList.inspect (l : ViewList) : String := Inspect.list (l.views.map ResolvedView.inspect)

/-- A subscription with its event. -/
def Subscription.inspect (s : Subscription) : String :=
  Inspect.fields "Subscription" [("event", Inspect.quoted s.event)] true

/-- Subscriptions with their events. -/
def Subscriptions.inspect (s : Subscriptions) : String :=
  Inspect.fields "Subscriptions"
    [("bound", Inspect.flag s.bound),
      ("entries", Inspect.list (s.entries.map Subscription.inspect))] false

/-- An event target: the events of its listeners, oldest first. -/
def EventTarget.inspect (t : EventTarget) : String :=
  Inspect.list (t.listeners.map fun s => Inspect.quoted s.event)

end LayeredViews
