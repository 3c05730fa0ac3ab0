/-!
# Errors

What can go wrong when a component is described, resolved, rendered or bound.

* `ConfigurationError`: a definer is missing or called its verbs wrongly.
* `LoadError`: a loader has no class for a path.
* `Error`: all of them, with `Error.message` for the wording and `Error.isResolution` for the
  failures that a list of views survives.
-/

namespace LayeredViews

/-- What a class can be used as. -/
inductive Capability where
  /-- The class renders a part of a component. -/
  | view
  /-- The class holds data and behaviour of a component. -/
  | viewModel
  deriving DecidableEq, Inhabited

/-- The name of a capability in messages. -/
def Capability.name : Capability → String
  | .view => "View"
  | .viewModel => "ViewModel"

/-- Failures of a description. -/
inductive ConfigurationError where
  /-- No definer exists in the chain. -/
  | missingDefiner (label : String)
  /-- No definer of the chain gave a name. -/
  | missingName (label : String)
  /-- The name given last is empty. -/
  | emptyName (label : String)
  /-- A definer called a verb outside its vocabulary. -/
  | unknownVerb (verb : String)
  /-- A verb was called with arguments of the wrong shape. -/
  | invalidArguments (verb reason : String)
  /-- An event names a handler that the component does not have. -/
  | unknownHandler (component event handler : String)
  deriving DecidableEq

/-- The wording of a failed description. -/
def ConfigurationError.message : ConfigurationError → String
  | .missingDefiner label => label ++ ".definer is undefined"
  | .missingName label =>
    "component name is undefined; the definer of `" ++ label ++
      "` must call `name(\"component_name\")`"
  | .emptyName label => "component name of `" ++ label ++ "` must not be empty"
  | .unknownVerb verb => "unknown verb `" ++ verb ++ "`"
  | .invalidArguments verb reason => "invalid arguments for `" ++ verb ++ "`: " ++ reason
  | .unknownHandler component event handler =>
    "`" ++ component ++ "` has no handler named `" ++ handler ++ "` for event `" ++ event ++ "`"

/-- Failures of a loader. -/
inductive LoadError where
  /-- Nothing is registered at the path. -/
  | notFound (path : String)
  /-- The class at the path cannot be made. -/
  | construct (path reason : String)
  deriving DecidableEq

/-- The wording of a failed load. -/
def LoadError.message : LoadError → String
  | .notFound path => "no class registered at `" ++ path ++ "`"
  | .construct path reason => "failed to construct `" ++ path ++ "`: " ++ reason

/-- Failures of building, resolving, rendering and binding a component. -/
inductive Error where
  | configuration (error : ConfigurationError)
  /-- A class does not have the capability it is used for. -/
  | typeMismatch (cls : String) (expected : Capability)
  | resolution (error : LoadError)
  /-- Rendering was asked for and there are no views. -/
  | renderPrecondition (component : String)
  /-- Events were bound twice without being unbound in between. -/
  | alreadyBound (component : String)
  deriving DecidableEq

namespace Error

/-- The wording of an error. -/
def message : Error → String
  | .configuration e => e.message
  | .typeMismatch cls expected =>
    "`" ++ cls ++ "` does not implement the " ++ expected.name ++ " capability"
  | .resolution e => e.message
  | .renderPrecondition component => "component `" ++ component ++ "` has no views to render"
  | .alreadyBound component => "global events of `" ++ component ++ "` are already bound"

/-- The failures that a list of views takes to mean that there is no view model. -/
def isResolution : Error → Bool
  | .resolution _ => true
  | _ => false

end Error

end LayeredViews
