import LayeredViews.Json.Typed
import LayeredViews.Toml.Document
/-!
# Configuration of a host

* `Config`: the settings, each with a default.
* `Config.viewPath`, `Config.viewModelPath`: the paths under which a host's loader finds classes.
* `Config.ofToml?`, `Config.ofJson?`: reading the settings.
* `Config.load`, `Config.discover`: reading them from a file.
-/

namespace LayeredViews

/-- Settings shared by the components of a host. -/
structure Config where
  /-- The kind of the components, a part of the paths of their classes. -/
  kind : String := "component"
  /-- The first part of the paths of views. -/
  viewsDir : String := "views"
  /-- The first part of the paths of view models. -/
  viewModelsDir : String := "view_models"
  /-- A component that declares no view has one of its own name. -/
  fallbackToName : Bool := true
  /-- Rendering without views is an error. -/
  requireViews : Bool := true
  deriving DecidableEq, Inhabited

namespace Config

/-- The path of an identifier below a directory. -/
def path (c : Config) (dir identifier : String) : String :=
  dir ++ "/" ++ c.kind ++ "s/" ++ identifier

/-- The path of a view. -/
def viewPath (c : Config) (identifier : String) : String := c.path c.viewsDir identifier

/-- The path of a view model. -/
def viewModelPath (c : Config) (identifier : String) : String := c.path c.viewModelsDir identifier

/-- The names of the settings, in order. -/
def fieldNames : List String :=
  ["kind", "views_dir", "view_models_dir", "fallback_to_name", "require_views"]

/-- The configuration in which some settings are given, in order, as texts and truth values; what
is missing has its default. `text` and `flag` say what a given value stands for. -/
def ofFields? {ν : Type} (text : ν → Option String) (flag : ν → Option Bool)
    (field : String → Option ν) : Option Config := do
  let or {α : Type} (read : ν → Option α) (name : String) (default : α) : Option α :=
    match field name with
    | none => some default
    | some v => read v
  let base : Config := {}
  return {
    kind := ← or text "kind" base.kind
    viewsDir := ← or text "views_dir" base.viewsDir
    viewModelsDir := ← or text "view_models_dir" base.viewModelsDir
    fallbackToName := ← or flag "fallback_to_name" base.fallbackToName
    requireViews := ← or flag "require_views" base.requireViews }

/-- The configuration that a TOML document gives; other keys of it are ignored. -/
def ofToml? (text : String) : Option Config := do
  let table ← Toml.ofText? text
  ofFields? (fun | .string s => some s | _ => none) (fun | .boolean b => some b | _ => none)
    table.get?

/-- The configuration that a JSON value gives: an object, whose other fields are ignored, or an
array of the settings in order. -/
def ofJson? : Json → Option Config
  | .obj fields => ofFields? decode decode fields.get?
  | .arr items =>
    if items.length ≤ fieldNames.length then
      ofFields? decode decode fun name => items[fieldNames.idxOf name]?
    else none
  | _ => none

/-- The JSON form of a configuration. -/
def toJson (c : Config) : Json :=
  .object [("kind", .str c.kind), ("views_dir", .str c.viewsDir),
    ("view_models_dir", .str c.viewModelsDir), ("fallback_to_name", .bool c.fallbackToName),
    ("require_views", .bool c.requireViews)]

instance : Encode Config := ⟨fun c => some c.toJson⟩
instance : Decode Config := ⟨ofJson?⟩

/-- What stands at the place of a configuration file. -/
inductive File where
  | absent
  | directory
  | bytes (contents : List UInt8)

/-- Why a configuration file gives no configuration. -/
inductive FileError where
  | unreadable (path : String)
  | invalid (path : String)
  deriving DecidableEq

/-- The wording of a failure. -/
def FileError.message : FileError → String
  | .unreadable path => "failed to read " ++ path
  | .invalid path => "failed to parse " ++ path

/-- The text of a file that can be read: bytes that are not text cannot. -/
def File.text? : File → Option String
  | .bytes contents => String.fromUTF8? ⟨contents.toArray⟩
  | .absent | .directory => none

/-- The configuration in the file at `path`. -/
def load (path : String) (file : File) : Except FileError Config :=
  match file.text? with
  | none => .error (.unreadable path)
  | some text =>
    match ofToml? text with
    | none => .error (.invalid path)
    | some c => .ok c

/-- The configuration in the file at `path`, or the default one when there is none. -/
def discover (path : String) : File → Except FileError Config
  | .absent => .ok {}
  | file => load path file

end Config

end LayeredViews
