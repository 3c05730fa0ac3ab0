import LayeredViews.Declaration
/-!
# Verbs

A definer describes a component by calling verbs, and can call only those of a fixed vocabulary.

* `Vocabulary.component`: `name`, `views`, `viewmodel` and `event`.
* `Vocabulary.viewModel`: `name` alone.
* `Session`: one definer at work. The first failing call is kept and every later one ignored.
* `Vocabulary.run`: a chain of definers; those after a failing one are not reached.
-/

namespace LayeredViews

/-- The part of the declarations that a verb writes. -/
inductive Part where
  | name
  | views
  | viewModel
  | events
  deriving DecidableEq

/-- How several calls of a verb combine. -/
inductive Mode where
  /-- The last call counts. -/
  | overwrite
  /-- The calls accumulate. -/
  | append
  deriving DecidableEq

/-- A verb of a vocabulary. -/
structure Verb where
  name : String
  target : Part
  mode : Mode
  /-- The declarations after a call. -/
  apply : Declarations → List (Argument Class) → Except Error Declarations

/-- The verbs that a definer may call. -/
structure Vocabulary where
  verbs : List Verb

namespace Verb

/-- The error of a call with arguments of the wrong shape. -/
def invalid (verb reason : String) : Error := .configuration (.invalidArguments verb reason)

/-- The error of a call with the wrong number of arguments. -/
def wrongCount (verb : String) (expected got : Nat) : Error :=
  invalid verb ("expected " ++ toString expected ++ " argument(s), got " ++ toString got)

/-- An argument that has to be a text. -/
def textOf (verb : String) : Argument Class → Except Error String
  | .text s => .ok s
  | .ofClass c => .error (invalid verb ("expected a string, got class `" ++ c.name ++ "`"))

/-- An argument as a declaration, where a class needs the capability. -/
def declarationOf (capability : Capability) : Argument Class → Except Error Declaration
  | .text s => .ok (.ident s)
  | .ofClass c => do
    c.ensure capability
    return .ofClass c

/-- Gives the name. -/
def setName : Verb where
  name := "name"
  target := .name
  mode := .overwrite
  apply
    | d, [a] => do return { d with name := some (← textOf "name" a) }
    | _, args => .error (wrongCount "name" 1 args.length)

/-- Appends views; all of them are checked before any is appended. -/
def appendViews : Verb where
  name := "views"
  target := .views
  mode := .append
  apply d args := do return { d with views := d.views ++ (← args.mapM (declarationOf .view)) }

/-- Gives the view model. -/
def setViewModel : Verb where
  name := "viewmodel"
  target := .viewModel
  mode := .overwrite
  apply
    | d, [a] => do return { d with viewModel := some (← declarationOf .viewModel a) }
    | _, args => .error (wrongCount "viewmodel" 1 args.length)

/-- Appends a global event and the method that handles it. -/
def addEvent : Verb where
  name := "event"
  target := .events
  mode := .append
  apply
    | d, [event, handler] => do
      let event ← textOf "event" event
      let handler ← textOf "event" handler
      return { d with events := d.events ++ [⟨event, handler⟩] }
    | _, args => .error (wrongCount "event" 2 args.length)

end Verb

/-- One definer at work: what has been declared so far, and the first failure of this definer. -/
structure Session where
  declarations : Declarations
  error : Option Error := none

namespace Vocabulary

/-- The verbs of component definers. -/
def component : Vocabulary :=
  ⟨[Verb.setName, Verb.appendViews, Verb.setViewModel, Verb.addEvent]⟩

/-- The verbs of view model definers. -/
def viewModel : Vocabulary := ⟨[Verb.setName]⟩

/-- The verb with a given name. -/
def get? (v : Vocabulary) (name : String) : Option Verb :=
  v.verbs.find? fun verb => verb.name == name

/-- The names of the verbs, in order. -/
def names (v : Vocabulary) : List String := v.verbs.map Verb.name

/-- The declarations after one call. -/
def apply (v : Vocabulary) (d : Declarations) (c : Call Class) : Except Error Declarations :=
  match v.get? c.verb with
  | some verb => verb.apply d c.arguments
  | none => .error (.configuration (.unknownVerb c.verb))

/-- The session after one call: nothing happens once a call has failed. -/
def call (v : Vocabulary) (s : Session) (c : Call Class) : Session :=
  match s.error with
  | some _ => s
  | none =>
    match v.apply s.declarations c with
    | .ok d => { s with declarations := d }
    | .error e => { s with error := some e }

/-- The session after all calls of a definer. -/
def runDefiner (v : Vocabulary) (d : Declarations) (definer : Definer) : Session :=
  definer.calls.foldl v.call ⟨d, none⟩

/-- The failure kept after each call of a definer. -/
def errorsAfter (v : Vocabulary) (d : Declarations) (definer : Definer) : List (Option Error) :=
  go ⟨d, none⟩ definer.calls
where
  /-- The failures kept after each of the calls that follow. -/
  go (s : Session) : List (Call Class) → List (Option Error)
    | [] => []
    | c :: rest => (v.call s c).error :: go (v.call s c) rest

/-- A run of a chain of definers. -/
structure Run where
  /-- The definers that were reached, each with what had been declared before it. -/
  reached : List (Declarations × Definer)
  result : Except Error Declarations

/-- Runs definers in order on top of `d`, up to the first that fails. -/
def runFrom (v : Vocabulary) (d : Declarations) : List Definer → Run
  | [] => ⟨[], .ok d⟩
  | definer :: rest =>
    let s := v.runDefiner d definer
    match s.error with
    | some e => ⟨[(d, definer)], .error e⟩
    | none =>
      let r := v.runFrom s.declarations rest
      ⟨(d, definer) :: r.reached, r.result⟩

/-- Runs a chain of definers. -/
def run (v : Vocabulary) (chain : List Definer) : Run := v.runFrom ∅ chain

/-- What a chain of definers declares, or its first failure. -/
def evaluate (v : Vocabulary) (chain : List Definer) : Except Error Declarations :=
  (v.run chain).result

end Vocabulary

end LayeredViews
