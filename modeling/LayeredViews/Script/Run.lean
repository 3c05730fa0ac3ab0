import LayeredViews.Run
import LayeredViews.Script.Code
/-!
# Running a script

* `Script.Line`: what is shown of the record of a run.
* `Script.run`: does the steps of a script, and says for each what it answered, which nodes have
  entries then, and what happened meanwhile.
-/

namespace LayeredViews

namespace Script

/-- A line of the log of a run. -/
inductive Line where
  | defined (owner : String)
  | loaded (path : String)
  /-- An instance was made by a factory that was written for the class `owner`. -/
  | made (capability : Capability) (owner : String) (number : Nat)
  | called (type method component : String) (event : GlobalEvent)
  /-- A listener was registered on a watched target; `number` tells its listeners apart. -/
  | added (event : String) (number : Nat)
  | removed (event : String) (number : Nat)
  | noted (note : Note)

/-- The listeners that watched targets have seen, in the order in which they first did. -/
abbrev Seen := Dict TargetId (List Nat)

/-- The number of a listener on a watched target. -/
def Seen.number (seen : Seen) (t : TargetId) (listener : Nat) : Nat × Seen :=
  let known := seen.getD t ∅
  if listener ∈ known then (known.idxOf listener, seen)
  else (known.length, seen.insert t (known ++ [listener]))

/-- Whether the loader of a host runs code; of other loaders nothing is shown. -/
def runsCode (s : Script) (h : HostId) : Bool :=
  match (host s h).loader with
  | .code _ => true
  | .registry _ => false

/-- The line that shows an occurrence, if it is shown. -/
def line (s : Script) (seen : Seen) : Occurrence client → Option Line × Seen
  | .defined owner => (some (.defined owner), seen)
  | .loaded h path => (if runsCode s h then some (.loaded path) else none, seen)
  | .made capability inst => (some (.made capability inst.factory.owner inst.id), seen)
  | .called _ name method event =>
    let type := (s.types[method.owner]?.map TypeEntry.id).getD ""
    (some (.called type method.name name event), seen)
  | .added t sub =>
    if watches s t then
      let (n, seen) := seen.number t sub.listener.id
      (some (.added sub.event n), seen)
    else (none, seen)
  | .removed t sub =>
    if watches s t then
      let (n, seen) := seen.number t sub.listener.id
      (some (.removed sub.event n), seen)
    else (none, seen)
  | .noted note => (some (.noted note), seen)
  | _ => (none, seen)

/-- The lines that show occurrences, oldest first. -/
def lines (s : Script) (seen : Seen) : List (Occurrence client) → List Line × Seen
  | [] => ([], seen)
  | o :: rest =>
    let (shown, seen) := line s seen o
    let (more, seen) := lines s seen rest
    (shown.toList ++ more, seen)

/-- What is said of a step. -/
structure Outcome where
  reply : Reply
  /-- For each host the nodes that have entries. -/
  cached : List (List NodeId)
  log : List Line

/-- How deep calls of code can be nested: a step at the greatest depth can still call code that
only looks after its slots. -/
def callDepth : Nat := maxDepth + 3

/-- Does steps one after the other. Where the run is stopped, the steps that are left are not
done. -/
def runSteps (s : Script) (w : World client) (seen : Seen) :
    List Step → List Outcome × Option Halt
  | [] => ([], none)
  | step :: rest =>
    match (s.application.exec callDepth (answer s step)).run { w with record := [] } with
    | .error halt => ([], halt)
    | .ok (reply, w) =>
      let (log, seen) := lines s seen w.record.reverse
      let cached := (List.range s.hosts.length).map fun h => (w.cache h).keys
      let (outcomes, halt) := runSteps s w seen rest
      (⟨reply, cached, log⟩ :: outcomes, halt)

/-- Runs a script. -/
def run (s : Script) : List Outcome × Option Halt := runSteps s (start s) ∅ s.steps

end Script

end LayeredViews
