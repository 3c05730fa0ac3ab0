import LayeredViews.Resolve
/-!
# Rendering

The views of a component are rendered from the last one declared to the first. Each one is given
what the view after it produced, so the first view is the outermost one. All views of a pass share
a pipe.

* `Setting.compose`: the pass over a list of views.
* `Setting.render`: resolves the views of a component and composes them.
-/

namespace LayeredViews

open Act

variable {κ : Client} [Ownership κ]

namespace Setting

variable (env : Setting κ)

/-- Renders one view. -/
def renderView (v : ResolvedView) (component : String) (attrs : Attrs) (pipe : Pipe)
    (yielded : Option Markup) : Act κ (Option Markup × Pipe) := do
  let frame : Frame := ⟨component, attrs, v.model, pipe, yielded⟩
  record (.rendered v.inst frame)
  env.user.render v.inst frame

/-- Renders views from the last to the first. -/
def compose (component : String) (attrs : Attrs) (pipe : Pipe) :
    List ResolvedView → Act κ (Option Markup × Pipe)
  | [] => return (none, pipe)
  | v :: rest => do
    let (yielded, pipe) ← compose component attrs pipe rest
    env.renderView v component attrs pipe yielded

/-- Renders a component on a pipe; gives the output and the pipe that is left. -/
def render (id : ComponentId) (c : Component) (pipe : Pipe) :
    Act κ (Except Error (Option Markup) × Pipe) := do
  match ← env.views id c with
  | .error e => return (.error e, pipe)
  | .ok list =>
    let result ← composeAll list
    giveUp list.instances
    return result
where
  /-- Composes the views of a component, whose node is in use meanwhile. -/
  composeAll (list : ViewList) : Act κ (Except Error (Option Markup) × Pipe) :=
    if list.views.isEmpty then
      if (env.host c.host).config.requireViews then
        return (.error (.renderPrecondition c.metadata.name), pipe)
      else return (.ok none, pipe)
    else
      lend (.node id) .read do
        let attrs := ((← get).current id c).node.attrs
        let (output, pipe) ← env.compose c.metadata.name attrs pipe list.views
        return (.ok output, pipe)

end Setting

end LayeredViews
