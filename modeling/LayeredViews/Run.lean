import LayeredViews.Render
import LayeredViews.Lifecycle
/-!
# Running an application

* `Setting.perform`: performs an operation.
* `Application.exec`: runs a program of an application. The code that operations call is run in the
  same way; the number bounds how deep such calls may be nested.
-/

namespace LayeredViews

open Act

variable {κ : Client} [Ownership κ]

/-- Performs an operation. -/
def Setting.perform (env : Setting κ) : (op : Op) → Act κ op.Reply
  | .freshNode => do
    let w ← get
    set { w with nextNode := w.nextNode + 1 }
    return w.nextNode
  | .create h type node as => Act.create h type node as
  | .mount h type node as => env.mount h type node as
  | .init id => withComponent id fun c => env.init id c
  | .update id node => withComponent id fun c => Act.update id c node
  | .beforeRemove id => withComponent id fun c => env.beforeRemove id c
  | .remove id => withComponent id fun c => Act.remove id c
  | .unmount id => withComponent id fun c => env.unmount id c
  | .hold id as => do
    if (← get).components.contains id then
      bindHandle as id
      return true
    else return false
  | .release handle => Act.release handle
  | .views id => withComponent id fun c => env.views id c
  | .model id => withComponent id fun c => env.model id c
  | .render id pipe => withComponent id fun c => env.render id c pipe
  | .compose views component attrs pipe => env.compose component attrs pipe views
  | .instantiate cls capability => env.instantiate cls capability
  | .load h path => env.load h path
  | .reload h selection => Act.reload h selection
  | .dispatch t event => env.dispatch t event
  | .listener key => freshListener (.code key)
  | .add t s => addListener t s
  | .removeListener t s => Act.removeListener t s
  | .switch t on => modify fun w => w.setTarget t ((w.target t).switch on)
  | .bindTo id h s => withComponent id fun c => env.bindAll h id c s
  | .unbindFrom id h s => withComponent id fun _ => env.unbindAll h s
  | .invoke listener event => env.invoke listener event

/-- Runs a program of an application, with calls of the application's code nested at most `depth`
deep. -/
def Application.exec (app : Application κ) : Nat → {α : Type} → Program κ α → Act κ α
  | 0, _, p => p.run fun _ => throw (some .exhausted)
  | depth + 1, _, p => p.run (Setting.perform ⟨app.host, app.code.under (app.exec depth)⟩)

end LayeredViews
