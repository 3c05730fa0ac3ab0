import LayeredViews.Proofs.Delivery

/-!
# What is done with components, and what is observed

The variables of an application are divided into two sides. What is done with components is given
by a list of commands; what is observed are the answers to those that concern one side.

* `Command`: what an application does, one thing after the other; `Command.program` does it, and
  gives the answer. What a dispatch answers are the calls that the components of one side receive.
* `observe`: does all commands, and gives the answers to those that concern one side.
* `Command.Apart`: no node is given to components of both sides. `Command.Keeps` says what this
  means for one command.
* `Command.Pruned`: some commands that concern the other side only are left out.
* `Command.renamed`: the same command where nodes have other identities.
* `Answer.Alike`: answers that are equal but for the numbers of components, nodes, instances and
  lists.
-/

namespace LayeredViews

variable {κ : Client} {S : Type}

/-! ## Commands -/

/-- What is done with the component in a variable. -/
inductive Deed where
  | init
  | beforeRemove
  | update (node : Node)
  | remove
  | unmount
  /-- Puts it into a further variable. -/
  | hold (as : Handle)
  | views
  | model
  | render (pipe : Pipe)
  /-- Asks whether its events are bound. -/
  | bound
  /-- Asks for the state of the view model that is stored for its node. -/
  | state

/-- What is done with components, and what may concern all of them. -/
inductive Command where
  | create (host : HostId) (type : ComponentType) (node : Node) (as : Handle)
  | mount (host : HostId) (type : ComponentType) (node : Node) (as : Handle)
  | act (x : Handle) (deed : Deed)
  | release (x : Handle)
  | reload (host : HostId) (selection : Cache.Selection)
  | dispatch (target : TargetId) (event : GlobalEvent)
  | switch (target : TargetId) (on : Bool)

/-- What is observed of a command. -/
inductive Answer (S : Type) where
  /-- The variable is empty. -/
  | nothing
  /-- There is nothing to observe but that it was done. -/
  | done
  | made (r : Except Error ComponentId)
  | initialized (r : Except Error Unit)
  | unbound (n : Nat)
  | moved (n : NodeId)
  | said (b : Bool)
  | views (r : Except Error ViewList)
  /-- The view model, and its state. -/
  | model (r : Except Error (Model × S))
  | rendered (r : Except Error (Option Markup)) (pipe : Pipe)
  | state (s : Option S)
  /-- The calls that components have received. -/
  | received (calls : List Received)

/-- The answer, if there was a component. -/
def Answer.of {α : Type} (f : α → Answer S) : Option α → Answer S
  | some a => f a
  | none => .nothing

/-- Does something with the component `i`. -/
def Deed.program (inner : Inner κ S) (i : ComponentId) : Deed → Program κ (Answer S)
  | .init => .call (.init i) fun r => .done (.of .initialized r)
  | .beforeRemove => .call (.beforeRemove i) fun r => .done (.of .unbound r)
  | .update node => .call (.update i node) fun r => .done (.of .moved r)
  | .remove => .call (.remove i) fun r => .done (.of (fun _ => .done) r)
  | .unmount => .call (.unmount i) fun r => .done (.of (fun _ => .done) r)
  | .hold as => .call (.hold i as) fun b => .done (.said b)
  | .views => .call (.views i) fun r => .done (.of .views r)
  | .model => .call (.model i) fun r => .look fun w => .done <| .of
      (fun r => .model (r.map fun m => (m, inner.state w.memory m.inst.id))) r
  | .render pipe => .call (.render i pipe) fun r => .done (.of (fun p => .rendered p.1 p.2) r)
  | .bound => .look fun w => .done <| .of (fun c => .said c.subscriptions.bound)
      (w.components.get? i)
  | .state => .look fun w => .done <| .of (fun c => .state
      ((w.entry c.host c.node.id).model.map fun m => inner.state w.memory m.inst.id))
      (w.components.get? i)

namespace Command

/-- Does what is commanded; of a dispatch the calls are observed that components receive which
`mine` hold. -/
def program (inner : Inner κ S) (mine : Handle → Bool) : Command → Program κ (Answer S)
  | .create h type node as => .call (.create h type node as) fun r => .done (.made r)
  | .mount h type node as => .call (.mount h type node as) fun r => .done (.made r)
  | .act x deed => .look fun w =>
    match w.handles.get? x with
    | some i => deed.program inner i
    | none => .done .nothing
  | .release x => .call (.release x) fun b => .done (.said b)
  | .reload h selection => .call (.reload h selection) fun _ => .done .done
  | .dispatch t event => .look fun w => .call (.dispatch t event) fun _ => .look fun v => .done <|
      .received ((v.received w.record.length).filter fun p => v.belongs mine p.component)
  | .switch t on => .call (.switch t on) fun _ => .done .done

/-- The variable that the command is about. -/
def subject : Command → Option Handle
  | .create _ _ _ as | .mount _ _ _ as => some as
  | .act x _ | .release x => some x
  | .reload _ _ | .dispatch _ _ | .switch _ _ => none

/-- The command is about one of the variables, or about no variable. -/
def concerns (mine : Handle → Bool) (a : Command) : Bool := a.subject.all mine

/-- The node that a component is given, if the command gives one and there is a component. -/
def places : Command → Option NodeId
  | .create _ type node _ | .mount _ type node _ => type.build.result.toOption.map fun _ => node.id
  | .act _ (.update node) => some node.id
  | _ => none

/-- The host of a component that is made, if the command makes one. -/
def home : Command → Option HostId
  | .create h type _ _ | .mount h type _ _ => type.build.result.toOption.map fun _ => h
  | _ => none

section

variable {type : ComponentType} {metadata : Metadata} (hb : type.build.result = .ok metadata)
  (h : HostId) (node : Node) (as : Handle)
include hb

theorem places_create : (create h type node as).places = some node.id := by
  rw [places, hb]
  rfl

theorem places_mount : (mount h type node as).places = some node.id := places_create hb h node as

theorem home_create : (create h type node as).home = some h := by
  rw [home, hb]
  rfl

theorem home_mount : (mount h type node as).home = some h := home_create hb h node as

end

end Command

/-- Does commands one after the other; gives the answers to those that concern the variables. -/
def observe (inner : Inner κ S) (mine : Handle → Bool) : List Command → Program κ (List (Answer S))
  | [] => .done []
  | a :: rest => (a.program inner mine).bind fun answer =>
      (observe inner mine rest).bind fun more =>
        .done (if a.concerns mine then answer :: more else more)

theorem Deed.program_uses (inner : Inner κ S) (i : ComponentId) (deed : Deed) :
    (deed.program inner i).Uses Op.Managed := by
  cases deed with
  | model => exact ⟨trivial, fun _ _ => trivial⟩
  | bound | state => exact fun _ => trivial
  | _ => exact ⟨trivial, fun _ => trivial⟩

namespace Command

theorem program_uses (inner : Inner κ S) (mine : Handle → Bool) (a : Command) :
    (a.program inner mine).Uses Op.Managed := by
  cases a with
  | act x deed =>
    intro w
    dsimp only
    split
    · exact deed.program_uses inner _
    · trivial
  | dispatch t event => exact fun _ => ⟨trivial, fun _ _ => trivial⟩
  | _ => exact ⟨trivial, fun _ => trivial⟩

end Command

/-! ## Sides -/

namespace Command

/-- The command keeps to one side, where the components of the variables are on the nodes `N`. -/
structure Keeps (host : HostId → Host) (mine : Handle → Bool) (N : NodeId → Prop) (a : Command) :
    Prop where
  hold : ∀ x as, a = .act x (.hold as) → mine as = mine x
  nodes : ∀ n, a.places = some n → (a.concerns mine = true ↔ N n)
  served : a.concerns mine = true → ∀ h, a.home = some h →
    ∃ classes, (host h).loader = .registry classes

/-- No component of the variables is ever given a node that another component is ever given, and they
find their classes in registries. -/
structure Apart (host : HostId → Host) (mine : Handle → Bool) (cs : List Command) : Prop where
  /-- Variables of both sides never hold one component. -/
  hold : ∀ x as, .act x (.hold as) ∈ cs → mine as = mine x
  nodes : ∀ a ∈ cs, ∀ b ∈ cs, a.concerns mine = true → b.concerns mine = false →
    ∀ n, a.places = some n → b.places ≠ some n
  served : ∀ a ∈ cs, a.concerns mine = true → ∀ h, a.home = some h →
    ∃ classes, (host h).loader = .registry classes

theorem Apart.keeps {host : HostId → Host} {mine : Handle → Bool} {cs : List Command}
    (h : Apart host mine cs) : ∀ a ∈ cs,
      a.Keeps host mine fun n => ∃ b ∈ cs, b.concerns mine = true ∧ b.places = some n :=
  fun a ha => {
    hold := fun x as hx => h.hold x as (hx ▸ ha)
    nodes := fun n hn => by
      constructor
      · exact fun hc => ⟨a, ha, hc, hn⟩
      · rintro ⟨b, hb, hc, hn'⟩
        exact Bool.not_eq_false _ ▸ fun hfalse => h.nodes b hb a ha hc hfalse n hn' hn
    served := h.served a ha }

/-- Commands are left out, none of which concerns the variables. -/
inductive Pruned (mine : Handle → Bool) : List Command → List Command → Prop
  | nil : Pruned mine [] []
  | keep (a : Command) {cs kept : List Command} (h : Pruned mine cs kept) :
    Pruned mine (a :: cs) (a :: kept)
  | leaveOut {a : Command} (ha : a.concerns mine = false) {cs kept : List Command}
    (h : Pruned mine cs kept) : Pruned mine (a :: cs) kept

end Command

/-! ## Other numbers -/

/-- The node with another identity. -/
def Node.renamed (ρ : NodeId → NodeId) (n : Node) : Node := { n with id := ρ n.id }

/-- The same selection where nodes have other identities. -/
def Cache.Selection.renamed (ρ : NodeId → NodeId) : Cache.Selection → Cache.Selection
  | .node n => .node (ρ n)
  | selection => selection

def Deed.renamed (ρ : NodeId → NodeId) : Deed → Deed
  | .update node => .update (node.renamed ρ)
  | deed => deed

/-- The same command where nodes have other identities. -/
def Command.renamed (ρ : NodeId → NodeId) : Command → Command
  | .create h type node as => .create h type (node.renamed ρ) as
  | .mount h type node as => .mount h type (node.renamed ρ) as
  | .act x deed => .act x (deed.renamed ρ)
  | .reload h selection => .reload h (selection.renamed ρ)
  | a => a

section

variable {host : HostId → Host} {mine : Handle → Bool} {N : NodeId → Prop} {ρ : NodeId → NodeId}

namespace Command

@[simp] theorem concerns_renamed (a : Command) : (a.renamed ρ).concerns mine = a.concerns mine := by
  cases a with
  | _ => rfl

@[simp] theorem places_renamed (a : Command) : (a.renamed ρ).places = a.places.map ρ := by
  cases a with
  | create h type node as | mount h type node as =>
    simp only [renamed, places]
    cases type.build.result with
    | ok metadata => rfl
    | error e => rfl
  | act x deed =>
    cases deed with
    | _ => rfl
  | _ => rfl

section

variable {a : Command} {T : Ties} (h : a.Keeps host mine N)
  (hT : T.node = fun n n' => N n ∧ n' = ρ n)
include h hT

theorem Keeps.left : a.Keeps host mine T.left.node := by
  have he : T.left.node = N := funext fun n => by simp [Ties.left, hT]
  exact he ▸ h

/-- The renamed command keeps to the renamed nodes. -/
theorem Keeps.right (hρ : Function.Injective ρ) : (a.renamed ρ).Keeps host mine T.right.node where
  hold x as hx := by
    cases a with
    | act y deed =>
      cases deed with
      | hold bs =>
        cases hx
        exact h.hold _ _ rfl
      | _ => cases hx
    | _ => cases hx
  nodes n hn := by
    rw [places_renamed, Option.map_eq_some_iff] at hn
    obtain ⟨m, hm, rfl⟩ := hn
    rw [concerns_renamed, h.nodes m hm]
    simp only [Ties.right, hT, hρ.eq_iff, exists_eq_right']
  served hc hst hh := by
    refine h.served (concerns_renamed a ▸ hc) hst ?_
    cases a with
    | _ => exact hh

end

end Command

end

/-! ## Answers -/

/-- Answers that are equal but for numbers, which are tied. -/
inductive Answer.Alike (T : Ties) : Answer S → Answer S → Prop
  | nothing : Alike T .nothing .nothing
  | done : Alike T .done .done
  | made {r r' : Except Error ComponentId} (h : SameOutcome T.component r r') :
    Alike T (.made r) (.made r')
  | initialized (r : Except Error Unit) : Alike T (.initialized r) (.initialized r)
  | unbound (n : Nat) : Alike T (.unbound n) (.unbound n)
  | moved {n n' : NodeId} (h : T.node n n') : Alike T (.moved n) (.moved n')
  | said (b : Bool) : Alike T (.said b) (.said b)
  | views {r r' : Except Error ViewList} (h : SameOutcome (ViewList.Alike T) r r') :
    Alike T (.views r) (.views r')
  | model {r r' : Except Error (Model × S)}
    (h : SameOutcome (fun p q => p.1.Alike T q.1 ∧ p.2 = q.2) r r') :
    Alike T (.model r) (.model r')
  | rendered (r : Except Error (Option Markup)) (pipe : Pipe) :
    Alike T (.rendered r pipe) (.rendered r pipe)
  | state (s : Option S) : Alike T (.state s) (.state s)
  | received {calls calls' : List Received} (h : List.Forall₂ (Received.Alike T) calls calls') :
    Alike T (.received calls) (.received calls')

theorem Answer.Alike.grow {T U : Ties} (h : T.Grows U) {a b : Answer S} (hab : a.Alike T b) :
    a.Alike U b := by
  cases hab with
  | made hr => exact .made (hr.imp h.component)
  | moved hn => exact .moved (h.node ▸ hn)
  | views hr => exact .views (hr.imp fun _ _ hl => hl.grow h)
  | model hr => exact .model (hr.imp fun _ _ hp => ⟨hp.1.grow h, hp.2⟩)
  | received hl => exact .received (hl.imp fun _ _ hp => hp.grow h)
  | _ => constructor

theorem Answer.Alike.of {T : Ties} {α β : Type} {r : α → β → Prop} {f : α → Answer S}
    {g : β → Answer S} (hfg : ∀ a b, r a b → (f a).Alike T (g b)) {x : Option α} {y : Option β}
    (h : Option.Rel r x y) : (Answer.of f x).Alike T (Answer.of g y) := by
  cases h with
  | some hab => exact hfg _ _ hab
  | none => exact .nothing

end LayeredViews
