import LayeredViews.Script.Memory
/-!
# Setting up a script

* `Script.classTable`, `Script.typeTable`: the classes and component types of a script.
* `Script.host`: its hosts.
* `Script.start`: the world that it starts in.
-/

namespace LayeredViews

namespace Script

/-- The classes known so far by their identifiers. -/
abbrev ClassTable := Dict String Class

/-- The class of an identifier; an unknown one stands for a class of that name without a
capability. -/
def ClassTable.find (t : ClassTable) (id : String) : Class := t.getD id (Class.plain 0 id)

/-- An argument with its class. -/
def ClassTable.argument (t : ClassTable) : Argument String → Argument Class
  | .text s => .text s
  | .ofClass id => .ofClass (t.find id)

/-- A definer with its classes. -/
def ClassTable.definer (t : ClassTable) (owner : String) (calls : Calls) : Definer :=
  ⟨owner, calls.map fun c => ⟨c.verb, c.arguments.map t.argument⟩⟩

/-- The class of an entry that has number `n`. It derives from one of the classes `t` before it,
while its definer may name any of the classes `named`. -/
def ClassEntry.make (e : ClassEntry) (named t : ClassTable) (n : Nat) : Class :=
  let c := match e.form with
    | .view _ => Class.view n e.name ⟨n, e.name⟩
    | .greeting _ => Class.viewModel n e.name ⟨n, e.name⟩
    | .counter _ => Class.viewModel n e.name ⟨n, e.name⟩
    | .plain => Class.plain n e.name
    | .extend base => (t.find base).extend n e.name
    | .copy base => t.find base
  match e.definer with
  | none => c
  | some calls => c.withDefiner n (named.definer e.id calls)

/-- The classes of the entries from number `n` on, added to those known; their definers may name
the classes `named`. -/
def makeClasses (named t : ClassTable) (n : Nat) : List ClassEntry → ClassTable
  | [] => t
  | e :: rest => makeClasses named (t.insert e.id (e.make named t n)) (n + 1) rest

/-- The classes of a script. A definer may name its own class and later ones. They are made first
with definers that know no class yet: of a class that a view model's definer names, only the name
matters, and no definer has a say in that. -/
def classTable (s : Script) : ClassTable :=
  let named := makeClasses ∅ ∅ 0 s.classes
  makeClasses named ∅ 0 s.classes

/-- The types known so far by their identifiers. -/
abbrev TypeTable := Dict String ComponentType

/-- The type of an identifier; an unknown one stands for a type of that label without anything
else. -/
def TypeTable.find (t : TypeTable) (id : String) : ComponentType := t.getD id ⟨⟨id, none, ∅⟩, []⟩

/-- The type of an entry that has number `n`. -/
def TypeEntry.make (e : TypeEntry) (classes : ClassTable) (t : TypeTable) (n : Nat) :
    ComponentType :=
  { own :=
      { label := e.label
        definer := e.definer.map (classes.definer e.id)
        methods := Dict.ofList (e.methods.map fun m => (m.1, ⟨n, m.1⟩)) }
    bases := match e.base with
      | none => []
      | some base => (t.find base).layers }

/-- The types of the entries from number `n` on, added to those known. -/
def makeTypes (classes : ClassTable) (t : TypeTable) (n : Nat) : List TypeEntry → TypeTable
  | [] => t
  | e :: rest => makeTypes classes (t.insert e.id (e.make classes t n)) (n + 1) rest

/-- The component types of a script. -/
def typeTable (s : Script) : TypeTable := makeTypes (classTable s) ∅ 0 s.types

/-- The host whose registry a host uses. -/
def registryHost (s : Script) (h : HostId) : HostId :=
  match s.hosts[h]? with
  | some e => match e.loader with
    | .shared => 0
    | _ => h
  | none => h

/-- A registry with the classes of the given entries. -/
def registryOf (s : Script) (entries : List (String × String)) : ClassRegistry :=
  ⟨Dict.ofList (entries.map fun p => (p.1, (classTable s).find p.2))⟩

/-- The registry of a host at the start: it holds the entries of all hosts that use it. -/
def firstRegistry (s : Script) (h : HostId) : ClassRegistry :=
  registryOf s (s.hosts.zipIdx.flatMap fun (e, i) =>
    if registryHost s i = h then e.registry else [])

/-- The target of a host. -/
def targetOf (s : Script) (h : HostId) : Option TargetId :=
  match s.hosts[h]? with
  | none => none
  | some e => match e.runtime with
    | .headless => none
    | .windowed => some h
    | .watched => some h
    | .shared => match s.hosts[0]? with
      | none => none
      | some first => match first.runtime with
        | .windowed => some 0
        | .watched => some 0
        | _ => none

/-- Whether what happens to a target is watched. -/
def watches (s : Script) (t : TargetId) : Bool :=
  match s.hosts[t]? with
  | none => false
  | some e => match e.runtime with
    | .watched => true
    | _ => false

/-- The hosts of a script. -/
def host (s : Script) (h : HostId) : Host :=
  match s.hosts[h]? with
  | none => {}
  | some e =>
    { config := e.config
      loader := match e.loader with
        | .fixed => .registry (registryOf s e.registry)
        | .missing => .registry ∅
        | .own => .code h
        | .shared => .code h
      target := targetOf s h }

/-- What a script keeps at the start. -/
def firstMemory (s : Script) : Memory :=
  { registries := Dict.ofList ((List.range s.hosts.length).map fun h => (h, firstRegistry s h)) }

/-- The world at the start of a script: watched runtimes can be switched. -/
def start (s : Script) : World client :=
  { targets := Dict.ofList ((List.range s.hosts.length).map fun t =>
      (t, { switchable := watches s t }))
    memory := firstMemory s }

end Script

end LayeredViews
