import LayeredViews.Vocabulary

/-!
# What a chain of definers declares

A chain of definers is a list of calls, one definer after the other. This module says what such a
list declares without running it, and shows that running it gives the same.

* `Call.Valid`: a call that the vocabulary lists and whose arguments suit the verb; `Call.fault` is
  the reason why another one is refused.
* `Declarations.extend`: what valid calls add to what has been declared. The last name and the last
  view model count; views and events accumulate.
* `Vocabulary.apply_eq`: one call extends the declarations, or is refused and changes nothing
  (`Call.effect`).
* `Vocabulary.foldl_call`: the calls of a definer count up to the first that is refused.
* `evaluate_eq_reference`: a chain declares what its calls declare, or fails as its first refused
  call does; no definer after that one is run.
-/

namespace LayeredViews

/-! ## Valid calls -/

/-- A class among the arguments has the capability. -/
def Argument.Suits (capability : Capability) : Argument Class → Prop
  | .text _ => True
  | .ofClass c => c.satisfies capability = true

/-- Why an argument is not a text. -/
def Argument.textFault (verb : String) : Argument Class → Option Error
  | .text _ => none
  | .ofClass c => some (Verb.invalid verb ("expected a string, got class `" ++ c.name ++ "`"))

/-- Why an argument cannot be declared where a class needs the capability. -/
def Argument.classFault (capability : Capability) : Argument Class → Option Error
  | .text _ => none
  | .ofClass c => if c.satisfies capability then none else some (.typeMismatch c.name capability)

namespace Call

/-- The vocabulary lists the verb, and the arguments are such as the verb takes. -/
def Valid (v : Vocabulary) (c : Call Class) : Prop :=
  c.verb ∈ v.names ∧
    ((c.verb = "name" ∧ ∃ s, c.arguments = [.text s]) ∨
      (c.verb = "views" ∧ ∀ a ∈ c.arguments, a.Suits .view) ∨
      (c.verb = "viewmodel" ∧ ∃ a, c.arguments = [a] ∧ a.Suits .viewModel) ∨
      (c.verb = "event" ∧ ∃ e h, c.arguments = [.text e, .text h]))

/-- How many arguments a verb takes; `views` takes any number. -/
def arity (verb : String) : Nat := if verb = "event" then 2 else 1

/-- Why a call is refused: the verb is not listed, or the number of arguments is wrong, or else the
first unsuitable argument is to blame. -/
def fault (v : Vocabulary) (c : Call Class) : Option Error :=
  if c.verb ∉ v.names then some (.configuration (.unknownVerb c.verb))
  else if c.verb = "views" then c.arguments.findSome? (Argument.classFault .view)
  else if c.arguments.length ≠ arity c.verb then
    some (Verb.wrongCount c.verb (arity c.verb) c.arguments.length)
  else if c.verb = "viewmodel" then c.arguments.findSome? (Argument.classFault .viewModel)
  else c.arguments.findSome? (Argument.textFault c.verb)

/-- The name that a call gives. -/
def name? (c : Call Class) : Option String :=
  match c.verb, c.arguments with
  | "name", [.text s] => some s
  | _, _ => none

/-- The views that a call declares. -/
def views (c : Call Class) : List Declaration :=
  if c.verb = "views" then c.arguments.map Declaration.ofArgument else []

/-- The view model that a call declares. -/
def viewModel? (c : Call Class) : Option Declaration :=
  match c.verb, c.arguments with
  | "viewmodel", [a] => some (.ofArgument a)
  | _, _ => none

/-- The event that a call declares. -/
def event? (c : Call Class) : Option EventBinding :=
  match c.verb, c.arguments with
  | "event", [.text e, .text h] => some ⟨e, h⟩
  | _, _ => none

end Call

namespace Declarations

/-- The declarations `d` and those of valid calls made after them. -/
def extend (d : Declarations) (calls : List (Call Class)) : Declarations where
  name := (calls.filterMap Call.name?).getLast?.or d.name
  views := d.views ++ calls.flatMap Call.views
  viewModel := (calls.filterMap Call.viewModel?).getLast?.or d.viewModel
  events := d.events ++ calls.filterMap Call.event?

@[simp] theorem extend_nil (d : Declarations) : d.extend [] = d := by
  simp [extend]

theorem extend_append (d : Declarations) (xs ys : List (Call Class)) :
    d.extend (xs ++ ys) = (d.extend xs).extend ys := by
  simp [extend, List.getLast?_append, Option.or_assoc]

end Declarations

/-! ## One call -/

/-- What a call does: it is refused, or it adds what it declares. -/
def Call.effect (v : Vocabulary) (d : Declarations) (c : Call Class) : Except Error Declarations :=
  match c.fault v with
  | some e => .error e
  | none => .ok (d.extend [c])

/-- The vocabularies there are. -/
def vocabularies : List Vocabulary := [.component, .viewModel]

theorem Argument.classFault_eq_none_iff {capability : Capability} {a : Argument Class} :
    a.classFault capability = none ↔ a.Suits capability := by
  cases a with
  | text s => simp [classFault, Suits]
  | ofClass c => simp [classFault, Suits]

theorem Argument.textFault_eq_none_iff {verb : String} {a : Argument Class} :
    a.textFault verb = none ↔ ∃ s, a = .text s := by
  cases a with
  | text s => simp [textFault]
  | ofClass c => simp [textFault]

/-- The verbs of a vocabulary are among the four. -/
theorem verb_cases {v : Vocabulary} (hv : v ∈ vocabularies) {verb : String}
    (h : verb ∈ v.names) :
    verb = "name" ∨ verb = "views" ∨ verb = "viewmodel" ∨ verb = "event" := by
  simp only [vocabularies, List.mem_cons, List.not_mem_nil, or_false] at hv
  rcases hv with rfl | rfl
  · simpa [Vocabulary.names, Vocabulary.component, Verb.setName, Verb.appendViews,
      Verb.setViewModel, Verb.addEvent] using h
  · left
    simpa [Vocabulary.names, Vocabulary.viewModel, Verb.setName] using h

/-- A call is valid where there is no reason to refuse it. -/
theorem Call.fault_eq_none_iff {v : Vocabulary} (hv : v ∈ vocabularies) (c : Call Class) :
    c.fault v = none ↔ c.Valid v := by
  obtain ⟨verb, arguments⟩ := c
  by_cases hl : verb ∈ v.names
  · rcases verb_cases hv hl with rfl | rfl | rfl | rfl
    · match arguments with
      | [] => simp [fault, Valid, arity, hl]
      | [a] => simp [fault, Valid, arity, hl, Argument.textFault_eq_none_iff]
      | _ :: _ :: _ => simp [fault, Valid, arity, hl]
    · simp [fault, Valid, hl, Argument.classFault_eq_none_iff]
    · match arguments with
      | [] => simp [fault, Valid, arity, hl]
      | [a] => simp [fault, Valid, arity, hl, Argument.classFault_eq_none_iff]
      | _ :: _ :: _ => simp [fault, Valid, arity, hl]
    · match arguments with
      | [] => simp [fault, Valid, arity, hl]
      | [a] => simp [fault, Valid, arity, hl]
      | [a, b] => simp [fault, Valid, arity, hl, Argument.textFault_eq_none_iff]
      | _ :: _ :: _ :: _ => simp [fault, Valid, arity, hl]
  · simp [fault, Valid, hl]

theorem Verb.declarationOf_eq (capability : Capability) (a : Argument Class) :
    Verb.declarationOf capability a =
      match a.classFault capability with
      | some e => .error e
      | none => .ok (.ofArgument a) := by
  cases a with
  | text s => rfl
  | ofClass c =>
    rcases Bool.eq_false_or_eq_true (c.satisfies capability) with h | h
    · simp only [declarationOf, Argument.classFault, Class.ensure, h, if_true]
      rfl
    · simp only [declarationOf, Argument.classFault, Class.ensure, h]
      rfl

/-- All views are declared, or the first unsuitable one is to blame. -/
theorem Verb.mapM_declarationOf (capability : Capability) (as : List (Argument Class)) :
    as.mapM (Verb.declarationOf capability) =
      match as.findSome? (Argument.classFault capability) with
      | some e => .error e
      | none => .ok (as.map Declaration.ofArgument) := by
  induction as with
  | nil => rfl
  | cons a rest ih =>
    rw [List.mapM_cons, Verb.declarationOf_eq, ih, List.findSome?_cons]
    cases a.classFault capability with
    | some e => rfl
    | none =>
      cases rest.findSome? (Argument.classFault capability) with
      | some e => rfl
      | none => rfl

/-- A verb does the same in every vocabulary that lists it. -/
theorem Vocabulary.get?_eq_component {v : Vocabulary} (hv : v ∈ vocabularies) {verb : String}
    (h : verb ∈ v.names) : v.get? verb = Vocabulary.component.get? verb := by
  simp only [vocabularies, List.mem_cons, List.not_mem_nil, or_false] at hv
  rcases hv with rfl | rfl
  · rfl
  · simp only [Vocabulary.names, Vocabulary.viewModel, List.map_cons, List.map_nil,
      List.mem_singleton] at h
    rw [h]
    rfl

theorem Vocabulary.get?_eq_none {v : Vocabulary} {verb : String} (h : verb ∉ v.names) :
    v.get? verb = none := by
  rw [get?, List.find?_eq_none]
  intro x hx he
  exact h (List.mem_map.2 ⟨x, hx, beq_iff_eq.1 he⟩)

/-- The right number of arguments leaves the arguments to be checked. -/
theorem Call.fault_of_arity {v : Vocabulary} {verb : String} {arguments : List (Argument Class)}
    (hl : verb ∈ v.names) (hn : arguments.length = arity verb) (hv : verb ≠ "views") :
    (⟨verb, arguments⟩ : Call Class).fault v =
      if verb = "viewmodel" then arguments.findSome? (Argument.classFault .viewModel)
      else arguments.findSome? (Argument.textFault verb) := by
  simp [fault, hl, hn, hv]

/-- A wrong number of arguments is to blame before any argument is. -/
theorem Call.fault_of_not_arity {v : Vocabulary} {verb : String}
    {arguments : List (Argument Class)} (hl : verb ∈ v.names) (hn : arguments.length ≠ arity verb)
    (hv : verb ≠ "views") :
    (⟨verb, arguments⟩ : Call Class).fault v =
      some (Verb.wrongCount verb (arity verb) arguments.length) := by
  simp [fault, hl, hn, hv]

section

variable {v : Vocabulary} (d : Declarations) (arguments : List (Argument Class))

theorem Declarations.extend_name (s : String) :
    d.extend [⟨"name", [.text s]⟩] = { d with name := some s } := by
  simp [extend, Call.name?, Call.views, Call.viewModel?, Call.event?]

theorem Declarations.extend_views :
    d.extend [⟨"views", arguments⟩] =
      { d with views := d.views ++ arguments.map Declaration.ofArgument } := by
  simp [extend, Call.name?, Call.views, Call.viewModel?, Call.event?]

theorem Declarations.extend_viewModel (a : Argument Class) :
    d.extend [⟨"viewmodel", [a]⟩] = { d with viewModel := some (.ofArgument a) } := by
  simp [extend, Call.name?, Call.views, Call.viewModel?, Call.event?]

theorem Declarations.extend_event (e h : String) :
    d.extend [⟨"event", [.text e, .text h]⟩] = { d with events := d.events ++ [⟨e, h⟩] } := by
  simp [extend, Call.name?, Call.views, Call.viewModel?, Call.event?]

theorem Verb.setName_apply (hl : "name" ∈ v.names) :
    Verb.setName.apply d arguments = Call.effect v d ⟨"name", arguments⟩ := by
  unfold Call.effect
  match arguments with
  | [] =>
    rw [Call.fault_of_not_arity hl (by decide) (by decide)]
    rfl
  | [.text s] =>
    rw [Call.fault_of_arity hl rfl (by decide), Declarations.extend_name]
    rfl
  | [.ofClass c] =>
    rw [Call.fault_of_arity hl rfl (by decide)]
    rfl
  | _ :: _ :: _ =>
    rw [Call.fault_of_not_arity hl (by simp [Call.arity]) (by decide)]
    rfl

theorem Verb.appendViews_apply (hl : "views" ∈ v.names) :
    Verb.appendViews.apply d arguments = Call.effect v d ⟨"views", arguments⟩ := by
  have hf : (⟨"views", arguments⟩ : Call Class).fault v =
      arguments.findSome? (Argument.classFault .view) := by
    simp [Call.fault, hl]
  simp only [Call.effect, hf, Declarations.extend_views, Verb.appendViews, mapM_declarationOf]
  cases arguments.findSome? (Argument.classFault .view) with
  | some e => rfl
  | none => rfl

theorem Verb.setViewModel_apply (hl : "viewmodel" ∈ v.names) :
    Verb.setViewModel.apply d arguments = Call.effect v d ⟨"viewmodel", arguments⟩ := by
  unfold Call.effect
  match arguments with
  | [] =>
    rw [Call.fault_of_not_arity hl (by decide) (by decide)]
    rfl
  | [a] =>
    rw [Call.fault_of_arity hl rfl (by decide), Declarations.extend_viewModel]
    simp only [Verb.setViewModel, declarationOf_eq, if_true, List.findSome?_cons]
    cases a.classFault .viewModel with
    | some e => rfl
    | none => rfl
  | _ :: _ :: _ =>
    rw [Call.fault_of_not_arity hl (by simp [Call.arity]) (by decide)]
    rfl

theorem Verb.addEvent_apply (hl : "event" ∈ v.names) :
    Verb.addEvent.apply d arguments = Call.effect v d ⟨"event", arguments⟩ := by
  unfold Call.effect
  match arguments with
  | [] =>
    rw [Call.fault_of_not_arity hl (by decide) (by decide)]
    rfl
  | [a] =>
    rw [Call.fault_of_not_arity hl (by simp [Call.arity]) (by decide)]
    rfl
  | [.text e, .text h] =>
    rw [Call.fault_of_arity hl rfl (by decide), Declarations.extend_event]
    rfl
  | [.ofClass c, a] =>
    rw [Call.fault_of_arity hl rfl (by decide)]
    rfl
  | [.text e, .ofClass c] =>
    rw [Call.fault_of_arity hl rfl (by decide)]
    rfl
  | _ :: _ :: _ :: _ =>
    rw [Call.fault_of_not_arity hl (by simp [Call.arity]) (by decide)]
    rfl

/-- Refusing a call leaves the declarations alone; a valid one adds what it declares. -/
theorem Vocabulary.apply_eq (hv : v ∈ vocabularies) (c : Call Class) :
    v.apply d c = c.effect v d := by
  obtain ⟨verb, arguments⟩ := c
  by_cases hl : verb ∈ v.names
  · rw [apply, get?_eq_component hv hl]
    rcases verb_cases hv hl with rfl | rfl | rfl | rfl
    · exact Verb.setName_apply d arguments hl
    · exact Verb.appendViews_apply d arguments hl
    · exact Verb.setViewModel_apply d arguments hl
    · exact Verb.addEvent_apply d arguments hl
  · rw [apply, get?_eq_none hl]
    simp [Call.effect, Call.fault, hl]

end

/-! ## One definer -/

namespace Vocabulary

variable {v : Vocabulary} (hv : v ∈ vocabularies)

/-- Once a call has been refused, the later ones change neither the declarations nor the error. -/
theorem foldl_call_of_error (v : Vocabulary) {s : Session} {e : Error} (h : s.error = some e)
    (calls : List (Call Class)) : calls.foldl v.call s = s := by
  induction calls with
  | nil => rfl
  | cons c rest ih =>
    have step : v.call s c = s := by rw [call, h]
    rw [List.foldl_cons, step, ih]

include hv

/-- Valid calls add what they declare. -/
theorem foldl_call (d : Declarations) {calls : List (Call Class)}
    (h : ∀ c ∈ calls, c.Valid v) : calls.foldl v.call ⟨d, none⟩ = ⟨d.extend calls, none⟩ := by
  induction calls generalizing d with
  | nil => simp
  | cons c rest ih =>
    have hc : c.fault v = none := (Call.fault_eq_none_iff hv c).2 (h c (by simp))
    have step : v.call ⟨d, none⟩ c = ⟨d.extend [c], none⟩ := by
      simp [call, apply_eq _ hv, Call.effect, hc]
    rw [List.foldl_cons, step, ih _ fun c' hc' => h c' (by simp [hc']),
      ← Declarations.extend_append, List.singleton_append]

/-- A call that is refused is the last one that counts, and its error is kept. -/
theorem foldl_call_refused (d : Declarations) {before : List (Call Class)} {bad : Call Class}
    (after : List (Call Class)) (h : ∀ c ∈ before, c.Valid v) (hb : ¬bad.Valid v) :
    ∃ e, bad.fault v = some e ∧
      (before ++ bad :: after).foldl v.call ⟨d, none⟩ = ⟨d.extend before, some e⟩ := by
  obtain ⟨e, he⟩ : ∃ e, bad.fault v = some e :=
    Option.ne_none_iff_exists'.1 fun hn => hb ((Call.fault_eq_none_iff hv bad).1 hn)
  have step : v.call ⟨d.extend before, none⟩ bad = ⟨d.extend before, some e⟩ := by
    simp [call, apply_eq _ hv, Call.effect, he]
  refine ⟨e, he, ?_⟩
  rw [List.foldl_append, foldl_call hv d h, List.foldl_cons, step, foldl_call_of_error v rfl]

/-! ## A chain -/

/-- A chain of valid calls is run to its end. -/
theorem runFrom_valid (d : Declarations) {chain : List Definer}
    (h : ∀ definer ∈ chain, ∀ c ∈ definer.calls, c.Valid v) :
    (v.runFrom d chain).result = .ok (d.extend (chain.flatMap DefinerOf.calls)) ∧
      (v.runFrom d chain).reached.map Prod.snd = chain := by
  induction chain generalizing d with
  | nil => simp [runFrom]
  | cons definer rest ih =>
    have step : v.runDefiner d definer = ⟨d.extend definer.calls, none⟩ :=
      foldl_call hv d (h definer (by simp))
    obtain ⟨hresult, hreached⟩ :=
      ih (d.extend definer.calls) fun definer' h' => h definer' (by simp [h'])
    rw [runFrom, step]
    refine ⟨?_, ?_⟩
    · rw [List.flatMap_cons, Declarations.extend_append]
      exact hresult
    · simp [hreached]

/-- A chain is run up to the definer that makes the first invalid call. -/
theorem runFrom_refused (d : Declarations) {done : List Definer} (later : List Definer)
    {definer : Definer} {before after : List (Call Class)} {bad : Call Class}
    (hdone : ∀ definer ∈ done, ∀ c ∈ definer.calls, c.Valid v)
    (hcalls : definer.calls = before ++ bad :: after) (hbefore : ∀ c ∈ before, c.Valid v)
    (hbad : ¬bad.Valid v) :
    ∃ e, bad.fault v = some e ∧ (v.runFrom d (done ++ definer :: later)).result = .error e ∧
      (v.runFrom d (done ++ definer :: later)).reached.map Prod.snd = done ++ [definer] := by
  induction done generalizing d with
  | nil =>
    obtain ⟨e, he, hs⟩ := foldl_call_refused hv d after hbefore hbad
    have step : v.runDefiner d definer = ⟨d.extend before, some e⟩ := by
      rw [runDefiner, hcalls, hs]
    exact ⟨e, he, by simp [runFrom, step], by simp [runFrom, step]⟩
  | cons first rest ih =>
    have step : v.runDefiner d first = ⟨d.extend first.calls, none⟩ :=
      foldl_call hv d (hdone first (by simp))
    obtain ⟨e, he, hresult, hreached⟩ :=
      ih (d.extend first.calls) fun definer' h' => hdone definer' (by simp [h'])
    refine ⟨e, he, ?_, ?_⟩
    · simpa [runFrom, step] using hresult
    · simp [runFrom, step, hreached]

omit hv in
open Classical in
/-- Either all members of a list have a property, or there is a first one that has not. -/
private theorem all_or_first {α : Type} (p : α → Prop) (l : List α) :
    (∀ x ∈ l, p x) ∨
      ∃ before bad after, l = before ++ bad :: after ∧ (∀ x ∈ before, p x) ∧ ¬p bad := by
  cases h : l.find? fun x => decide (¬p x) with
  | none =>
    rw [List.find?_eq_none] at h
    exact .inl (by simpa using h)
  | some bad =>
    obtain ⟨hbad, before, after, hl, hbefore⟩ := List.find?_eq_some_iff_append.1 h
    exact .inr ⟨before, bad, after, hl, by simpa using hbefore, by simpa using hbad⟩

end Vocabulary

/-- **What a chain declares.** A chain whose calls are all valid is run to its end; it declares the
name and the view model that were given last, and all views and events in order. Any other chain
fails as its first invalid call does, and no definer after the one that makes that call is run. As
for a single definer on top of `d`: valid calls extend `d`, an invalid one adds nothing, and the
calls after it change neither the declarations nor the error. -/
theorem evaluate_eq_reference {v : Vocabulary} (hv : v ∈ vocabularies) (chain : List Definer) :
    let calls := chain.flatMap DefinerOf.calls
    ((∀ c ∈ calls, c.Valid v) →
      v.evaluate chain = .ok
        { name := (calls.filterMap Call.name?).getLast?
          views := calls.flatMap Call.views
          viewModel := (calls.filterMap Call.viewModel?).getLast?
          events := calls.filterMap Call.event? } ∧
      (v.run chain).reached.map Prod.snd = chain) ∧
    ((¬∀ c ∈ calls, c.Valid v) →
      ∃ done definer later before bad after e,
        chain = done ++ definer :: later ∧ definer.calls = before ++ bad :: after ∧
        (∀ c ∈ done.flatMap DefinerOf.calls ++ before, c.Valid v) ∧ ¬bad.Valid v ∧
        bad.fault v = some e ∧ v.evaluate chain = .error e ∧
        (v.run chain).reached.map Prod.snd = done ++ [definer]) ∧
    ∀ d owner before, (∀ c ∈ before, c.Valid v) →
      v.runDefiner d ⟨owner, before⟩ = ⟨d.extend before, none⟩ ∧
      ∀ bad after, ¬bad.Valid v → ∃ e, bad.fault v = some e ∧
        v.runDefiner d ⟨owner, before ++ bad :: after⟩ = ⟨d.extend before, some e⟩ := by
  intro calls
  refine ⟨fun h => ?_, fun h => ?_, fun d owner before hbefore => ⟨?_, fun bad after hbad => ?_⟩⟩
  · have hchain : ∀ definer ∈ chain, ∀ c ∈ definer.calls, c.Valid v := fun definer hd c hc =>
      h c (List.mem_flatMap.2 ⟨definer, hd, hc⟩)
    obtain ⟨hresult, hreached⟩ := Vocabulary.runFrom_valid hv ∅ hchain
    refine ⟨?_, hreached⟩
    rw [Vocabulary.evaluate, Vocabulary.run, hresult]
    simp [Declarations.extend, calls, EmptyCollection.emptyCollection]
  · rcases Vocabulary.all_or_first (fun x : Definer => ∀ c ∈ x.calls, c.Valid v) chain with
      hall | ⟨done, definer, later, rfl, hdone, hdefiner⟩
    · refine absurd (fun c hc => ?_) h
      obtain ⟨definer, hd, hc⟩ := List.mem_flatMap.1 hc
      exact hall definer hd c hc
    · rcases Vocabulary.all_or_first (fun c : Call Class => c.Valid v) definer.calls with
        hall | ⟨before, bad, after, hcalls, hbefore, hbad⟩
      · exact absurd hall hdefiner
      · obtain ⟨e, he, hresult, hreached⟩ :=
          Vocabulary.runFrom_refused hv ∅ later hdone hcalls hbefore hbad
        refine ⟨done, definer, later, before, bad, after, e, rfl, hcalls, ?_, hbad, he, hresult,
          hreached⟩
        intro c hc
        rcases List.mem_append.1 hc with hc | hc
        · obtain ⟨definer', hd, hc⟩ := List.mem_flatMap.1 hc
          exact hdone definer' hd c hc
        · exact hbefore c hc
  · exact Vocabulary.foldl_call hv d hbefore
  · exact Vocabulary.foldl_call_refused hv d after hbefore hbad

/-- A name of a derived type counts more than that of its base, and its views come after. -/
theorem evaluate_base_and_derived :
    Vocabulary.component ∈ vocabularies ∧
      Vocabulary.component.evaluate
          [⟨"Base", [⟨"name", [.text "base"]⟩, ⟨"views", [.text "frame"]⟩]⟩,
            ⟨"Derived", [⟨"views", [.text "body"]⟩, ⟨"name", [.text "derived"]⟩]⟩] =
        .ok { name := some "derived", views := [.ident "frame", .ident "body"] } := by
  have hv : Vocabulary.component ∈ vocabularies := List.mem_cons_self
  refine ⟨hv, ((evaluate_eq_reference hv _).1 fun c hc => ?_).1⟩
  have hc : c = ⟨"name", [.text "base"]⟩ ∨ c = ⟨"views", [.text "frame"]⟩ ∨
      c = ⟨"views", [.text "body"]⟩ ∨ c = ⟨"name", [.text "derived"]⟩ := by
    simpa using hc
  rw [← Call.fault_eq_none_iff hv]
  rcases hc with rfl | rfl | rfl | rfl <;> rfl

end LayeredViews
