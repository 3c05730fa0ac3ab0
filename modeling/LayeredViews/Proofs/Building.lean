import LayeredViews.ComponentType
import LayeredViews.Proofs.Evaluation

/-!
# What a component type declares

The definers of a type run from its most basic layer down, and its methods are looked up from the
type itself up. This module says what building a type gives in terms of its layers alone.

* `ComponentType.calls`: the verbs that the layers call, most basic layer first.
* `ComponentType.Handles`, `ComponentType.Nearest`: some layer has a method; the nearest layer that
  has one.
* `ComponentType.Outcome`: the result of building, one rule for each error and one for success.
* `ComponentType.build_iff_outcome`: a type is built as `Outcome` says.
-/

namespace LayeredViews

/-- The verbs that the definer of a layer calls. -/
def TypeLayer.calls (l : TypeLayer) : List (Call Class) :=
  match l.definer with
  | some definer => definer.calls
  | none => []

namespace ComponentType

/-- The verbs that the definers of a type call, most basic layer first. -/
def calls (t : ComponentType) : List (Call Class) := t.layers.reverse.flatMap TypeLayer.calls

/-- The names that the calls give, in order. -/
def names (t : ComponentType) : List String := t.calls.filterMap Call.name?

/-- The events that the calls declare, in order. -/
def events (t : ComponentType) : List EventBinding := t.calls.filterMap Call.event?

/-- Some layer has a method of that name. -/
def Handles (t : ComponentType) (name : String) : Prop :=
  ∃ l ∈ t.layers, l.methods.contains name = true

/-- The nearest layer that has a method of that name has `method`. -/
def Nearest (t : ComponentType) (name : String) (method : Method) : Prop :=
  ∃ nearer l farther, t.layers = nearer ++ l :: farther ∧
    (∀ l' ∈ nearer, l'.methods.get? name = none) ∧ l.methods.get? name = some method

/-- The result of building a type. The rules exclude one another: each error supposes that what the
rules above it report is not the case. -/
inductive Outcome (t : ComponentType) : Except Error Metadata → Prop where
  /-- No layer has a definer. -/
  | missingDefiner (undefined : ∀ l ∈ t.layers, l.definer = none) :
      t.Outcome (.error (.configuration (.missingDefiner t.label)))
  /-- A call is refused, and none before it. -/
  | refused {before : List (Call Class)} {bad : Call Class} {after : List (Call Class)} {e : Error}
      (calls : t.calls = before ++ bad :: after) (valid : ∀ c ∈ before, c.Valid .component)
      (fault : bad.fault .component = some e) : t.Outcome (.error e)
  /-- There are definers, and none gives a name. -/
  | missingName (defined : ∃ l ∈ t.layers, l.definer ≠ none)
      (valid : ∀ c ∈ t.calls, c.Valid .component) (name : t.names.getLast? = none) :
      t.Outcome (.error (.configuration (.missingName t.label)))
  /-- The name given last is empty. -/
  | emptyName (valid : ∀ c ∈ t.calls, c.Valid .component) (name : t.names.getLast? = some "") :
      t.Outcome (.error (.configuration (.emptyName t.label)))
  /-- No layer has the handler of an event, and some layer has that of each event before it. -/
  | unknownHandler {name : String} {before : List EventBinding} {b : EventBinding}
      {after : List EventBinding} (valid : ∀ c ∈ t.calls, c.Valid .component)
      (last : t.names.getLast? = some name) (nonempty : name ≠ "")
      (events : t.events = before ++ b :: after) (handled : ∀ b' ∈ before, t.Handles b'.handler)
      (unhandled : ¬t.Handles b.handler) :
      t.Outcome (.error (.configuration (.unknownHandler t.label b.event b.handler)))
  /-- The type is sound. -/
  | built {name : String} (valid : ∀ c ∈ t.calls, c.Valid .component)
      (last : t.names.getLast? = some name) (nonempty : name ≠ "")
      (handled : ∀ b ∈ t.events, t.Handles b.handler) :
      t.Outcome (.ok
        { name
          views := t.calls.flatMap Call.views
          viewModel := (t.calls.filterMap Call.viewModel?).getLast?
          events := t.events })

/-! ## Methods -/

/-- A look-up finds the method of the nearest layer that has one. -/
theorem findMethod_eq_some_iff {t : ComponentType} {name : String} {method : Method} :
    t.findMethod name = some method ↔ t.Nearest name method := by
  rw [findMethod, List.findSome?_eq_some_iff]
  constructor
  · rintro ⟨nearer, l, farther, hlayers, hfound, hnearer⟩
    exact ⟨nearer, l, farther, hlayers, hnearer, hfound⟩
  · rintro ⟨nearer, l, farther, hlayers, hnearer, hfound⟩
    exact ⟨nearer, l, farther, hlayers, hfound, hnearer⟩

theorem hasHandler_iff {t : ComponentType} {name : String} :
    t.hasHandler name = true ↔ t.Handles name := by
  simp [hasHandler, findMethod, Handles, Dict.contains, List.findSome?_isSome_iff]

/-! ## The chain of definers -/

variable (t : ComponentType)

theorem chain_eq_nil_iff : t.chain = [] ↔ ∀ l ∈ t.layers, l.definer = none := by
  simp [chain, List.filterMap_eq_nil_iff]

/-- The layers without a definer call nothing. -/
theorem flatMap_chain : t.chain.flatMap DefinerOf.calls = t.calls := by
  rw [chain, ← List.filterMap_reverse, calls]
  induction t.layers.reverse with
  | nil => rfl
  | cons l rest ih =>
    cases hl : l.definer with
    | none => simp [TypeLayer.calls, hl, ih]
    | some definer => simp [TypeLayer.calls, hl, ih]

/-- A type with a name has a definer. -/
theorem chain_ne_nil_of_name {name : String} (h : t.names.getLast? = some name) :
    t.chain ≠ [] := by
  intro hnil
  rw [names, ← flatMap_chain, hnil] at h
  cases h

theorem build_of_chain (h : t.chain ≠ []) :
    t.build.result = (Vocabulary.component.evaluate t.chain).bind
      (Metadata.check t.label t.hasHandler) := by
  rw [build, Metadata.build]
  · rfl
  · exact h

end ComponentType

/-- Running a chain stops at the first refused call of all its definers taken together. -/
theorem Vocabulary.runFrom_refused_call {v : Vocabulary} (hv : v ∈ vocabularies) (d : Declarations)
    {chain : List Definer} {before after : List (Call Class)} {bad : Call Class} {e : Error}
    (hcalls : chain.flatMap DefinerOf.calls = before ++ bad :: after)
    (hvalid : ∀ c ∈ before, c.Valid v) (he : bad.fault v = some e) :
    (v.runFrom d chain).result = .error e := by
  have hbad : ¬bad.Valid v := fun h => by
    rw [(Call.fault_eq_none_iff hv bad).2 h] at he
    cases he
  induction chain generalizing d before with
  | nil => simp at hcalls
  | cons definer rest ih =>
    rw [List.flatMap_cons, List.append_eq_append_iff] at hcalls
    rcases hcalls with ⟨earlier, rfl, hrest⟩ | ⟨later, hdefiner, hlater⟩
    · -- all calls of this definer come before the refused one
      have step : v.runDefiner d definer = ⟨d.extend definer.calls, none⟩ :=
        foldl_call hv d fun c hc => hvalid c (List.mem_append_left _ hc)
      rw [runFrom, step]
      exact ih _ hrest fun c hc => hvalid c (List.mem_append_right _ hc)
    · cases later with
      | nil =>
        have step : v.runDefiner d definer = ⟨d.extend definer.calls, none⟩ :=
          foldl_call hv d fun c hc => hvalid c (by simpa [hdefiner] using hc)
        rw [runFrom, step]
        exact @ih _ [] hlater.symm (by simp)
      | cons first later =>
        obtain ⟨rfl, -⟩ := List.cons.inj hlater
        obtain ⟨e', he', hs⟩ := foldl_call_refused hv d later hvalid hbad
        have step : v.runDefiner d definer = ⟨d.extend before, some e⟩ := by
          rw [runDefiner, hdefiner, hs, ← he', he]
        rw [runFrom, step]

namespace ComponentType

variable (t : ComponentType)

private theorem component_mem : Vocabulary.component ∈ vocabularies := List.mem_cons_self

/-- What is checked when no call is refused. -/
theorem build_of_valid (h : t.chain ≠ []) (hvalid : ∀ c ∈ t.calls, c.Valid .component) :
    t.build.result = Metadata.check t.label t.hasHandler ((∅ : Declarations).extend t.calls) := by
  have hchain : ∀ definer ∈ t.chain, ∀ c ∈ definer.calls, c.Valid .component :=
    fun definer hd c hc =>
      hvalid c (t.flatMap_chain ▸ List.mem_flatMap.2 ⟨definer, hd, hc⟩)
  rw [build_of_chain t h, Vocabulary.evaluate, Vocabulary.run,
    (Vocabulary.runFrom_valid component_mem ∅ hchain).1, flatMap_chain]
  rfl

/-! ## Building -/

variable {t} {r : Except Error Metadata}

theorem extend_calls_name : ((∅ : Declarations).extend t.calls).name = t.names.getLast? := by
  simp [Declarations.extend, names, EmptyCollection.emptyCollection]

theorem extend_calls_events : ((∅ : Declarations).extend t.calls).events = t.events := by
  simp [Declarations.extend, events, EmptyCollection.emptyCollection]

/-- Each rule says what building gives. -/
theorem build_of_outcome (h : t.Outcome r) : t.build.result = r := by
  cases h with
  | missingDefiner undefined =>
    rw [build, (chain_eq_nil_iff t).2 undefined]
    rfl
  | @refused before bad after e calls valid fault =>
    have hchain : t.chain ≠ [] := fun hnil => by
      rw [← flatMap_chain, hnil] at calls
      simp at calls
    have hrun : (Vocabulary.component.runFrom ∅ t.chain).result = .error e :=
      Vocabulary.runFrom_refused_call component_mem ∅ (t.flatMap_chain.trans calls) valid fault
    rw [build_of_chain t hchain, Vocabulary.evaluate, Vocabulary.run, hrun]
    rfl
  | missingName defined valid name =>
    have hchain : t.chain ≠ [] := fun hnil => by
      obtain ⟨l, hl, hdefiner⟩ := defined
      exact hdefiner ((chain_eq_nil_iff t).1 hnil l hl)
    rw [build_of_valid t hchain valid, Metadata.check, extend_calls_name, name]
  | emptyName valid name =>
    rw [build_of_valid t (chain_ne_nil_of_name t name) valid, Metadata.check, extend_calls_name,
      name]
    rfl
  | @unknownHandler name before b after valid last nonempty events handled unhandled =>
    have hfind : t.events.find? (fun b => !t.hasHandler b.handler) = some b := by
      refine List.find?_eq_some_iff_append.2 ⟨?_, before, after, events, fun b' hb' => ?_⟩
      · simpa using mt hasHandler_iff.1 unhandled
      · simpa [hasHandler_iff] using handled b' hb'
    rw [build_of_valid t (chain_ne_nil_of_name t last) valid, Metadata.check, extend_calls_name,
      last, extend_calls_events]
    simp only [nonempty, if_false, hfind]
  | @built name valid last nonempty handled =>
    have hfind : t.events.find? (fun b => !t.hasHandler b.handler) = none := by
      simpa [hasHandler_iff] using handled
    rw [build_of_valid t (chain_ne_nil_of_name t last) valid, Metadata.check, extend_calls_name,
      last, extend_calls_events]
    simp only [nonempty, if_false, hfind]
    simp [Declarations.extend, EmptyCollection.emptyCollection]

/-- Some rule applies to every type. -/
theorem exists_outcome (t : ComponentType) : ∃ r, t.Outcome r := by
  by_cases hundefined : ∀ l ∈ t.layers, l.definer = none
  · exact ⟨_, .missingDefiner hundefined⟩
  cases hrefused : t.calls.find? fun c => (c.fault .component).isSome with
  | some bad =>
    obtain ⟨hbad, before, after, hcalls, hbefore⟩ := List.find?_eq_some_iff_append.1 hrefused
    obtain ⟨e, he⟩ := Option.isSome_iff_exists.1 hbad
    refine ⟨_, .refused hcalls (fun c hc => ?_) he⟩
    exact (Call.fault_eq_none_iff component_mem c).1 (by simpa using hbefore c hc)
  | none =>
    have hvalid : ∀ c ∈ t.calls, c.Valid .component := fun c hc =>
      (Call.fault_eq_none_iff component_mem c).1
        (by simpa using List.find?_eq_none.1 hrefused c hc)
    cases hname : t.names.getLast? with
    | none => exact ⟨_, .missingName (by simpa using hundefined) hvalid hname⟩
    | some name =>
      by_cases hempty : name = ""
      · exact ⟨_, .emptyName hvalid (hempty ▸ hname)⟩
      cases hevents : t.events.find? fun b => !t.hasHandler b.handler with
      | some b =>
        obtain ⟨hb, before, after, hsplit, hbefore⟩ := List.find?_eq_some_iff_append.1 hevents
        refine ⟨_, .unknownHandler hvalid hname hempty hsplit (fun b' hb' => ?_) ?_⟩
        · exact hasHandler_iff.1 (by simpa using hbefore b' hb')
        · exact fun h => by simp [hasHandler_iff.2 h] at hb
      | none =>
        exact ⟨_, .built hvalid hname hempty fun b hb =>
          hasHandler_iff.1 (by simpa using List.find?_eq_none.1 hevents b hb)⟩

theorem outcome_iff : t.Outcome r ↔ t.build.result = r := by
  refine ⟨build_of_outcome, ?_⟩
  rintro rfl
  obtain ⟨r, hr⟩ := exists_outcome t
  exact build_of_outcome hr ▸ hr

/-- **What building a type gives.** The result is the one that the rules of `Outcome` give. It is a
success exactly when some layer has a definer, no call is refused, the name given last is not empty
and every event has a handler. The method that is then found for an event is that of the nearest
layer that has one of this name. -/
theorem build_iff_outcome (t : ComponentType) :
    (∀ r, t.build.result = r ↔ t.Outcome r) ∧
    ((∃ m, t.build.result = .ok m) ↔
      (∃ l ∈ t.layers, l.definer ≠ none) ∧ (∀ c ∈ t.calls, c.Valid .component) ∧
        (∃ name, t.names.getLast? = some name ∧ name ≠ "") ∧
        ∀ b ∈ t.events, t.Handles b.handler) ∧
    ∀ m, t.build.result = .ok m → ∀ b ∈ m.events,
      ∃ method, t.findMethod b.handler = some method ∧ t.Nearest b.handler method := by
  refine ⟨fun r => outcome_iff.symm, ⟨?_, ?_⟩, fun m hm b hb => ?_⟩
  · rintro ⟨m, hm⟩
    cases outcome_iff.2 hm with
    | @built name valid last nonempty handled =>
      have hchain := chain_ne_nil_of_name t last
      exact ⟨by simpa [chain_eq_nil_iff] using hchain, valid, ⟨name, last, nonempty⟩, handled⟩
  · rintro ⟨-, valid, ⟨name, last, nonempty⟩, handled⟩
    exact ⟨_, build_of_outcome (.built valid last nonempty handled)⟩
  · cases outcome_iff.2 hm with
    | built valid last nonempty handled =>
      have hfound : (t.findMethod b.handler).isSome = true := hasHandler_iff.2 (handled b hb)
      obtain ⟨method, hmethod⟩ := Option.isSome_iff_exists.1 hfound
      exact ⟨method, hmethod, findMethod_eq_some_iff.1 hmethod⟩

end ComponentType

end LayeredViews
