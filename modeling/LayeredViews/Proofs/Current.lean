import LayeredViews.Proofs.Keeping
import LayeredViews.Proofs.Resolving

/-!
# Entries that are current

Between operations, every entry belongs to a component on its node, and as long as nothing that it
was resolved from has changed, it is what resolving anew gives.

* `Entry.Vouched`: the entry was up to date for what the loader found at some time, and at its
  sources the loader finds the same now, except where it is known to be stale.
* `World.Current`: every entry is vouched for by a component on its node.
* `current`: the contract of the operations that resolve nothing.
* `Act.wp_resolve`: an operation that resolves a component finds its entry up to date, if nothing is
  stale at its host and no two components of a host share a node.
-/

namespace LayeredViews

variable {κ : Client} {α : Type}

/-- The paths of hosts at which something has changed that entries do not know of. -/
abbrev Stale := HostId → String → Prop

/-! ## Entries -/

namespace Entry

variable {e : Entry} {c : Component} {config : Config}
  {found : String → Except LoadError Class} {stale : String → Prop}

/-- The entry was up to date for what the loader found at some time, which is what it finds now
wherever that is not stale. -/
def Vouched (e : Entry) (c : Component) (config : Config)
    (found : String → Except LoadError Class) (stale : String → Prop) : Prop :=
  ∃ past, e.UpToDate c config past ∧ ∀ p ∈ e.sources, ¬stale p → past p = found p

theorem UpToDate.vouched (h : e.UpToDate c config found) : e.Vouched c config found stale :=
  ⟨found, h, fun _ _ _ => rfl⟩

theorem Vouched.upToDate (h : e.Vouched c config found stale) (hs : ∀ p, ¬stale p) :
    e.UpToDate c config found := by
  obtain ⟨past, hpast, hsame⟩ := h
  exact hpast.congr fun p hp => hsame p hp (hs p)

/-- Something is found elsewhere, or something stale is no longer so. -/
theorem Vouched.weaken (h : e.Vouched c config found stale)
    {found' : String → Except LoadError Class} {stale' : String → Prop}
    (hs : ∀ p ∈ e.sources, ¬stale' p → ¬stale p ∧ found p = found' p) :
    e.Vouched c config found' stale' := by
  obtain ⟨past, hpast, hsame⟩ := h
  refine ⟨past, hpast, fun p hp hp' => ?_⟩
  obtain ⟨hstale, hfound⟩ := hs p hp hp'
  rw [hsame p hp hstale, hfound]

/-- Only the metadata of the component matters. -/
theorem Vouched.of_metadata (h : e.Vouched c config found stale) {c' : Component}
    (hc : c'.metadata = c.metadata) : e.Vouched c' config found stale := by
  obtain ⟨past, ⟨hm, hv⟩, hsame⟩ := h
  have hdeclared : c'.modelDeclaration = c.modelDeclaration := by
    rw [Component.modelDeclaration, Component.modelDeclaration, hc]
  have hdeclarations : c'.declarations config = c.declarations config := by
    rw [Component.declarations, Component.declarations, hc]
  have hmodel : c'.modelAnew config past = c.modelAnew config past := by
    rw [Component.modelAnew, Component.modelAnew, hdeclared]
  have hpaths : c'.modelPaths config = c.modelPaths config := by
    rw [Component.modelPaths, Component.modelPaths, hdeclared]
  have hviews : c'.viewsAnew config past = c.viewsAnew config past := by
    rw [Component.viewsAnew, Component.viewsAnew, Component.boundAnew, Component.boundAnew, hmodel,
      hdeclarations]
  have hmore : c'.viewPaths config = c.viewPaths config := by
    rw [Component.viewPaths, Component.viewPaths, hdeclarations]
  refine ⟨past, ⟨?_, ?_⟩, hsame⟩
  · rw [hmodel, hpaths]
    exact hm
  · rw [hviews, hpaths, hmore]
    exact hv

end Entry

/-! ## The invariant -/

/-- No two components of a host are on the same node. -/
def World.Unshared (w : World κ) : Prop :=
  ∀ i j c d, w.components.get? i = some c → w.components.get? j = some d → c.host = d.host →
    c.node.id = d.node.id → i = j

/-- Every entry is vouched for by a component on its node; `now` says what loaders find, and `stale`
where that has changed. -/
structure World.Current (host : HostId → Host) (now : Answers) (stale : Stale) (w : World κ) :
    Prop where
  tidy : w.Tidy
  clear : w.Clear
  numbered : ∀ id c, w.components.get? id = some c → id < w.nextComponent
  vouched : ∀ h n, w.entry h n = ∅ ∨ ∃ id c, w.components.get? id = some c ∧ c.host = h ∧
    c.node.id = n ∧ (w.entry h n).Vouched c (host h).config (now h) (stale h)

namespace World

variable {host : HostId → Host} {now : Answers} {stale : Stale} {w w' : World κ}

theorem current_start (targets : Dict TargetId EventTarget) (memory : κ.Memory) :
    (World.start targets memory).Current host now stale where
  tidy _ := Dict.Sorted.empty
  clear _ h := by cases h
  numbered _ _ h := by cases h
  vouched _ _ := .inl rfl

/-- Entries may be dropped; where one is kept, so is the place of components on its node. -/
theorem Current.keep (hw : w.Current host now stale) (tidy : w'.Tidy) (clear : w'.Clear)
    (numbered : ∀ id c, w'.components.get? id = some c → id < w'.nextComponent)
    (kept : ∀ h n, w'.entry h n = ∅ ∨ (w'.entry h n = w.entry h n ∧
      ∀ id c, w.components.get? id = some c → c.host = h → c.node.id = n →
        ∃ c', w'.components.get? id = some c' ∧ c'.host = h ∧ c'.node.id = n ∧
          c'.metadata = c.metadata)) : w'.Current host now stale where
  tidy := tidy
  clear := clear
  numbered := numbered
  vouched h n := by
    rcases kept h n with he | ⟨he, hplace⟩
    · exact .inl he
    · rcases hw.vouched h n with hempty | ⟨id, c, hc, hhost, hnode, hv⟩
      · exact .inl (he.trans hempty)
      · obtain ⟨c', hc', hhost', hnode', hmeta⟩ := hplace id c hc hhost hnode
        exact .inr ⟨id, c', hc', hhost', hnode', he ▸ hv.of_metadata hmeta⟩

/-- Entries and components are as they were. -/
theorem Current.same (hw : w.Current host now stale) (hcaches : w'.caches = w.caches)
    (hcomponents : w'.components = w.components) (hclear : w'.Clear)
    (hnext : w'.nextComponent = w.nextComponent) : w'.Current host now stale where
  tidy h := by
    rw [cache, hcaches]
    exact hw.tidy h
  clear := hclear
  numbered := by
    rw [hcomponents, hnext]
    exact hw.numbered
  vouched h n := by
    have he : w'.entry h n = w.entry h n := by rw [entry, cache, hcaches, entry, cache]
    rw [he, hcomponents]
    exact hw.vouched h n

/-- Resolving starts from nothing where there are no entries. -/
theorem Current.emptied (hw : w.Current host now stale) :
    World.Current host now stale { w with caches := ∅ } where
  tidy _ := Dict.Sorted.empty
  clear := hw.clear
  numbered := hw.numbered
  vouched _ _ := .inl rfl

theorem Current.discarded (hw : w.Current host now stale) (h : HostId)
    (selection : Cache.Selection) (cause : Cause) :
    (w.discarded h selection cause).Current host now stale := by
  refine hw.keep (hw.tidy.discarded h selection cause) hw.clear hw.numbered fun h' n => ?_
  rw [entry_discarded hw.tidy]
  split
  · exact .inl rfl
  · exact .inr ⟨rfl, fun id c hc hhost hnode => ⟨c, hc, hhost, hnode, rfl⟩⟩

/-- A component that goes takes what is stored for its node with it. -/
theorem Current.withoutComponent (hw : w.Current host now stale) {id : ComponentId}
    {c : Component} (hc : w.components.get? id = some c) (cause : Cause) :
    ((w.withoutComponent id).discarded c.host (.node c.node.id) cause).Current host now stale := by
  have htidy : (w.withoutComponent id).Tidy := hw.tidy
  refine hw.keep (htidy.discarded _ _ _) hw.clear (fun id' c' hc' => ?_) fun h n => ?_
  · have hc' : (w.components.erase id).get? id' = some c' := hc'
    rw [Dict.get?_erase] at hc'
    split at hc'
    · cases hc'
    · exact hw.numbered id' c' hc'
  · rw [entry_discarded htidy]
    split
    · exact .inl rfl
    · next hkept =>
      refine .inr ⟨rfl, fun id' c' hc' hhost hnode => ⟨c', ?_, hhost, hnode, rfl⟩⟩
      have hne : id' ≠ id := by
        rintro rfl
        obtain rfl := Option.some.inj (hc.symm.trans hc')
        exact hkept ⟨hhost.symm, by simp [Cache.Selection.selects, hnode]⟩
      show (w.components.erase id).get? id' = some c'
      rw [Dict.get?_erase, if_neg hne]
      exact hc'

/-- Components that are replaced keep their numbers. -/
theorem Current.numbered_insert (hw : w.Current host now stale) {id id' : ComponentId}
    {c c' c'' : Component} (hc : w.components.get? id = some c)
    (hc'' : (w.components.insert id c').get? id' = some c'') : id' < w.nextComponent := by
  rw [Dict.get?_insert] at hc''
  split at hc''
  · next he => exact he ▸ hw.numbered id c hc
  · exact hw.numbered id' c'' hc''

/-- A component changes but for its host, the identity of its node, and its metadata. -/
theorem Current.setComponent (hw : w.Current host now stale) {id : ComponentId}
    {c c' : Component} (hc : w.components.get? id = some c) (hhost : c'.host = c.host)
    (hnode : c'.node.id = c.node.id) (hmeta : c'.metadata = c.metadata) :
    (w.setComponent id c').Current host now stale := by
  refine hw.keep hw.tidy hw.clear (fun id₁ c₁ hc₁ => ?_) fun h n => .inr ⟨rfl, ?_⟩
  · have hc₁ : (w.components.insert id c').get? id₁ = some c₁ := hc₁
    exact hw.numbered_insert hc hc₁
  · intro id₁ c₁ hc₁ hh hn
    have hget : (w.setComponent id c').components.get? id₁ =
      if id₁ = id then some c' else w.components.get? id₁ := Dict.get?_insert _ _ _ _
    rw [hget]
    split
    · next he =>
      subst he
      obtain rfl := Option.some.inj (hc.symm.trans hc₁)
      exact ⟨c', rfl, hhost.trans hh, hnode.trans hn, hmeta⟩
    · exact ⟨c₁, hc₁, hh, hn, rfl⟩

/-- A component moves to another node, and the entry of the one before is dropped. -/
theorem Current.moved (hw : w.Current host now stale) {id : ComponentId} {c : Component}
    (hc : w.components.get? id = some c) (node : Node) (cause : Cause) :
    ((w.setComponent id { c with node }).discarded c.host (.node c.node.id) cause).Current host now
      stale := by
  have htidy : (w.setComponent id { c with node }).Tidy := hw.tidy
  refine hw.keep (htidy.discarded _ _ _) hw.clear (fun id₁ c₁ hc₁ => ?_) fun h n => ?_
  · have hc₁ : (w.components.insert id { c with node }).get? id₁ = some c₁ := hc₁
    exact hw.numbered_insert hc hc₁
  · rw [entry_discarded htidy]
    split
    · exact .inl rfl
    · next hkept =>
      refine .inr ⟨rfl, fun id₁ c₁ hc₁ hh hn => ⟨c₁, ?_, hh, hn, rfl⟩⟩
      have hother : id₁ ≠ id := by
        rintro rfl
        obtain rfl := Option.some.inj (hc.symm.trans hc₁)
        exact hkept ⟨hh.symm, by simp [Cache.Selection.selects, hn]⟩
      show (w.components.insert id { c with node }).get? id₁ = some c₁
      rw [Dict.get?_insert_of_ne _ _ hother]
      exact hc₁

/-- A new component. -/
theorem Current.freshComponent (hw : w.Current host now stale) (c : Component) :
    World.Current host now stale
      { w.setComponent w.nextComponent c with nextComponent := w.nextComponent + 1 } := by
  refine hw.keep hw.tidy hw.clear (fun id₁ c₁ hc₁ => ?_) fun h n => .inr ⟨rfl, ?_⟩
  · have hc₁ : (w.components.insert w.nextComponent c).get? id₁ = some c₁ := hc₁
    rw [Dict.get?_insert] at hc₁
    split at hc₁
    · next he => exact he ▸ Nat.lt_succ_self _
    · exact Nat.lt_succ_of_lt (hw.numbered id₁ c₁ hc₁)
  · intro id₁ c₁ hc₁ hh hn
    refine ⟨c₁, ?_, hh, hn, rfl⟩
    show (w.components.insert w.nextComponent c).get? id₁ = some c₁
    rw [Dict.get?_insert_of_ne _ _ (Nat.ne_of_lt (hw.numbered id₁ c₁ hc₁))]
    exact hc₁

end World

/-! ## Operations that resolve nothing -/

/-- The contract of operations that resolve nothing and leave the memory alone. -/
def current (host : HostId → Host) (now : Answers) (stale : Stale) (memory : κ.Memory) :
    Contract κ where
  inv w := w.memory = memory ∧ w.Current host now stale
  step _ _ := True
  refl _ := trivial
  trans _ _ := trivial

@[simp] theorem current_stops {host : HostId → Host} {now : Answers} {stale : Stale}
    {memory : κ.Memory} (e : Option Halt) : (current host now stale memory).stops e ↔ e ≠ none :=
  Iff.rfl

namespace Act

variable {host : HostId → Host} {now : Answers} {stale : Stale} {memory : κ.Memory}
  {w : World κ} {E : Option Halt → Prop}

/-- A component that nobody holds is dropped without getting in the way of anything. -/
theorem wp_settle_current (hw : w.Current host now stale) (id : ComponentId) :
    (settle id).Wp E (fun _ w' => w'.memory = w.memory ∧ w'.Current host now stale) w := by
  rw [wp_settle]
  split
  · exact ⟨rfl, hw⟩
  · cases hc : w.components.get? id with
    | none => exact ⟨rfl, hw⟩
    | some c =>
      dsimp only
      rw [if_neg (by simp [hw.clear.entries])]
      exact ⟨rfl, hw.withoutComponent hc _⟩

theorem current_of_same {a : Act κ α} (h : ∀ w, a.Wp (· ≠ none) (fun _ w' =>
      w'.memory = w.memory ∧ w'.caches = w.caches ∧ w'.components = w.components ∧
        w'.loans = w.loans ∧ w'.nextComponent = w.nextComponent) w) :
    (current host now stale memory).Kept a := fun w ⟨hm, hw⟩ =>
  (h w).mono fun _ _ ⟨hmemory, hcaches, hcomponents, hloans, hnext⟩ =>
    ⟨⟨hmemory.trans hm, hw.same hcaches hcomponents (hw.clear.of_loans hloans) hnext⟩, trivial⟩

/-- A use that is aside does not matter. -/
theorem current_lend {cell : Cell} {access : Access} (ha : Aside (cell, access)) {body : Act κ α}
    (h : (current host now stale memory).Kept body) :
    (current host now stale memory).Kept (lend cell access body) := by
  intro w ⟨hm, hw⟩
  rw [wp_lend]
  split
  · simp
  · have lent : World.Current host now stale { w with loans := (cell, access) :: w.loans } :=
      hw.same rfl rfl (hw.clear.lend ha) rfl
    refine (h { w with loans := (cell, access) :: w.loans } ⟨hm, lent⟩).mono
      fun x w' ⟨⟨hm', hw'⟩, _⟩ => ?_
    exact ⟨⟨hm', hw'.same rfl rfl hw'.clear.back rfl⟩, trivial⟩

theorem current_tended : (current host now stale memory).Tended (κ := κ) where
  toHolding := .of_pins (fun id w ⟨hm, hw⟩ => (wp_settle_current hw id).mono fun _ _ ⟨hm', hw'⟩ =>
      ⟨⟨hm'.trans hm, hw'⟩, trivial⟩)
    fun hw _ => ⟨⟨hw.1, hw.2.same rfl rfl hw.2.clear rfl⟩, trivial⟩
  discard h selection cause := fun w ⟨hm, hw⟩ => by
    rw [wp_discard]
    split
    · simp
    · exact ⟨⟨hm, hw.discarded h selection cause⟩, trivial⟩
  read cell f := fun w hw => by
    rw [wp_read]
    split
    · simp
    · exact ⟨hw, trivial⟩
  lendNode id _ h := by
    have ha : Aside (.node id, .read) := trivial
    exact current_lend ha h
  handles hw _ := ⟨⟨hw.1, hw.2.same rfl rfl hw.2.clear rfl⟩, trivial⟩
  idle _ := current_of_same fun _ => ⟨rfl, rfl, rfl, rfl, rfl⟩

theorem current_updateSubscriptions (id : ComponentId) (s : Subscriptions) :
    (current host now stale memory).Kept (κ := κ)
      (updateComponent id fun c => { c with subscriptions := s }) := by
  intro w ⟨hm, hw⟩
  rw [updateComponent, wp_modify]
  cases hc : w.components.get? id with
  | none => exact ⟨⟨hm, hw⟩, trivial⟩
  | some c => exact ⟨⟨hm, hw.setComponent hc rfl rfl rfl⟩, trivial⟩

theorem current_binding : (current host now stale memory).Binding (κ := κ) where
  toTended := current_tended
  updateTarget t f := fun w ⟨hm, hw⟩ => by
    rw [wp_updateTarget]
    split
    · simp
    · exact ⟨⟨hm, hw.same rfl rfl hw.clear rfl⟩, trivial⟩
  freshListener _ := current_of_same fun _ => ⟨rfl, rfl, rfl, rfl, rfl⟩
  freshComponent c := fun w ⟨hm, hw⟩ => ⟨⟨hm, hw.freshComponent c⟩, trivial⟩
  withSubscriptions id c body h := by
    have ha : Aside (.subscriptions id, .write) := trivial
    exact current_lend ha (.get_bind fun _ => (h _).bind fun ⟨a, s⟩ =>
      (current_updateSubscriptions id s).bind fun _ => .pure a)

/-- A component that moves to another node leaves no entry at the one before. -/
theorem current_update (id : ComponentId) (node : Node) :
    (current host now stale memory).Kept (κ := κ)
      (withComponent id fun c => update id c node) := by
  refine current_tended.withComponent_from id fun c w ⟨hm, hw⟩ hc _ => ?_
  have hmoved : (w.setComponent id { c with node }).current id c = { c with node } :=
    World.current_of_get? (Dict.get?_insert_self _ _ _) c
  unfold Contract.KeptFrom update
  rw [wp_bind, wp_swapNode hc]
  split
  · simp
  rw [wp_bind, wp_nodeOf]
  split
  · simp
  rw [hmoved, wp_ite]
  split
  · next hsame => exact ⟨⟨hm, hw.setComponent hc rfl hsame.symm rfl⟩, trivial⟩
  · rw [wp_bind, wp_discard]
    split
    · simp
    · exact ⟨⟨hm, hw.moved hc node _⟩, trivial⟩

end Act

/-! ## Operations that resolve -/

section

variable {lib : Library κ} {host : HostId → Host} {stale : Stale} {w w' : World κ}
  {id : ComponentId} {c : Component}

/-- What is stored for the node of a component is up to date, if nothing is stale at its host and no
other component shares the node. -/
theorem World.Current.fresh (hw : w.Current host (lib.answers host w.memory) stale)
    (hs : ∀ p, ¬stale c.host p) (hu : w.Unshared) (hc : w.components.get? id = some c) :
    lib.Fresh host id c w := by
  unfold Library.Fresh
  rw [World.current_of_get? hc]
  rcases hw.vouched c.host c.node.id with hempty | ⟨id', c', hc', hhost, hnode, hv⟩
  · rw [hempty]
    exact Entry.UpToDate.empty
  · obtain rfl := hu id' id c' c hc' hc hhost hnode
    obtain rfl := Option.some.inj (hc.symm.trans hc')
    exact hv.upToDate hs

/-- A resolution leaves an entry that its component vouches for. -/
theorem World.Current.resolved (hw : w.Current host (lib.answers host w.memory) stale)
    (hc : w.components.get? id = some c) (hf : lib.Fresh host id c w')
    (hr : lib.Resolving c.host (w.current id c).node.id w w') :
    w'.Current host (lib.answers host w'.memory) stale where
  tidy := hr.tidy hw.tidy
  clear := hw.clear.of_loans hr.loans
  numbered := by
    rw [hr.components, hr.nextComponent]
    exact hw.numbered
  vouched h n := by
    rw [hr.components]
    by_cases hn : h = c.host ∧ n = c.node.id
    · obtain ⟨rfl, rfl⟩ := hn
      unfold Library.Fresh at hf
      rw [hr.current, World.current_of_get? hc] at hf
      exact .inr ⟨id, c, hc, rfl, rfl, hf.vouched⟩
    · have helse : w'.entry h n = w.entry h n := by
        refine hr.elsewhere h n ?_
        rw [World.current_of_get? hc]
        exact hn
      rw [helse, hr.answers]
      exact hw.vouched h n

/-- An operation that resolves a component gives what it gives where the entry of the component is
up to date, and leaves entries that are current. -/
theorem Act.wp_resolve {E : Option Halt → Prop} {body : Component → Act κ α}
    {R : Component → α → Prop} (hw : w.Current host (lib.answers host w.memory) stale)
    (id : ComponentId) (hs : ∀ c, w.components.get? id = some c → ∀ p, ¬stale c.host p)
    (hu : w.Unshared)
    (hbody : ∀ c v, w.components.get? id = some c → v.components = w.components →
      v.memory = w.memory → v.Clear → lib.Fresh host id c v → (body c).Wp E (fun x w' =>
        R c x ∧ lib.Fresh host id c w' ∧
          lib.Resolving c.host (v.current id c).node.id v w') v) :
    (withComponent id body).Wp E (fun r w' =>
      (match w.components.get? id with
        | none => r = none
        | some c => ∃ x, r = some x ∧ R c x) ∧
      lib.registry w'.memory = lib.registry w.memory ∧
      w'.Current host (lib.answers host w'.memory) stale) w := by
  rw [wp_withComponent]
  cases hc : w.components.get? id with
  | none => exact ⟨rfl, rfl, hw⟩
  | some c =>
    dsimp only
    rw [wp_pinned, wp_map]
    have pinned : World.Current host (lib.answers host w.memory) stale
        { w with pins := id :: w.pins } := hw.same rfl rfl hw.clear rfl
    have hfresh : lib.Fresh host id c { w with pins := id :: w.pins } :=
      pinned.fresh (hs c hc) hu hc
    refine (hbody c { w with pins := id :: w.pins } hc rfl rfl hw.clear hfresh).mono ?_
    intro x w₁ ⟨hx, hf, hr⟩
    have hw₁ := World.Current.resolved (w := { w with pins := id :: w.pins }) pinned hc hf hr
    refine (wp_settle_current (w := { w₁ with pins := w₁.pins.tail })
      (hw₁.same rfl rfl hw₁.clear rfl) id).mono fun _ w₂ ⟨hm, hw₂⟩ => ?_
    have hm : w₂.memory = w₁.memory := hm
    refine ⟨⟨x, rfl, hx⟩, ?_, ?_⟩
    · rw [hm]
      exact hr.registry
    · rw [hm]
      exact hw₂

end

end LayeredViews
