import LayeredViews.Proofs.Chronicle
import LayeredViews.Proofs.Entries
import LayeredViews.Proofs.Numbering

/-!
# Answers for a node when code calls back

Code that runs while a node is resolved may ask for the same node. This module keeps track of what
is stored for nodes throughout such runs.

* `Mirrored`: the entries of the hosts are what stands after the record of a run; `Memoized`: the
  record is a chronicle as well.
* `Retains`: what code may do meanwhile. Every resolution that it begins has come to an end, and
  it stores nothing that was made before it.
* `memo`: both of them as a contract. Every operation keeps it (`memo_sound`), so the first holds in
  every world that a run comes to (`memoized_of_reaches`).
-/

namespace LayeredViews

variable {κ : Client} {α β : Type}

/-- What is stored of an aspect. -/
def Entry.get? (e : Entry) : Aspect → Option Resolved
  | .model => e.model.map .model
  | .views => e.views.map .views

@[simp] theorem Entry.get?_model (e : Entry) : e.get? .model = e.model.map .model := rfl

@[simp] theorem Entry.get?_views (e : Entry) : e.get? .views = e.views.map .views := rfl

@[simp] theorem Entry.get?_empty (a : Aspect) : (∅ : Entry).get? a = none := by
  cases a <;> rfl

theorem Entry.get?_withModel (m : Model) (paths : List String) (e : Entry) (a : Aspect) :
    (e.withModel m paths).get? a = if a = .model then some (.model m) else e.get? a := by
  cases a <;> rfl

theorem Entry.get?_withViews (l : ViewList) (paths : List String) (e : Entry) (a : Aspect) :
    (e.withViews l paths).get? a = if a = .views then some (.views l) else e.get? a := by
  cases a <;> rfl

/-- The number that the next thing of an aspect gets. -/
def World.next (w : World κ) : Aspect → Nat
  | .model => w.nextInstance
  | .views => w.nextList

/-- The entries of the hosts are what stands after the record. -/
structure Mirrored (w : World κ) : Prop where
  stands : ∀ h n a, (w.entry h n).get? a = standing h n a w.record
  tidy : w.Tidy

/-- The entries of the hosts are what stands after the record, and the record is a chronicle. -/
structure Memoized (w : World κ) : Prop where
  chronicle : Chronicle w.record
  stands : ∀ h n a, (w.entry h n).get? a = standing h n a w.record
  tidy : w.Tidy
  /-- What was stored has a number that was given out. -/
  numbered : ∀ h n x, .stored h n x ∈ w.record → x.number < w.next x.aspect

theorem Memoized.mirrored {w : World κ} (hw : Memoized w) : Mirrored w := ⟨hw.stands, hw.tidy⟩

/-- What code may do while something is resolved. -/
structure Retains (w w' : World κ) : Prop where
  underWay : ∀ h n a, underWay h n a w'.record = underWay h n a w.record
  next : ∀ a, w.next a ≤ w'.next a
  unseen : ∀ a i, i < w.next a → Unseen a i w.record → Unseen a i w'.record

theorem Retains.refl (w : World κ) : Retains w w :=
  ⟨fun _ _ _ => rfl, fun _ => Nat.le_refl _, fun _ _ _ h => h⟩

theorem Retains.trans {w₁ w₂ w₃ : World κ} (h : Retains w₁ w₂) (h' : Retains w₂ w₃) :
    Retains w₁ w₃ where
  underWay host n a := (h'.underWay host n a).trans (h.underWay host n a)
  next a := Nat.le_trans (h.next a) (h'.next a)
  unseen a i hi hu := h'.unseen a i (Nat.lt_of_lt_of_le hi (h.next a)) (h.unseen a i hi hu)

/-! ## Steps that have nothing to do with resolutions -/

theorem standing_idle {h : HostId} {n : NodeId} {a : Aspect} {new : List (Occurrence κ)}
    (hn : ∀ o ∈ new, o.Idle) (past : List (Occurrence κ)) :
    standing h n a (new ++ past) = standing h n a past := by
  induction new with
  | nil => rfl
  | cons o new ih =>
    have ho : o.Idle := hn o List.mem_cons_self
    refine Eq.trans ?_ (ih fun o ho => hn o (List.mem_cons_of_mem _ ho))
    cases o with
    | stored => exact ho.elim
    | dropped => exact ho.elim
    | _ => rfl

theorem standing_dropped {h h' : HostId} {n : NodeId} {a : Aspect} (cause : Cause)
    (nodes : List NodeId) (past : List (Occurrence κ)) :
    standing h n a (nodes.map (fun node => .dropped h' node cause) ++ past) =
      if h = h' ∧ n ∈ nodes then none else standing h n a past := by
  induction nodes with
  | nil => simp
  | cons node nodes ih =>
    rw [List.map_cons, List.cons_append, standing, ih]
    by_cases hc : h' = h ∧ node = n
    · simp [hc]
    · grind

namespace Mirrored

variable {w w' : World κ}

theorem calm (hw : Mirrored w) (hcalm : w.Calm w') : Mirrored w' where
  stands h n a := by
    obtain ⟨new, hr, hn⟩ := hcalm.record
    rw [hcalm.entry, hr, standing_idle hn, hw.stands]
  tidy h := by
    rw [hcalm.cache]
    exact hw.tidy h

/-- A drop takes away what stands for the nodes that had a selected entry. -/
theorem discarded (hw : Mirrored w) (h : HostId) (selection : Cache.Selection) (cause : Cause) :
    Mirrored (w.discarded h selection cause) where
  tidy := hw.tidy.discarded h selection cause
  stands h' n a := by
    rw [World.entry_discarded hw.tidy]
    change _ = standing h' n a ((List.map _ _).reverse ++ w.record)
    rw [← List.map_reverse, standing_dropped, ← hw.stands]
    simp only [List.mem_reverse, World.mem_reload hw.tidy]
    by_cases hh : h' = h
    · subst hh
      have hentry : w.entry h' n = ((w.cache h').get? n).getD ∅ := rfl
      rw [hentry]
      cases (w.cache h').get? n with
      | none => simp
      | some e =>
        by_cases hs : selection.selects n e = true
        · simp [hs]
        · simp [hs]
    · simp [hh]

/-- A note that stores nothing leaves what is stored. -/
theorem note (hw : Mirrored w) {o : Occurrence κ}
    (hstands : ∀ h n a, standing h n a (o :: w.record) = standing h n a w.record) :
    Mirrored { w with record := o :: w.record } :=
  ⟨fun h n a => (hw.stands h n a).trans (hstands h n a).symm, hw.tidy⟩

theorem store (hw : Mirrored w) (h : HostId) (n : NodeId) (x : Resolved) {f : Entry → Entry}
    (hf : ∀ e a, (f e).get? a = if a = x.aspect then some x else e.get? a) :
    Mirrored { w.setCache h ((w.cache h).insert n (f (w.entry h n))) with
      record := .stored h n x :: w.record } where
  tidy := hw.tidy.setCache ((hw.tidy h).insert n _)
  stands h' n' a := by
    refine Eq.trans (congrArg (Entry.get? · a) (w.entry_setCache_insert h h' n n' _)) ?_
    rw [standing]
    by_cases hc : h' = h ∧ n' = n
    · obtain ⟨rfl, rfl⟩ := hc
      by_cases ha : a = x.aspect
      · subst ha
        simp [hf]
      · have ha' : x.aspect ≠ a := fun h => ha h.symm
        simp [hf, ha, ha', hw.stands]
    · have hc' : ¬(h = h' ∧ n = n' ∧ x.aspect = a) := fun hc' => hc ⟨hc'.1.symm, hc'.2.1.symm⟩
      simp [hc, hc', hw.stands]

end Mirrored

theorem Chronicle.plain {new past : List (Occurrence κ)} (hn : ∀ o ∈ new, o.Plain)
    (hc : Chronicle past) : Chronicle (new ++ past) := by
  induction new with
  | nil => exact hc
  | cons o new ih =>
    have ho : o.Plain := hn o List.mem_cons_self
    refine ⟨?_, ih fun o ho => hn o (List.mem_cons_of_mem _ ho)⟩
    cases o with
    | resolving => exact ho.elim
    | stored => exact ho.elim
    | failed => exact ho.elim
    | gave => exact ho.elim
    | _ => trivial

theorem underWay_plain {h : HostId} {n : NodeId} {a : Aspect} {new : List (Occurrence κ)}
    (hn : ∀ o ∈ new, o.Plain) (past : List (Occurrence κ)) :
    underWay h n a (new ++ past) = underWay h n a past := by
  induction new with
  | nil => rfl
  | cons o new ih =>
    have ho : o.Plain := hn o List.mem_cons_self
    have h0 : o.opens h n a = 0 := by
      cases o with
      | resolving => exact ho.elim
      | stored => exact ho.elim
      | failed => exact ho.elim
      | _ => rfl
    rw [List.cons_append, underWay_cons, h0, ih fun o ho => hn o (List.mem_cons_of_mem _ ho)]
    omega

theorem stored_plain {h : HostId} {n : NodeId} {x : Resolved} {new past : List (Occurrence κ)}
    (hn : ∀ o ∈ new, o.Plain) (hx : .stored h n x ∈ new ++ past) : .stored h n x ∈ past :=
  (List.mem_append.1 hx).resolve_left fun hx => hn _ hx

/-- What a plain record leaves to be shown: the entries are what stands after it. -/
theorem Memoized.plain {w w' : World κ} (hw : Memoized w) {new : List (Occurrence κ)}
    (hr : w'.record = new ++ w.record) (hn : ∀ o ∈ new, o.Plain) (hnext : ∀ a, w.next a ≤ w'.next a)
    (hm : Mirrored w') : Memoized w' ∧ Retains w w' := by
  refine ⟨⟨?_, hm.stands, hm.tidy, fun h n x hx => ?_⟩, fun h n a => ?_, hnext,
    fun a i _ hi h n x hx => ?_⟩
  · rw [hr]
    exact hw.chronicle.plain hn
  · rw [hr] at hx
    exact Nat.lt_of_lt_of_le (hw.numbered h n x (stored_plain hn hx)) (hnext _)
  · rw [hr]
    exact underWay_plain hn _
  · rw [hr] at hx
    exact hi h n x (stored_plain hn hx)

/-- Calm steps change nothing about what is stored. -/
theorem Memoized.calm {w w' : World κ} (hw : Memoized w) (hcalm : w.Calm w') :
    Memoized w' ∧ Retains w w' := by
  obtain ⟨new, hr, hn⟩ := hcalm.record
  refine hw.plain hr (fun o ho => (hn o ho).plain) (fun a => ?_) (hw.mirrored.calm hcalm)
  cases a with
  | model => exact hcalm.instances
  | views => exact hcalm.lists

/-- The contract between the operations and the code that they call. -/
def memo : Contract κ where
  inv := Memoized
  step := Retains
  refl := Retains.refl
  trans := Retains.trans

@[simp] theorem memo_stops (e : Option Halt) : memo.stops (κ := κ) e ↔ e ≠ none := Iff.rfl

/-! ## Operations that resolve nothing -/

theorem memo_discard (h : HostId) (selection : Cache.Selection) (cause : Cause) :
    memo.Kept (κ := κ) (Act.discard h selection cause) := by
  intro w hw
  rw [Act.wp_discard]
  split
  · simp
  · refine hw.plain rfl (fun o ho => ?_) (fun a => ?_) (hw.mirrored.discarded h selection cause)
    · simp only [List.mem_reverse, List.mem_map] at ho
      obtain ⟨n, -, rfl⟩ := ho
      trivial
    · cases a <;> exact Nat.le_refl _

theorem memo_calming : memo.Calming (κ := κ) where
  calm := Memoized.calm
  discard := memo_discard
  stops := Option.some_ne_none

/-! ## Resolutions -/

/-- Nothing that has the next instance was stored. -/
theorem memo_numbering : memo.Numbering (κ := κ) (Unseen .model) where
  toCalming := memo_calming
  next h := h.next .model
  new hw h n x hx ha := by
    have := hw.numbered h n x hx
    rw [ha] at this
    exact Nat.ne_of_lt this
  still h i := h.unseen .model i

section

variable {w w' w'' : World κ} {h : HostId} {n : NodeId} {a : Aspect} {x : Resolved}

/-- A note that stores nothing leaves what is stored. -/
theorem Memoized.note (hw : Memoized w) {o : Occurrence κ} (ho : Fits w.record o)
    (hs : ∀ h n x, .stored h n x ≠ o)
    (hstands : ∀ h n a, standing h n a (o :: w.record) = standing h n a w.record) :
    Memoized { w with record := o :: w.record } :=
  ⟨⟨ho, hw.chronicle⟩, (hw.mirrored.note hstands).stands, hw.tidy,
    fun h n y hy => hw.numbered h n y ((List.mem_cons.1 hy).resolve_left (hs h n y))⟩

theorem Memoized.resolving (hw : Memoized w) (hn : (w.entry h n).get? a = none) :
    Memoized { w with record := .resolving h n a :: w.record } :=
  hw.note ((hw.stands h n a).symm.trans hn) (fun _ _ _ => nofun) fun _ _ _ => rfl

theorem Memoized.failed (hw : Memoized w) (hpos : 0 < underWay h n a w.record) :
    Memoized { w with record := .failed h n a :: w.record } :=
  hw.note hpos (fun _ _ _ => nofun) fun _ _ _ => rfl

/-- Giving what is stored. -/
theorem Memoized.gave (hw : Memoized w) (hx : (w.entry h n).get? x.aspect = some x) :
    Memoized { w with record := .gave h n x :: w.record } ∧
      Retains w { w with record := .gave h n x :: w.record } := by
  refine ⟨hw.note ((hw.stands h n _).symm.trans hx) (fun _ _ _ => nofun) fun _ _ _ => rfl, ?_,
    fun _ => Nat.le_refl _, fun a i _ hi h' n' y hy => hi h' n' y (by simpa using hy)⟩
  intro h' n' a
  rw [underWay_cons]
  simp [Occurrence.opens]

/-- Storing something new, at the end of a resolution. -/
theorem Memoized.store (hw : Memoized w) (hpos : 0 < underWay h n x.aspect w.record)
    (hnew : Unseen x.aspect x.number w.record) (hlt : x.number < w.next x.aspect)
    {f : Entry → Entry} (hf : ∀ e a, (f e).get? a = if a = x.aspect then some x else e.get? a) :
    Memoized { w.setCache h ((w.cache h).insert n (f (w.entry h n))) with
      record := .stored h n x :: w.record } where
  chronicle := ⟨⟨hpos, hnew⟩, hw.chronicle⟩
  stands := (hw.mirrored.store h n x hf).stands
  tidy := (hw.mirrored.store h n x hf).tidy
  numbered h' n' y hy := by
    rcases List.mem_cons.1 hy with he | hy
    · cases he
      exact hlt
    · exact hw.numbered h' n' y hy

/-- A resolution that has stored what it made is over. -/
theorem Retains.stored (hr : Retains { w with record := .resolving h n x.aspect :: w.record } w')
    (hnew : w.next x.aspect ≤ x.number) (hrecord : w''.record = .stored h n x :: w'.record)
    (hnext : ∀ a, w'.next a ≤ w''.next a) : Retains w w'' where
  underWay h' n' a := by
    have hu := hr.underWay h' n' a
    rw [underWay_cons] at hu
    rw [hrecord, underWay_cons, hu]
    simp only [Occurrence.opens]
    split <;> omega
  next a := Nat.le_trans (hr.next a) (hnext a)
  unseen a i hi hu h' n' y hy ha := by
    rw [hrecord] at hy
    rcases List.mem_cons.1 hy with he | hy
    · cases he
      subst ha
      omega
    · exact hr.unseen a i hi (fun h n z hz => hu h n z (by simpa using hz)) h' n' y hy ha

/-- A resolution that has failed is over. -/
theorem Retains.failed (hr : Retains { w with record := .resolving h n a :: w.record } w') :
    Retains w { w' with record := .failed h n a :: w'.record } where
  underWay h' n' a' := by
    have hu := hr.underWay h' n' a'
    rw [underWay_cons] at hu
    rw [underWay_cons, hu]
    simp only [Occurrence.opens]
    split <;> omega
  next a' := hr.next a'
  unseen a' i hi hu h' n' y hy :=
    hr.unseen a' i hi (fun h n z hz => hu h n z (by simpa using hz)) h' n' y (by simpa using hy)

/-- A resolution that has begun is under way until it stores something or fails. -/
theorem underWay_pos (hw : Memoized w)
    (hr : Retains { w with record := .resolving h n a :: w.record } w') :
    0 < underWay h n a w'.record := by
  have hu := hr.underWay h n a
  have h0 := hw.chronicle.underWay_nonneg (h := h) (n := n) (a := a)
  have h1 : (Occurrence.resolving h n a : Occurrence κ).opens h n a = 1 := by
    simp [Occurrence.opens]
  rw [underWay_cons, h1] at hu
  omega

/-- The end of a resolution: what it made is stored and given. -/
theorem Memoized.finish (hw : Memoized w) (hw' : Memoized w')
    (hr : Retains { w with record := .resolving h n x.aspect :: w.record } w')
    (hge : w.next x.aspect ≤ x.number) (hlt : x.number < w'.next x.aspect)
    (hnew : Unseen x.aspect x.number w'.record) {f : Entry → Entry}
    (hf : ∀ e a, (f e).get? a = if a = x.aspect then some x else e.get? a) :
    let v : World κ := { w'.setCache h ((w'.cache h).insert n (f (w'.entry h n))) with
      record := .gave h n x :: .stored h n x :: w'.record }
    Memoized v ∧ Retains w v := by
  have hstore := hw'.store (underWay_pos hw hr) hnew hlt hf
  have hretains : Retains w { w'.setCache h ((w'.cache h).insert n (f (w'.entry h n))) with
      record := .stored h n x :: w'.record } :=
    hr.stored hge rfl fun a => by cases a <;> exact Nat.le_refl _
  obtain ⟨hgave, hgiven⟩ := hstore.gave (h := h) (n := n) (x := x) (by
    rw [hstore.stands]
    simp [standing])
  exact ⟨hgave, hretains.trans hgiven⟩

end

namespace Setting

variable {host : HostId → Host} {user : Callbacks (Act κ)} (hu : memo.KeptBy user)
include hu

theorem memo_instantiate (cls : Class) (capability : Capability) :
    memo.Kept (instantiate ⟨host, user⟩ cls capability) :=
  (memo_numbering.instantiate hu cls capability).kept

theorem memo_modelWithSources (id : ComponentId) (c : Component) :
    memo.Kept (modelWithSources ⟨host, user⟩ id c) := by
  intro w hw
  unfold modelWithSources
  rw [Act.wp_bind, Act.wp_nodeOf]
  split
  · simp
  rw [Act.wp_bind, Act.wp_entryOf]
  split
  · simp
  generalize (w.current id c).node.id = n
  cases hm : (w.entry c.host n).model with
  | some m =>
    exact hw.gave (x := .model m) (by simp [hm, Resolved.aspect])
  | none =>
    have hbegin := hw.resolving (h := c.host) (n := n) (a := .model) (by simp [hm])
    dsimp only
    rw [Act.wp_bind, Act.wp_record]
    refine (memo_numbering.resolveModel hu c _ hbegin).bind
      fun ⟨model, paths⟩ w₂ ⟨⟨hw₂, hr⟩, hmade⟩ => ?_
    cases model with
    | error e => exact ⟨hw₂.failed (underWay_pos hw hr), hr.failed⟩
    | ok m =>
      obtain ⟨hge, hlt, hunseen⟩ := hmade m rfl
      rw [Act.wp_bind, Act.wp_updateEntry]
      split
      · simp
      exact hw.finish (x := .model m) hw₂ hr hge hlt hunseen (Entry.get?_withModel m paths)

omit hu in
/-- Giving up brings the resolution of the views to an end. -/
theorem memo_views_fail (c : Component) (n : NodeId) (e : Error) {w w' : World κ} (hw : Memoized w)
    (hw' : Memoized w')
    (hr : Retains { w with record := .resolving c.host n .views :: w.record } w') :
    (views.fail (κ := κ) c n e).Wp (· ≠ none) (fun _ v => Memoized v ∧ Retains w v) w' :=
  ⟨hw'.failed (underWay_pos hw hr), hr.failed⟩

/-- Storing the views brings their resolution to an end. -/
theorem memo_views_resolve (c : Component) (n : NodeId) (model : Option Model)
    (paths : List String) {w w' : World κ} (hw : Memoized w) (hw' : Memoized w')
    (hr : Retains { w with record := .resolving c.host n .views :: w.record } w') :
    (views.resolve ⟨host, user⟩ c n model paths).Wp (· ≠ none)
      (fun _ v => Memoized v ∧ Retains w v) w' := by
  refine (memo_calming.tended.resolveViews hu (fun cls => memo_instantiate hu cls .view) c.host
    model _ w' hw').bind fun ⟨resolved, more⟩ w₁ ⟨hw₁, hr'⟩ => ?_
  have hr₁ := hr.trans hr'
  cases resolved with
  | error e => exact memo_views_fail c n e hw hw₁ hr₁
  | ok list =>
    dsimp only
    rw [Act.wp_bind, Act.wp_freshList]
    obtain ⟨hw₂, hr''⟩ := hw₁.calm (.listed w₁)
    have hr₂ := hr₁.trans hr''
    rw [Act.wp_bind, Act.wp_updateEntry]
    split
    · simp
    have hunseen : Unseen .views w₁.nextList w₁.record := fun h n x hx ha => by
      have hlt := hw₁.numbered h n x hx
      rw [ha] at hlt
      exact Nat.ne_of_lt hlt
    exact hw.finish (x := .views ⟨w₁.nextList, list⟩) hw₂ hr₂ (hr₁.next .views)
      (Nat.lt_succ_self _) hunseen (Entry.get?_withViews _ (paths ++ more))

theorem memo_views (id : ComponentId) (c : Component) :
    memo.Kept (views ⟨host, user⟩ id c) := by
  intro w hw
  rw [views_eq]
  rw [Act.wp_bind, Act.wp_nodeOf]
  split
  · simp
  rw [Act.wp_bind, Act.wp_entryOf]
  split
  · simp
  generalize (w.current id c).node.id = n
  cases hl : (w.entry c.host n).views with
  | some l =>
    exact hw.gave (x := .views l) (by simp [hl, Resolved.aspect])
  | none =>
    have hbegin := hw.resolving (h := c.host) (n := n) (a := .views) (by simp [hl])
    dsimp only
    rw [Act.wp_bind, Act.wp_record]
    refine (memo_modelWithSources hu id c _ hbegin).bind fun ⟨model, paths⟩ w' ⟨hw', hr⟩ => ?_
    cases model with
    | ok m => exact memo_views_resolve hu c n (some m) paths hw hw' hr
    | error e =>
      dsimp only
      rw [Act.wp_ite]
      split
      · exact memo_views_resolve hu c n none paths hw hw' hr
      · exact memo_views_fail c n e hw hw' hr

end Setting

/-- Every operation keeps the contract. -/
theorem memo_sound (host : HostId → Host) : memo.Sound (κ := κ) host fun _ => True :=
  memo_calming.sound ⟨Setting.memo_instantiate, Setting.memo_modelWithSources, Setting.memo_views⟩

theorem memoized_start (targets : Dict TargetId EventTarget) (memory : κ.Memory) :
    Memoized (World.start targets memory) where
  chronicle := trivial
  stands h n a := by cases a <;> rfl
  tidy _ := Dict.Sorted.empty
  numbered _ _ _ hx := by cases hx

/-- Every world that a run of an application comes to has a chronicle for a record. -/
theorem memoized_of_reaches {app : Application κ} {prog : Program κ α}
    {targets : Dict TargetId EventTarget} {memory : κ.Memory} {v : World κ}
    (hv : app.Reaches prog (World.start targets memory) v) : Memoized v :=
  Contract.inv_of_reaches (C := memo) (memo_sound app.host) (fun h => h rfl)
    (Callbacks.uses_of_forall (fun _ => trivial) app.code)
    (Program.uses_of_forall (fun _ => trivial) prog) (memoized_start targets memory) hv

end LayeredViews
