import LayeredViews.Proofs.Wp

/-!
# The entries of a host

`Dict.Sorted`: the keys are in increasing order, as insertion keeps them. Then every value is found
by a look-up (`Dict.Sorted.exists_get?`), and a look-up agrees with a filter (`Dict.get?_filter`),
so dropping entries leaves the others as they are:

* `World.entry_setCache_insert`, `World.entry_discarded`: what is stored for a node after a store
  and after a drop.
* `World.mem_reload`, `World.mem_keys_discarded`: a drop gives the nodes with a selected entry, and
  leaves the others theirs.
* `World.Tidy`: the entries of all hosts are sorted.
-/

namespace LayeredViews

namespace Dict

section Keys

variable {κ ν : Type}

/-- The keys are in increasing order. -/
def Sorted [LT κ] (d : Dict κ ν) : Prop := d.entries.Pairwise fun a b => a.1 < b.1

theorem Sorted.empty [LT κ] : (∅ : Dict κ ν).Sorted := List.Pairwise.nil

theorem Sorted.filter [LT κ] {d : Dict κ ν} (h : d.Sorted) (p : κ → ν → Bool) :
    (d.filter p).Sorted := List.Pairwise.filter _ h

variable [DecidableEq κ]

theorem Sorted.erase [LT κ] {d : Dict κ ν} (h : d.Sorted) (k : κ) : (d.erase k).Sorted :=
  List.Pairwise.filter _ h

theorem mem_keys {d : Dict κ ν} {k : κ} : k ∈ d.keys ↔ ∃ v, d.get? k = some v := by
  obtain ⟨l⟩ := d
  simp only [keys, get?]
  induction l with
  | nil => simp [lookup]
  | cons q rest ih =>
    obtain ⟨a, x⟩ := q
    by_cases hk : k = a
    · simp [lookup, hk]
    · simp [lookup, hk, ih]

theorem mem_of_lookup {k : κ} {v : ν} {l : List (κ × ν)} (h : lookup k l = some v) :
    (k, v) ∈ l := by
  induction l with
  | nil => cases h
  | cons p rest ih =>
    obtain ⟨a, x⟩ := p
    rw [lookup] at h
    split at h
    · next he =>
      obtain rfl := Option.some.inj h
      exact he ▸ List.mem_cons_self
    · exact List.mem_cons_of_mem _ (ih h)

/-- What is stored for a key is a value. -/
theorem mem_values_of_get? {d : Dict κ ν} {k : κ} {v : ν} (h : d.get? k = some v) :
    v ∈ d.values := List.mem_map.2 ⟨_, mem_of_lookup h, rfl⟩

variable [LT κ] [DecidableLT κ]

theorem mem_place {k k' : κ} {v v' : ν} {l : List (κ × ν)} (h : (k', v') ∈ place k v l) :
    k' = k ∨ (k', v') ∈ l := by
  induction l with
  | nil => simp_all [place]
  | cons p rest ih =>
    obtain ⟨a, x⟩ := p
    unfold place at h
    split at h
    · rcases List.mem_cons.1 h with h | h
      · exact .inl (by simp_all)
      · exact .inr (List.mem_cons_of_mem _ h)
    · split at h
      · rcases List.mem_cons.1 h with h | h
        · exact .inl (by simp_all)
        · exact .inr h
      · rcases List.mem_cons.1 h with h | h
        · exact .inr (h ▸ List.mem_cons_self)
        · exact (ih h).imp_right (List.mem_cons_of_mem _)

/-- Storing twice for one key is storing once. -/
theorem insert_insert (d : Dict κ ν) (k : κ) (x y : ν) :
    (d.insert k x).insert k y = d.insert k y := by
  obtain ⟨l⟩ := d
  simp only [insert, Dict.mk.injEq]
  induction l with
  | nil => simp [place]
  | cons p rest ih =>
    obtain ⟨a, z⟩ := p
    by_cases h : k = a
    · simp [place, h]
    · by_cases hlt : k < a <;> simp [place, h, hlt, ih]

theorem Sorted.insert [Std.Trichotomous fun a b : κ => a < b]
    [Trans (fun a b : κ => a < b) (fun a b : κ => a < b) (fun a b : κ => a < b)]
    {d : Dict κ ν} (h : d.Sorted) (k : κ) (v : ν) : (d.insert k v).Sorted := by
  obtain ⟨l⟩ := d
  unfold Sorted at h ⊢
  simp only [Dict.insert] at h ⊢
  induction l with
  | nil => simp [place]
  | cons p rest ih =>
    obtain ⟨a, x⟩ := p
    obtain ⟨hfirst, hrest⟩ := List.pairwise_cons.1 h
    unfold place
    split
    · next he =>
      subst he
      exact List.pairwise_cons.2 ⟨hfirst, hrest⟩
    · next hne =>
      split
      · next hlt =>
        refine List.pairwise_cons.2 ⟨fun q hq => ?_, h⟩
        rcases List.mem_cons.1 hq with rfl | hq
        · exact hlt
        · exact Trans.trans hlt (hfirst q hq)
      · next hge =>
        refine List.pairwise_cons.2 ⟨fun q hq => ?_, ih hrest⟩
        obtain ⟨b, y⟩ := q
        rcases mem_place hq with rfl | hq
        · rcases Std.lt_trichotomy a b with hlt | rfl | hgt
          · exact hlt
          · exact absurd rfl hne
          · exact absurd hgt hge
        · exact hfirst _ hq

omit [DecidableLT κ] in
theorem lookup_eq_none [Std.Irrefl fun a b : κ => a < b] {k : κ} {l : List (κ × ν)}
    (h : ∀ q ∈ l, k < q.1) : lookup k l = none := by
  induction l with
  | nil => rfl
  | cons p rest ih =>
    obtain ⟨a, x⟩ := p
    have hk : k < a := h _ List.mem_cons_self
    have hne : k ≠ a := fun he => Std.Irrefl.irrefl (r := fun a b : κ => a < b) a (he ▸ hk)
    rw [lookup, if_neg hne]
    exact ih fun q hq => h q (List.mem_cons_of_mem _ hq)

omit [DecidableLT κ] in
/-- Every value is stored for some key, as there is one pair for each. -/
theorem Sorted.exists_get? [Std.Irrefl fun a b : κ => a < b] {d : Dict κ ν} (h : d.Sorted) {v : ν}
    (hv : v ∈ d.values) : ∃ k, d.get? k = some v := by
  obtain ⟨l⟩ := d
  unfold Sorted at h
  simp only [values, get?] at h hv ⊢
  induction l with
  | nil => cases hv
  | cons p rest ih =>
    obtain ⟨a, x⟩ := p
    obtain ⟨hfirst, hrest⟩ := List.pairwise_cons.1 h
    rcases List.mem_cons.1 hv with rfl | hv
    · exact ⟨a, by simp [lookup]⟩
    · obtain ⟨k, hk⟩ := ih hrest hv
      have hlt : a < k := hfirst _ (mem_of_lookup hk)
      have hne : k ≠ a := fun he => Std.Irrefl.irrefl (r := fun a b : κ => a < b) a (he ▸ hlt)
      exact ⟨k, by rw [lookup, if_neg hne, hk]⟩

end Keys

variable {ν : Type}

/-- Storing what is stored changes nothing. -/
theorem insert_self {d : Dict Nat ν} (h : d.Sorted) {k : Nat} {v : ν} (hv : d.get? k = some v) :
    d.insert k v = d := by
  obtain ⟨l⟩ := d
  unfold Sorted at h
  simp only [insert, get?, Dict.mk.injEq] at h hv ⊢
  induction l with
  | nil => simp [lookup] at hv
  | cons q rest ih =>
    obtain ⟨a, x⟩ := q
    obtain ⟨hfirst, hrest⟩ := List.pairwise_cons.1 h
    rw [lookup] at hv
    rw [place]
    split at hv
    · next he =>
      obtain rfl := Option.some.inj hv
      simp [he]
    · next hne =>
      have hlt : ¬k < a := fun hlt => by
        rw [lookup_eq_none fun q hq => Nat.lt_trans hlt (hfirst q hq)] at hv
        cases hv
      rw [if_neg hne, if_neg hlt, ih hrest hv]

/-- A look-up finds what is stored, if that is kept. -/
theorem get?_filter {d : Dict Nat ν} (h : d.Sorted) (p : Nat → ν → Bool) (k : Nat) :
    (d.filter p).get? k = (d.get? k).filter (p k) := by
  obtain ⟨l⟩ := d
  unfold Sorted at h
  simp only [filter, get?] at h ⊢
  induction l with
  | nil => rfl
  | cons q rest ih =>
    obtain ⟨a, x⟩ := q
    obtain ⟨hfirst, hrest⟩ := List.pairwise_cons.1 h
    rw [lookup, List.filter_cons]
    by_cases hk : k = a
    · subst hk
      have hnone : lookup k (rest.filter fun e => p e.1 e.2) = none :=
        lookup_eq_none fun q hq => hfirst q (List.mem_filter.1 hq).1
      by_cases hp : p k x = true
      · simp [hp, lookup, Option.filter]
      · simp [hp, hnone, Option.filter]
    · by_cases hp : p a x = true
      · simp [hp, lookup, hk, ih hrest]
      · simp [hp, hk, ih hrest]

end Dict

namespace World

variable {κ : Client}

/-- The entries of every host are in the order of their nodes. -/
def Tidy (w : World κ) : Prop := ∀ h, (w.cache h).Sorted

theorem cache_setCache (w : World κ) (h h' : HostId) (c : Cache) :
    (w.setCache h c).cache h' = if h' = h then c else w.cache h' := by
  unfold cache setCache Dict.getD
  rw [Dict.get?_insert]
  split <;> rfl

theorem Tidy.setCache {w : World κ} (hw : w.Tidy) {h : HostId} {c : Cache} (hc : c.Sorted) :
    (w.setCache h c).Tidy := by
  intro h'
  rw [cache_setCache]
  split
  · exact hc
  · exact hw h'

theorem entry_setCache_insert (w : World κ) (h h' : HostId) (n n' : NodeId) (e : Entry) :
    (w.setCache h ((w.cache h).insert n e)).entry h' n' =
      if h' = h ∧ n' = n then e else w.entry h' n' := by
  unfold entry
  rw [cache_setCache]
  by_cases hh : h' = h
  · subst hh
    simp only [if_true, true_and, Dict.getD, Dict.get?_insert]
    split <;> rfl
  · simp [hh]

theorem Tidy.discarded {w : World κ} (hw : w.Tidy) (h : HostId) (selection : Cache.Selection)
    (cause : Cause) : (w.discarded h selection cause).Tidy :=
  hw.setCache ((hw h).filter _)

/-- A drop leaves what is not selected as it was. -/
theorem entry_discarded {w : World κ} (hw : w.Tidy) (h h' : HostId) (n : NodeId)
    (selection : Cache.Selection) (cause : Cause) :
    (w.discarded h selection cause).entry h' n =
      if h' = h ∧ selection.selects n (w.entry h n) = true then ∅ else w.entry h' n := by
  change ((w.setCache h ((w.cache h).reload selection).2).cache h').getD n ∅ = _
  rw [cache_setCache]
  by_cases hh : h' = h
  · subst hh
    simp only [if_true, true_and, Cache.reload, Dict.getD, entry]
    rw [Dict.get?_filter (hw h')]
    cases (w.cache h').get? n with
    | none => simp
    | some e =>
      by_cases hs : selection.selects n e = true
      · simp [hs, Option.filter]
      · simp [hs, Option.filter]
  · rw [if_neg hh, if_neg fun hc => hh hc.1]
    rfl

theorem entry_of_get? {w : World κ} {h : HostId} {n : NodeId} {e : Entry}
    (he : (w.cache h).get? n = some e) : w.entry h n = e := by
  rw [entry, Dict.getD, he, Option.getD_some]

/-- The nodes that still have an entry after a drop are those that are not selected. -/
theorem mem_keys_discarded {w : World κ} (hw : w.Tidy) {h h' : HostId} {n : NodeId}
    {selection : Cache.Selection} {cause : Cause} :
    n ∈ ((w.discarded h selection cause).cache h').keys ↔
      n ∈ (w.cache h').keys ∧ ¬(h = h' ∧ selection.selects n (w.entry h' n) = true) := by
  change n ∈ ((w.setCache h ((w.cache h).reload selection).2).cache h').keys ↔ _
  rw [cache_setCache]
  by_cases hh : h' = h
  · subst hh
    simp only [if_true, true_and, Cache.reload, Dict.mem_keys, Dict.get?_filter (hw h')]
    cases hget : (w.cache h').get? n with
    | none => simp
    | some e => simp [entry_of_get? hget, Option.filter]
  · rw [if_neg hh, and_iff_left fun hc => hh hc.1.symm]

/-- The nodes dropped are those with an entry that is selected. -/
theorem mem_reload {w : World κ} (hw : w.Tidy) {h : HostId} {n : NodeId}
    {selection : Cache.Selection} :
    n ∈ ((w.cache h).reload selection).1 ↔
      ∃ e, (w.cache h).get? n = some e ∧ selection.selects n e = true := by
  simp only [Cache.reload, Dict.mem_keys, Dict.get?_filter (hw h)]
  cases (w.cache h).get? n with
  | none => simp
  | some e => simp [Option.filter]

end World

end LayeredViews
