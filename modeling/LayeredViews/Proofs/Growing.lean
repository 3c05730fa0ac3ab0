import LayeredViews.Markup.Basic
import LayeredViews.Proofs.Entries
import Mathlib.Data.List.Induction

/-!
# Trees built step by step

A path says which child to go on with at each level, so paths in lexicographic order are the order
of the document.

* `Markup.follow`, `Markup.TextLeaves`: the node at the end of a path; the text leaves of a tree,
  each once, by increasing path.
* `Markup.textContent_eq_join`: the text of a tree is made of those leaves, in that order.
* `Markup.grown`: a tree with attributes set and children appended, as one step would do it.
  `Markup.grown_attr` and `Markup.grown_child` say how one more step shows in it.
* `Markup.building_loses_nothing`: what any run of building steps makes of a tree.
-/

namespace LayeredViews

namespace Markup

/-! ## Leaves in document order -/

/-- The node at the end of a path. -/
def follow : List Nat → Markup → Option Markup
  | [], m => some m
  | i :: path, m => m.children[i]?.bind (follow path)

mutual

/-- The text leaves, from left to right, each with its path. -/
def leaves : Markup → List (List Nat × String)
  | .text t => [([], t)]
  | .element _ _ children => leavesFrom 0 children
  | .fragment children => leavesFrom 0 children

/-- The text leaves of a list of trees that are the children from number `i` on. -/
def leavesFrom (i : Nat) : List Markup → List (List Nat × String)
  | [] => []
  | m :: rest => (leaves m).map (fun l => (i :: l.1, l.2)) ++ leavesFrom (i + 1) rest

end

/-- `l` lists the text leaves of `m`, each once, by increasing path. -/
structure TextLeaves (m : Markup) (l : List (List Nat × String)) : Prop where
  ordered : l.Pairwise fun a b => a.1 < b.1
  complete : ∀ path t, (path, t) ∈ l ↔ follow path m = some (.text t)

/-- A path into a list of trees, the first of them being child number `i`. -/
def followFrom (i : Nat) (ms : List Markup) : List Nat → Option Markup
  | [] => none
  | j :: path => if i ≤ j then ms[j - i]?.bind (follow path) else none

theorem follow_element (tag : String) (attrs : Attrs) (children : List Markup) (path : List Nat)
    (t : String) : follow path (element tag attrs children) = some (.text t) ↔
      followFrom 0 children path = some (.text t) := by
  cases path with
  | nil => simp [follow, followFrom]
  | cons i path => simp [follow, followFrom, Markup.children]

theorem follow_fragment (children : List Markup) (path : List Nat) (t : String) :
    follow path (fragment children) = some (.text t) ↔
      followFrom 0 children path = some (.text t) := by
  cases path with
  | nil => simp [follow, followFrom]
  | cons i path => simp [follow, followFrom, Markup.children]

/-- A path into a list goes on in the first tree or in one of the others. -/
theorem followFrom_cons (i : Nat) (m : Markup) (rest : List Markup) (path : List Nat)
    (t : String) : followFrom i (m :: rest) path = some (.text t) ↔
      (∃ path', path = i :: path' ∧ follow path' m = some (.text t)) ∨
        followFrom (i + 1) rest path = some (.text t) := by
  cases path with
  | nil => simp [followFrom]
  | cons j path =>
    rcases Nat.lt_trichotomy j i with hlt | rfl | hgt
    · simp [followFrom, show ¬i ≤ j by omega, show ¬i + 1 ≤ j by omega, show j ≠ i by omega]
    · simp [followFrom, show ¬j + 1 ≤ j by omega]
    · obtain ⟨d, rfl⟩ : ∃ d, j = i + 1 + d := ⟨j - (i + 1), by omega⟩
      simp [followFrom, show i + 1 + d - i = d + 1 by omega, show i + 1 + d ≠ i by omega,
        show i ≤ i + 1 + d by omega]

mutual

theorem mem_leaves {path : List Nat} {t : String} :
    ∀ {m : Markup}, (path, t) ∈ leaves m ↔ follow path m = some (.text t)
  | .text s => by
    cases path with
    | nil => simp [leaves, follow, eq_comm]
    | cons i path => simp [leaves, follow, Markup.children]
  | .element tag attrs children => by rw [leaves, mem_leavesFrom, follow_element]
  | .fragment children => by rw [leaves, mem_leavesFrom, follow_fragment]

theorem mem_leavesFrom {i : Nat} {path : List Nat} {t : String} :
    ∀ {ms : List Markup}, (path, t) ∈ leavesFrom i ms ↔ followFrom i ms path = some (.text t)
  | [] => by cases path <;> simp [leavesFrom, followFrom]
  | m :: rest => by
    rw [leavesFrom, List.mem_append, mem_leavesFrom, followFrom_cons, List.mem_map]
    refine or_congr_left ⟨?_, ?_⟩
    · rintro ⟨⟨path', t'⟩, hl, he⟩
      obtain ⟨rfl, rfl⟩ := Prod.mk.injEq .. ▸ he
      exact ⟨path', rfl, mem_leaves.1 hl⟩
    · rintro ⟨path', rfl, hl⟩
      exact ⟨(path', t), mem_leaves.2 hl, rfl⟩

end

/-- The leaves of later children have the greater paths. -/
theorem head_of_mem_leavesFrom {i : Nat} {ms : List Markup} {l : List Nat × String}
    (hl : l ∈ leavesFrom i ms) : ∃ j path, l.1 = j :: path ∧ i ≤ j := by
  obtain ⟨path, t⟩ := l
  have hfollow := mem_leavesFrom.1 hl
  cases path with
  | nil => cases hfollow
  | cons j path =>
    rw [followFrom] at hfollow
    split at hfollow
    · next hij => exact ⟨j, path, rfl, hij⟩
    · cases hfollow

mutual

theorem pairwise_leaves : ∀ m : Markup, (leaves m).Pairwise fun a b => a.1 < b.1
  | .text _ => List.pairwise_singleton ..
  | .element _ _ children => pairwise_leavesFrom 0 children
  | .fragment children => pairwise_leavesFrom 0 children

theorem pairwise_leavesFrom (i : Nat) :
    ∀ ms : List Markup, (leavesFrom i ms).Pairwise fun a b => a.1 < b.1
  | [] => List.Pairwise.nil
  | m :: rest => by
    refine List.pairwise_append.2 ⟨List.pairwise_map.2 ?_, pairwise_leavesFrom (i + 1) rest, ?_⟩
    · exact (pairwise_leaves m).imp fun h => List.cons_lt_cons_iff.2 (.inr ⟨rfl, h⟩)
    · intro a ha b hb
      obtain ⟨l, -, rfl⟩ := List.mem_map.1 ha
      obtain ⟨j, path, hpath, hj⟩ := head_of_mem_leavesFrom hb
      exact hpath ▸ List.cons_lt_cons_iff.2 (.inl hj)

end

theorem textLeaves_leaves (m : Markup) : m.TextLeaves m.leaves :=
  ⟨pairwise_leaves m, fun _ _ => mem_leaves⟩

mutual

theorem textContent_eq_join_leaves :
    ∀ m : Markup, m.textContent = String.join (m.leaves.map Prod.snd)
  | .text t => by simp [textContent, leaves]
  | .element _ _ children => textContents_eq_join_leaves 0 children
  | .fragment children => textContents_eq_join_leaves 0 children

theorem textContents_eq_join_leaves (i : Nat) :
    ∀ ms : List Markup, textContents ms = String.join ((leavesFrom i ms).map Prod.snd)
  | [] => rfl
  | m :: rest => by
    rw [textContents, textContent_eq_join_leaves m, textContents_eq_join_leaves (i + 1) rest,
      leavesFrom, List.map_append, String.join_append, List.map_map]
    rfl

end

/-- The text of a tree is made of its text leaves, in the order of the document. -/
theorem textContent_eq_join (m : Markup) :
    ∃ l, m.TextLeaves l ∧ m.textContent = String.join (l.map Prod.snd) :=
  ⟨m.leaves, textLeaves_leaves m, textContent_eq_join_leaves m⟩

/-- The texts of a list of trees, one after the other. -/
theorem textContents_eq_join (ms : List Markup) :
    textContents ms = String.join (ms.map textContent) := by
  induction ms with
  | nil => rfl
  | cons m rest ih => rw [textContents, ih, List.map_cons, String.join_cons]

/-! ## What the steps come to -/

/-- The attributes with a list of settings made one after the other. -/
def overlaid (attrs : Attrs) (settings : List (String × Json)) : Attrs :=
  settings.foldl (fun a s => a.insert s.1 s.2) attrs

theorem overlaid_append (attrs : Attrs) (settings : List (String × Json)) (key : String)
    (value : Json) :
    overlaid attrs (settings ++ [(key, value)]) = (overlaid attrs settings).insert key value := by
  simp [overlaid]

/-- The last setting of a key counts. -/
theorem get?_overlaid (attrs : Attrs) (settings : List (String × Json)) (key : String) :
    (overlaid attrs settings).get? key =
      (Dict.lookup key settings.reverse).or (attrs.get? key) := by
  induction settings using List.reverseRecOn with
  | nil => rfl
  | append_singleton settings s ih =>
    rw [overlaid_append, Dict.get?_insert, List.reverse_append]
    by_cases h : key = s.1 <;> simp [Dict.lookup, h, ih]

theorem sorted_overlaid {attrs : Attrs} (h : attrs.Sorted) (settings : List (String × Json)) :
    (overlaid attrs settings).Sorted := by
  induction settings using List.reverseRecOn with
  | nil => exact h
  | append_singleton settings s ih => exact overlaid_append attrs settings s.1 s.2 ▸ ih.insert ..

/-- The tree with attributes set and children appended: a text keeps to itself until there is a
first child. -/
def grown (m : Markup) (settings : List (String × Json)) (added : List Markup) : Markup :=
  match m with
  | .element tag attrs children => .element tag (overlaid attrs settings) (children ++ added)
  | .fragment children => .fragment (children ++ added)
  | .text t => if added = [] then .text t else .fragment (.text t :: added)

theorem grown_nil (m : Markup) : m.grown [] [] = m := by
  cases m <;> simp [grown, overlaid]

/-- One more attribute, wherever the children fall. -/
theorem grown_attr (m : Markup) (settings : List (String × Json)) (added : List Markup)
    (key : String) (value : Json) :
    (m.grown settings added).attr key value = m.grown (settings ++ [(key, value)]) added := by
  cases m with
  | text t => by_cases h : added = [] <;> simp [grown, attr, h]
  | element tag attrs children => simp [grown, attr, overlaid_append]
  | fragment children => rfl

/-- One more child; it is the first of them that turns a text into a fragment. -/
theorem grown_child (m : Markup) (settings : List (String × Json)) (added : List Markup)
    (c : Markup) :
    (m.grown settings added).child c = m.grown settings (added ++ [c]) := by
  cases m with
  | text t => by_cases h : added = [] <;> simp [grown, child, h]
  | element tag attrs children => simp [grown, child]
  | fragment children => simp [grown, child]

theorem tag?_grown (m : Markup) (settings : List (String × Json)) (added : List Markup) :
    (m.grown settings added).tag? = m.tag? := by
  cases m with
  | text t => by_cases h : added = [] <;> simp [grown, tag?, h]
  | element tag attrs children => rfl
  | fragment children => rfl

theorem textContents_append (ms ms' : List Markup) :
    textContents (ms ++ ms') = textContents ms ++ textContents ms' := by
  simp [textContents_eq_join]

theorem textContent_grown (m : Markup) (settings : List (String × Json)) (added : List Markup) :
    (m.grown settings added).textContent = m.textContent ++ textContents added := by
  cases m with
  | text t => by_cases h : added = [] <;> simp [grown, textContent, textContents, h]
  | element tag attrs children => exact textContents_append children added
  | fragment children => exact textContents_append children added

namespace Edit

/-- The steps that set an attribute or append a child. -/
def Builds : Edit → Prop
  | attr _ _ | child _ | childOpt _ => True
  | _ => False

/-- The attribute that a step sets. -/
def setting : Edit → List (String × Json)
  | attr key value => [(key, value)]
  | _ => []

/-- The child that a step appends. -/
def added : Edit → List Markup
  | child c => [c]
  | childOpt c => c.toList
  | _ => []

/-- A building step after others. -/
theorem apply_grown {e : Edit} (he : e.Builds) (m : Markup) (settings : List (String × Json))
    (children : List Markup) :
    e.apply (m.grown settings children) =
      some (m.grown (settings ++ e.setting) (children ++ e.added)) := by
  cases e with
  | attr key value => simp [apply, setting, added, grown_attr]
  | child c => simp [apply, setting, added, grown_child]
  | childOpt c => cases c <;> simp [apply, setting, added, Markup.childOpt, grown_child]
  | _ => cases he

/-- A run of building steps after others. -/
theorem foldlM_apply_grown {edits : List Edit} (h : ∀ e ∈ edits, e.Builds) (m : Markup)
    (settings : List (String × Json)) (children : List Markup) :
    edits.foldlM apply (m.grown settings children) =
      some (m.grown (settings ++ edits.flatMap setting) (children ++ edits.flatMap added)) := by
  induction edits generalizing settings children with
  | nil => simp
  | cons e edits ih =>
    obtain ⟨he, hrest⟩ := List.forall_mem_cons.1 h
    rw [List.foldlM_cons, apply_grown he]
    exact (ih hrest _ _).trans (by simp)

theorem foldlM_apply {edits : List Edit} (h : ∀ e ∈ edits, e.Builds) (m : Markup) :
    edits.foldlM apply m =
      some (m.grown (edits.flatMap setting) (edits.flatMap added)) := by
  simpa [grown_nil] using foldlM_apply_grown h m [] []

end Edit

/-- **Building loses nothing.** Attributes set and children appended to a tree, in any number and
order: the tree keeps its tag and its text, the texts of the appended children follow it, and the
text of any tree is made of its leaves in the order of the document. An element keeps its children
and its other attributes, and the last setting of a key counts; a fragment has no attributes and
keeps its children; a text stays as it is, or is the first child of a fragment. -/
theorem building_loses_nothing (m : Markup) {edits : List Edit} (hedits : ∀ e ∈ edits, e.Builds) :
    (∀ tree : Markup,
      ∃ l, tree.TextLeaves l ∧ tree.textContent = String.join (l.map Prod.snd)) ∧
    ∃ r, edits.foldlM Edit.apply m = some r ∧ r.tag? = m.tag? ∧
      r.textContent =
        m.textContent ++ String.join ((edits.flatMap Edit.added).map textContent) ∧
      match m with
      | .element tag attrs children =>
        ∃ attrs' : Attrs, r = .element tag attrs' (children ++ edits.flatMap Edit.added) ∧
          (attrs.Sorted → attrs'.Sorted) ∧
          ∀ key, attrs'.get? key =
            (Dict.lookup key (edits.flatMap Edit.setting).reverse).or (attrs.get? key)
      | .fragment children => r = .fragment (children ++ edits.flatMap Edit.added)
      | .text t =>
        r = if edits.flatMap Edit.added = [] then .text t
          else .fragment (.text t :: edits.flatMap Edit.added) := by
  refine ⟨textContent_eq_join, _, Edit.foldlM_apply hedits m, tag?_grown .., ?_, ?_⟩
  · rw [textContent_grown, textContents_eq_join]
  · cases m with
    | element tag attrs children =>
      exact ⟨_, rfl, fun h => sorted_overlaid h _, get?_overlaid attrs _⟩
    | fragment children => rfl
    | text t => rfl

/-- A text with attributes set before and after it becomes a fragment. -/
theorem building_loses_nothing_greeting :
    ∃ r, [Edit.attr "id" .null, .childOpt none, .child (.element "b" ∅ [.text "you"]),
        .attr "id" .null, .childOpt (some (.text "!"))].foldlM Edit.apply (.text "hello ") =
          some r ∧
      r.textContent = "hello you!" ∧
      r = .fragment [.text "hello ", .element "b" ∅ [.text "you"], .text "!"] := by
  have hedits : ∀ e ∈ [Edit.attr "id" .null, .childOpt none,
      .child (.element "b" ∅ [.text "you"]), .attr "id" .null, .childOpt (some (.text "!"))],
      e.Builds := by simp [Edit.Builds]
  obtain ⟨-, r, hr, -, htext, hform⟩ := building_loses_nothing (.text "hello ") hedits
  exact ⟨r, hr, htext.trans (by decide +kernel), hform.trans (by decide +kernel)⟩

end Markup

end LayeredViews
