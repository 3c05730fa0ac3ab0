import LayeredViews.Markup.Format
import LayeredViews.Pipe

/-!
# Writing markup and reading it back

* `Markup.ofJsonAt_toJson`: what is written is read as it was, at the top and below another node.
* `Markup.canonical_toJson`, `Json.Canonical.exists_toJson`: the canonical values are those that
  writing produces.
* `Markup.one_canonical_form`: a tree survives the pipe, and of the values that stand for it one is
  canonical: the one that it is written as.
-/

namespace LayeredViews

namespace Markup

/-! ## What is written is read -/

theorem toJsons_ne_nil {ms : List Markup} (h : ms ≠ []) : toJsons ms ≠ [] := by
  cases ms with
  | nil => exact absurd rfl h
  | cons m rest => exact List.cons_ne_nil _ _

/-- The fields that an element is written with. -/
theorem toJson_element (tag : String) (attrs : Attrs) (children : List Markup) :
    (element tag attrs children).toJson =
      .obj ⟨(if attrs.isEmpty then [] else [("attrs", .obj attrs)]) ++
        (if children = [] then [] else [("children", .arr (toJsons children))]) ++
        [("tag", .str tag), ("type", .str "element")]⟩ := by
  cases children with
  | nil => rfl
  | cons c rest => rfl

theorem isEmpty_eq_true_iff {attrs : Attrs} : attrs.isEmpty = true ↔ attrs = ∅ := by
  obtain ⟨entries⟩ := attrs
  exact List.isEmpty_iff.trans ⟨congrArg Dict.mk, congrArg Dict.entries⟩

mutual

/-- The tree that a tree is written as stands for it. -/
theorem ofJsonAt_toJson (below : Bool) : ∀ m : Markup, ofJsonAt below m.toJson = some m
  | .text t => by simp [toJson, ofJsonAt, Dict.lookup, Kind.ofJson?, Kind.ofName?, textField]
  | .fragment children => by
    have hchildren := ofJsons?_toJsons children
    simp [toJson, ofJsonAt, Dict.lookup, Kind.ofJson?, Kind.ofName?, childrenField, hchildren]
  | .element tag attrs children => by
    have hchildren := ofJsons?_toJsons children
    have hempty : attrs.isEmpty = true → ∅ = attrs := fun h => (isEmpty_eq_true_iff.1 h).symm
    rw [toJson_element]
    -- fields are left out where they are empty, and are read as empty where they are missing
    by_cases ha : attrs.isEmpty = true <;> by_cases hc : children = [] <;>
      simp [ha, hc, hempty, hchildren, ofJsonAt, Dict.lookup, Kind.ofJson?, Kind.ofName?, textField,
        attrsField, childrenField]

theorem ofJsons?_toJsons : ∀ ms : List Markup, ofJsons? (toJsons ms) = some ms
  | [] => rfl
  | m :: rest => by
    rw [toJsons, ofJsons?, ofJsonAt_toJson true m, ofJsons?_toJsons rest]

end

theorem ofJson?_toJson (m : Markup) : ofJson? m.toJson = some m := ofJsonAt_toJson false m

/-! ## Canonical values -/

mutual

/-- What is written is canonical. -/
theorem canonical_toJson : ∀ m : Markup, m.toJson.Canonical
  | .text t => .text t
  | .fragment children => .fragment _ (canonical_toJsons children)
  | .element tag attrs children => by
    have hchildren := canonical_toJsons children
    rw [toJson_element]
    by_cases ha : attrs.isEmpty = true <;> by_cases hc : children = []
    · simpa [ha, hc] using Json.Canonical.leaf tag
    · simpa [ha, hc] using Json.Canonical.children _ tag (toJsons_ne_nil hc) hchildren
    · simpa [ha, hc] using Json.Canonical.attrs attrs tag (by simpa using ha)
    · simpa [ha, hc] using
        Json.Canonical.element attrs _ tag (by simpa using ha) (toJsons_ne_nil hc) hchildren

theorem canonical_toJsons : ∀ ms : List Markup, ∀ j ∈ toJsons ms, j.Canonical
  | [], _, hj => by cases hj
  | m :: rest, j, hj => by
    rcases List.mem_cons.1 hj with rfl | hj
    · exact canonical_toJson m
    · exact canonical_toJsons rest j hj

end

/-- Values that trees are written as, one by one. -/
theorem exists_toJsons {items : List Json} (h : ∀ j ∈ items, ∃ m : Markup, m.toJson = j) :
    ∃ ms, toJsons ms = items := by
  induction items with
  | nil => exact ⟨[], rfl⟩
  | cons j rest ih =>
    obtain ⟨m, hm⟩ := h j List.mem_cons_self
    obtain ⟨ms, hms⟩ := ih fun j' hj' => h j' (List.mem_cons_of_mem _ hj')
    exact ⟨m :: ms, by rw [toJsons, hm, hms]⟩

end Markup

open Markup

/-- Every canonical value is what some tree is written as. -/
theorem Json.Canonical.exists_toJson {j : Json} (h : j.Canonical) :
    ∃ m : Markup, m.toJson = j := by
  have nonempty : ∀ {ms : List Markup} {items : List Json}, toJsons ms = items → items ≠ [] →
      ms ≠ [] := by
    rintro _ _ rfl hne rfl
    exact hne rfl
  induction h with
  | text t => exact ⟨.text t, rfl⟩
  | leaf tag => exact ⟨tagged tag, rfl⟩
  | attrs attrs tag h => exact ⟨.element tag attrs [], by simp [toJson_element, h]⟩
  | children items tag h canonical ih =>
    obtain ⟨ms, hms⟩ := exists_toJsons ih
    refine ⟨.element tag ∅ ms, ?_⟩
    simp [toJson_element, isEmpty_eq_true_iff.2, nonempty hms h, hms]
  | element attrs items tag h h' canonical ih =>
    obtain ⟨ms, hms⟩ := exists_toJsons ih
    exact ⟨.element tag attrs ms, by simp [toJson_element, h, nonempty hms h', hms]⟩
  | fragment items canonical ih =>
    obtain ⟨ms, hms⟩ := exists_toJsons ih
    exact ⟨.fragment ms, by rw [toJson, hms]⟩

/-- Of the values that stand for a tree, the canonical one is the one that it is written as. -/
theorem Markup.toJson_eq_iff {j : Json} {m : Markup} (h : ofJson? j = some m) :
    m.toJson = j ↔ j.Canonical := by
  constructor
  · rintro rfl
    exact canonical_toJson m
  · intro hj
    obtain ⟨m', rfl⟩ := hj.exists_toJson
    obtain rfl : m' = m := Option.some.inj ((ofJson?_toJson m').symm.trans h)
    rfl

/-! ## The pipe -/

/-- A tree that is stored in a pipe is read back, and nothing else in the pipe changes. -/
theorem Pipe.getAs_insertAs (p : Pipe) (key : String) (m : Markup) :
    ∃ q, p.insertAs key m = some (p.get? key, q) ∧ q.getAs key = some m ∧
      ∀ other, other ≠ key → q.get? other = p.get? other := by
  refine ⟨⟨p.values.insert key m.toJson⟩, rfl, ?_, fun other hne => ?_⟩
  · unfold getAs get?
    rw [Dict.get?_insert_self]
    exact ofJson?_toJson m
  · exact Dict.get?_insert_of_ne _ _ hne

/-- **One canonical form.** What a tree is written as is read as the tree, also by way of a pipe,
which keeps everything else that it holds. A value may stand for a tree without being what the tree
is written as; it is exactly where it is canonical, in all its parts. -/
theorem Markup.one_canonical_form :
    (∀ m : Markup, ofJson? m.toJson = some m) ∧
    (∀ (p : Pipe) (key : String) (m : Markup), ∃ q, p.insertAs key m = some (p.get? key, q) ∧
      q.getAs key = some m ∧ ∀ other, other ≠ key → q.get? other = p.get? other) ∧
    ∀ (j : Json) (m : Markup), ofJson? j = some m →
      ofJson? m.toJson = some m ∧ (m.toJson = j ↔ j.Canonical) :=
  ⟨ofJson?_toJson, Pipe.getAs_insertAs, fun _ m h => ⟨ofJson?_toJson m, toJson_eq_iff h⟩⟩

namespace Spelling

/-- A paragraph around a text. -/
def paragraph : Markup := .element "p" ∅ [.text "a"]

/-- The paragraph as an array, and in it the text with a field too many. -/
def loose : Json :=
  .arr [.str "element", .str "p", .obj ∅,
    .arr [.obj ⟨[("id", .null), ("text", .str "a"), ("type", .str "text")]⟩]]

/-- The paragraph as it is written. -/
def strict : Json :=
  .obj ⟨[("children", .arr [.obj ⟨[("text", .str "a"), ("type", .str "text")]⟩]),
    ("tag", .str "p"), ("type", .str "element")]⟩

end Spelling

/-- Two values for one tree, one of them canonical. -/
theorem Markup.one_canonical_form_paragraph :
    ofJson? Spelling.loose = some Spelling.paragraph ∧
      ofJson? Spelling.strict = some Spelling.paragraph ∧
      ¬Spelling.loose.Canonical ∧ Spelling.strict.Canonical ∧
      ∃ q, (∅ : Pipe).insertAs "node" Spelling.paragraph = some (none, q) ∧
        q.getAs "node" = some Spelling.paragraph := by
  obtain ⟨-, hpipe, hforms⟩ := one_canonical_form
  have hloose : ofJson? Spelling.loose = some Spelling.paragraph := by decide +kernel
  have hstrict : ofJson? Spelling.strict = some Spelling.paragraph := by decide +kernel
  have hdiffers : Spelling.paragraph.toJson ≠ Spelling.loose := by decide +kernel
  obtain ⟨q, hq, hread, -⟩ := hpipe ∅ "node" Spelling.paragraph
  exact ⟨hloose, hstrict, fun hc => hdiffers ((hforms _ _ hloose).2.2 hc),
    (hforms _ _ hstrict).2.1 rfl, q, hq, hread⟩

end LayeredViews
