import LayeredViews.World
import Mathlib.Algebra.Ring.Int.Defs

/-!
# What the record of a run says about resolutions

The record of a run tells, latest first, when a resolution for a node began, when it stored
something or failed, what was given for a node, and when entries were dropped.

* `standing`: what is stored for a node after what the record tells.
* `underWay`: how many resolutions for a node have begun and have not come to an end.
* `Chronicle`: the record of a run in which a resolution begins only where nothing is stored, what
  is stored is new, and what is given is stored.
* `Chronicle.gave_eq_iff`: when two answers for a node are one and the same.
-/

namespace LayeredViews

variable {κ : Client}

/-- The number that tells resolved things of one aspect apart. -/
def Resolved.number : Resolved → Nat
  | .model m => m.inst.id
  | .views l => l.id

/-- What is stored for a node after what has happened, latest first. -/
def standing (h : HostId) (n : NodeId) (a : Aspect) : List (Occurrence κ) → Option Resolved
  | [] => none
  | .stored h' n' x :: past =>
    if h' = h ∧ n' = n ∧ x.aspect = a then some x else standing h n a past
  | .dropped h' n' _ :: past => if h' = h ∧ n' = n then none else standing h n a past
  | _ :: past => standing h n a past

/-- One more for the beginning of a resolution, one less for its end. -/
def Occurrence.opens (h : HostId) (n : NodeId) (a : Aspect) : Occurrence κ → Int
  | .resolving h' n' a' => if h' = h ∧ n' = n ∧ a' = a then 1 else 0
  | .stored h' n' x => if h' = h ∧ n' = n ∧ x.aspect = a then -1 else 0
  | .failed h' n' a' => if h' = h ∧ n' = n ∧ a' = a then -1 else 0
  | _ => 0

/-- How many resolutions for a node are under way after what has happened. -/
def underWay (h : HostId) (n : NodeId) (a : Aspect) (past : List (Occurrence κ)) : Int :=
  (past.map (Occurrence.opens h n a)).sum

/-- Nothing of the aspect with the number was stored. -/
def Unseen (a : Aspect) (i : Nat) (past : List (Occurrence κ)) : Prop :=
  ∀ h n x, .stored h n x ∈ past → x.aspect = a → x.number ≠ i

/-- An occurrence fits what has happened before it. -/
def Fits (past : List (Occurrence κ)) : Occurrence κ → Prop
  | .resolving h n a => standing h n a past = none
  | .stored h n x => 0 < underWay h n x.aspect past ∧ Unseen x.aspect x.number past
  | .failed h n a => 0 < underWay h n a past
  | .gave h n x => standing h n x.aspect past = some x
  | _ => True

/-- Everything in the record fits what has happened before it. -/
def Chronicle : List (Occurrence κ) → Prop
  | [] => True
  | o :: past => Fits past o ∧ Chronicle past

section

variable {h : HostId} {n : NodeId} {a : Aspect} {past : List (Occurrence κ)}

@[simp] theorem underWay_cons (o : Occurrence κ) :
    underWay h n a (o :: past) = o.opens h n a + underWay h n a past := by
  simp [underWay]

/-- What stands was stored, and the entry was not dropped since. -/
theorem standing_split {x : Resolved} (hx : standing h n a past = some x) :
    x.aspect = a ∧ ∃ since before, past = since ++ .stored h n x :: before ∧
      ∀ cause, .dropped h n cause ∉ since := by
  induction past with
  | nil => simp [standing] at hx
  | cons o past ih =>
    have skip : standing h n a past = some x → (∀ cause, .dropped h n cause ≠ o) →
        x.aspect = a ∧ ∃ since before, o :: past = since ++ .stored h n x :: before ∧
          ∀ cause, .dropped h n cause ∉ since := fun hx ho => by
      obtain ⟨ha, since, before, rfl, hd⟩ := ih hx
      exact ⟨ha, o :: since, before, rfl, fun cause hm =>
        (List.mem_cons.1 hm).elim (ho cause) (hd cause)⟩
    cases o with
    | stored h' n' y =>
      rw [standing] at hx
      split at hx
      · next hc =>
        obtain ⟨rfl, rfl, ha⟩ := hc
        obtain rfl := Option.some.inj hx
        exact ⟨ha, [], past, rfl, fun _ => List.not_mem_nil⟩
      · exact skip hx fun _ => nofun
    | dropped h' n' cause =>
      rw [standing] at hx
      split at hx
      · cases hx
      · next hc => exact skip hx fun _ he => hc (by cases he; exact ⟨rfl, rfl⟩)
    | _ => exact skip hx fun _ => nofun

/-- What stands was stored. -/
theorem stored_of_standing {x : Resolved} (hx : standing h n a past = some x) :
    x.aspect = a ∧ .stored h n x ∈ past := by
  obtain ⟨ha, since, before, rfl, -⟩ := standing_split hx
  exact ⟨ha, List.mem_append_right _ List.mem_cons_self⟩

variable (a past) in
/-- Without a drop, what stands is what was stored last, if anything was. -/
theorem standing_append {b : List (Occurrence κ)} (hd : ∀ cause, .dropped h n cause ∉ b) :
    (standing h n a (b ++ past) = standing h n a past ∧
      ∀ y, y.aspect = a → .stored h n y ∉ b) ∨
    ∃ y, y.aspect = a ∧ .stored h n y ∈ b ∧ standing h n a (b ++ past) = some y := by
  induction b with
  | nil => exact .inl ⟨rfl, fun y _ => List.not_mem_nil⟩
  | cons o b ih =>
    have hd' : ∀ cause, .dropped h n cause ∉ b := fun cause hm =>
      hd cause (List.mem_cons_of_mem _ hm)
    have skip : standing h n a (o :: (b ++ past)) = standing h n a (b ++ past) →
        (∀ y, y.aspect = a → o ≠ .stored h n y) →
        (standing h n a (o :: b ++ past) = standing h n a past ∧
          ∀ y, y.aspect = a → .stored h n y ∉ o :: b) ∨
        ∃ y, y.aspect = a ∧ .stored h n y ∈ o :: b ∧
          standing h n a (o :: b ++ past) = some y := by
      intro hs ho
      rcases ih hd' with ⟨hb, hnone⟩ | ⟨y, hy, hm, hb⟩
      · refine .inl ⟨hs.trans hb, fun y hy hm => ?_⟩
        rcases List.mem_cons.1 hm with rfl | hm
        · exact ho y hy rfl
        · exact hnone y hy hm
      · exact .inr ⟨y, hy, List.mem_cons_of_mem _ hm, hs.trans hb⟩
    cases o with
    | stored h' n' x =>
      by_cases hc : h' = h ∧ n' = n ∧ x.aspect = a
      · obtain ⟨rfl, rfl, hx⟩ := hc
        exact .inr ⟨x, hx, List.mem_cons_self, by simp [standing, hx]⟩
      · refine skip (by simp [standing, hc]) fun y hy he => hc ?_
        cases he
        exact ⟨rfl, rfl, hy⟩
    | dropped h' n' cause =>
      have hc : ¬(h' = h ∧ n' = n) := fun hc =>
        hd cause (by rw [hc.1, hc.2]; exact List.mem_cons_self)
      exact skip (by simp [standing, hc]) fun y hy he => by cases he
    | _ => exact skip rfl fun y hy he => by cases he

theorem Chronicle.of_append {b : List (Occurrence κ)} (hc : Chronicle (b ++ past)) :
    Chronicle past := by
  induction b with
  | nil => exact hc
  | cons o b ih => exact ih hc.2

/-- No more resolutions come to an end than have begun. -/
theorem Chronicle.underWay_nonneg (hc : Chronicle past) : 0 ≤ underWay h n a past := by
  induction past with
  | nil => exact Int.le_refl _
  | cons o past ih =>
    have hpast := ih hc.2
    rw [underWay_cons]
    cases o with
    | resolving h' n' a' =>
      simp only [Occurrence.opens]
      split <;> omega
    | stored h' n' x =>
      simp only [Occurrence.opens]
      split
      · next he =>
        obtain ⟨rfl, rfl, rfl⟩ := he
        have hpos := hc.1.1
        omega
      · omega
    | failed h' n' a' =>
      simp only [Occurrence.opens]
      split
      · next he =>
        obtain ⟨rfl, rfl, rfl⟩ := he
        have hpos : 0 < underWay h' n' a' past := hc.1
        omega
      · omega
    | _ => simpa [Occurrence.opens] using hpast

/-- What was stored at a time is not among what was stored before. -/
theorem Chronicle.ne_of_stored {b : List (Occurrence κ)} (hc : Chronicle (b ++ past))
    {h' : HostId} {n' : NodeId} {x y : Resolved} (hx : .stored h' n' x ∈ past)
    (hy : .stored h n y ∈ b) (ha : x.aspect = y.aspect) : x.number ≠ y.number := by
  induction b with
  | nil => simp at hy
  | cons o b ih =>
    rcases List.mem_cons.1 hy with rfl | hy
    · exact hc.1.2 h' n' x (List.mem_append_right _ hx) ha
    · exact ih hc.2 hy

/-- While something stands, no resolution begins. -/
theorem Chronicle.underWay_le {b : List (Occurrence κ)} (hc : Chronicle (b ++ past))
    (hd : ∀ cause, .dropped h n cause ∉ b) (hs : standing h n a past ≠ none) :
    underWay h n a (b ++ past) ≤ underWay h n a past := by
  induction b with
  | nil => exact Int.le_refl _
  | cons o b ih =>
    have hd' : ∀ cause, .dropped h n cause ∉ b := fun cause hm =>
      hd cause (List.mem_cons_of_mem _ hm)
    have hstands : standing h n a (b ++ past) ≠ none := by
      rcases standing_append a past hd' with ⟨hb, -⟩ | ⟨y, -, -, hb⟩
      · rwa [hb]
      · simp [hb]
    have ho : o.opens h n a ≤ 0 := by
      cases o with
      | resolving h' n' a' =>
        by_cases he : h' = h ∧ n' = n ∧ a' = a
        · obtain ⟨rfl, rfl, rfl⟩ := he
          exact absurd hc.1 hstands
        · simp [Occurrence.opens, he]
      | stored h' n' x =>
        simp only [Occurrence.opens]
        split <;> omega
      | failed h' n' a' =>
        simp only [Occurrence.opens]
        split <;> omega
      | _ => exact Int.le_refl _
    have hb := ih hc.2 hd'
    rw [List.cons_append, underWay_cons]
    omega

end

/-- **When two answers are one and the same.** Between two answers of an aspect for a node whose
entry was not dropped meanwhile, they are the same if and only if nothing was stored in between. If
something was, a resolution was under way when the first answer was given. -/
theorem Chronicle.gave_eq_iff {a b c : List (Occurrence κ)} {h : HostId} {n : NodeId}
    {x y : Resolved} (hc : Chronicle (c ++ .gave h n y :: (b ++ .gave h n x :: a)))
    (ha : y.aspect = x.aspect) (hd : ∀ cause, .dropped h n cause ∉ b) :
    (x = y ↔ ∀ z, z.aspect = x.aspect → .stored h n z ∉ b) ∧
      ∀ z, z.aspect = x.aspect → .stored h n z ∈ b → 0 < underWay h n x.aspect a := by
  obtain ⟨hy, hb⟩ := hc.of_append
  have hx : standing h n x.aspect (.gave h n x :: a) = some x := hb.of_append.1
  have hy : standing h n x.aspect (b ++ .gave h n x :: a) = some y := ha ▸ hy
  refine ⟨?_, fun z hz hm => ?_⟩
  · rcases standing_append x.aspect (.gave h n x :: a) hd with
      ⟨hs, hnone⟩ | ⟨z, hz, hm, hs⟩
    · rw [hs, hx] at hy
      exact ⟨fun _ => hnone, fun _ => Option.some.inj hy⟩
    · rw [hs] at hy
      obtain rfl := Option.some.inj hy
      have hne : x.number ≠ z.number :=
        hb.ne_of_stored (stored_of_standing hx).2 hm hz.symm
      exact ⟨fun he => absurd (congrArg Resolved.number he) hne, fun hn => absurd hm (hn z hz)⟩
  · obtain ⟨b₁, b₂, rfl⟩ := List.append_of_mem hm
    have hb' : Chronicle (.stored h n z :: (b₂ ++ .gave h n x :: a)) := by
      refine Chronicle.of_append (b := b₁) ?_
      simpa using hb
    have hpos := hb'.1.1
    have hle := hb'.2.underWay_le (h := h) (n := n) (a := x.aspect)
      (fun cause hm => hd cause (by simp [hm])) (by simp [hx])
    rw [hz] at hpos
    rw [underWay_cons] at hle
    have h0 : (Occurrence.gave h n x : Occurrence κ).opens h n x.aspect = 0 := rfl
    omega

end LayeredViews
