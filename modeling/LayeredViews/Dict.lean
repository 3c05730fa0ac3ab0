/-!
# Dictionaries

`Dict κ ν` is a finite map that can be listed in the order of its keys: JSON objects, node
attributes, the pipe, a host's cache and the methods of a type are all of this kind.

* `Dict.get?`, `Dict.insert`, `Dict.erase`: the three operations; `insert` puts a new key before
  the first greater one, so a dictionary built by insertion is in increasing order.
* `Dict.get?_insert`, `Dict.get?_erase`: what a look-up sees after each of them.
-/

namespace LayeredViews

/-- A finite map, kept as its list of pairs. -/
structure Dict (κ ν : Type) where
  entries : List (κ × ν) := []
  deriving DecidableEq

namespace Dict

variable {κ ν : Type}

instance : EmptyCollection (Dict κ ν) := ⟨⟨[]⟩⟩
instance : Inhabited (Dict κ ν) := ⟨∅⟩

/-- The keys, in order. -/
def keys (d : Dict κ ν) : List κ := d.entries.map Prod.fst

/-- The values, in the order of their keys. -/
def values (d : Dict κ ν) : List ν := d.entries.map Prod.snd

def size (d : Dict κ ν) : Nat := d.entries.length

def isEmpty (d : Dict κ ν) : Bool := d.entries.isEmpty

/-- The value of the first pair with key `k`. -/
def lookup [DecidableEq κ] (k : κ) : List (κ × ν) → Option ν
  | [] => none
  | (k', v) :: rest => if k = k' then some v else lookup k rest

/-- The value stored for `k`, if any. -/
def get? [DecidableEq κ] (d : Dict κ ν) (k : κ) : Option ν := lookup k d.entries

/-- The value stored for `k`, or `v` when there is none. -/
def getD [DecidableEq κ] (d : Dict κ ν) (k : κ) (v : ν) : ν := (d.get? k).getD v

def contains [DecidableEq κ] (d : Dict κ ν) (k : κ) : Bool := (d.get? k).isSome

/-- The pairs with `v` stored for `k`: in the place of the pair with that key, else before the
first pair with a greater one. -/
def place [DecidableEq κ] [LT κ] [DecidableLT κ] (k : κ) (v : ν) : List (κ × ν) → List (κ × ν)
  | [] => [(k, v)]
  | (k', v') :: rest =>
    if k = k' then (k, v) :: rest
    else if k < k' then (k, v) :: (k', v') :: rest
    else (k', v') :: place k v rest

/-- Stores `v` for `k`, replacing what was stored for it. -/
def insert [DecidableEq κ] [LT κ] [DecidableLT κ] (d : Dict κ ν) (k : κ) (v : ν) : Dict κ ν :=
  ⟨place k v d.entries⟩

/-- Removes what is stored for `k`. -/
def erase [DecidableEq κ] (d : Dict κ ν) (k : κ) : Dict κ ν :=
  ⟨d.entries.filter fun p => !decide (p.1 = k)⟩

/-- Keeps the pairs that satisfy `p`. -/
def filter (d : Dict κ ν) (p : κ → ν → Bool) : Dict κ ν :=
  ⟨d.entries.filter fun e => p e.1 e.2⟩

/-- The dictionary of a list of pairs; of several pairs with one key the last counts. -/
def ofList [DecidableEq κ] [LT κ] [DecidableLT κ] (pairs : List (κ × ν)) : Dict κ ν :=
  pairs.foldl (fun d p => d.insert p.1 p.2) ∅

section Lemmas

variable [DecidableEq κ]

theorem lookup_filter_ne (k k' : κ) (l : List (κ × ν)) :
    lookup k (l.filter fun p => !decide (p.1 = k')) = if k = k' then none else lookup k l := by
  induction l with
  | nil => simp [lookup]
  | cons p rest ih =>
    obtain ⟨a, v⟩ := p
    by_cases ha : a = k'
    · subst ha
      rw [List.filter_cons_of_neg (by simp), ih]
      by_cases hk : k = a <;> simp [lookup, hk]
    · by_cases hk : k = a
      · subst hk
        simp [lookup, ha]
      · simp [lookup, ha, hk, ih]

/-- A look-up after a removal. -/
theorem get?_erase (d : Dict κ ν) (k k' : κ) :
    (d.erase k').get? k = if k = k' then none else d.get? k :=
  lookup_filter_ne k k' d.entries

variable [LT κ] [DecidableLT κ]

theorem lookup_place (k k' : κ) (v : ν) (l : List (κ × ν)) :
    lookup k (place k' v l) = if k = k' then some v else lookup k l := by
  induction l with
  | nil => by_cases hk : k = k' <;> simp [place, lookup, hk]
  | cons p rest ih =>
    obtain ⟨a, w⟩ := p
    by_cases h : k' = a
    · subst h
      by_cases hk : k = k' <;> simp [place, lookup, hk]
    · by_cases hlt : k' < a
      · by_cases hk : k = k' <;> simp [place, lookup, h, hlt, hk]
      · by_cases hk : k = a
        · subst hk
          have : k ≠ k' := fun e => h e.symm
          simp [place, lookup, h, hlt, this]
        · simp [place, lookup, h, hlt, hk, ih]

/-- A look-up after an insertion. -/
theorem get?_insert (d : Dict κ ν) (k k' : κ) (v : ν) :
    (d.insert k' v).get? k = if k = k' then some v else d.get? k :=
  lookup_place k k' v d.entries

@[simp] theorem get?_insert_self (d : Dict κ ν) (k : κ) (v : ν) :
    (d.insert k v).get? k = some v := by simp [get?_insert]

theorem get?_insert_of_ne (d : Dict κ ν) {k k' : κ} (v : ν) (h : k ≠ k') :
    (d.insert k' v).get? k = d.get? k := by simp [get?_insert, h]

end Lemmas

end Dict

end LayeredViews
