import LayeredViews.Dict
/-!
# JSON values

* `Json`: a JSON value. Objects are dictionaries, so the order in which an object's fields were
  written is not part of the value.
* `Decimal`: a number with a fraction or an exponent, kept exactly. It is never equal to an
  integer, as the two are different kinds of JSON number.
* `Json.normal`: brings the fields of every object into order, the last of several with one key
  being kept; what a reader does after a text has been read.
-/

namespace LayeredViews

/-- The number `mantissa * 10 ^ exponent`. -/
structure Decimal where
  mantissa : Int
  exponent : Int
  deriving DecidableEq, Inhabited

/-- The least number that a floating-point number of 64 bits cannot hold: it and all greater ones
are rounded to infinity. -/
def Decimal.limit : Nat := Nat.pow 2 1024 - Nat.pow 2 970

/-- Whether a number is too great for a floating-point number of 64 bits. -/
def Decimal.tooGreat (d : Decimal) : Bool :=
  let m := d.mantissa.natAbs
  if m = 0 then false
  else if d.exponent > 400 then true
  else if 0 ≤ d.exponent then limit ≤ m * Nat.pow 10 d.exponent.toNat
  else limit ≤ m / Nat.pow 10 (min (-d.exponent).toNat (m.log2 + 1))

/-- A JSON value. -/
inductive Json where
  | null
  | bool (b : Bool)
  | int (i : Int)
  | decimal (d : Decimal)
  | str (s : String)
  | arr (items : List Json)
  | obj (fields : Dict String Json)

namespace Json

instance : Inhabited Json := ⟨.null⟩

mutual

/-- Equality of values is decided by walking both. -/
def decEq : (a b : Json) → Decidable (a = b)
  | .null, .null => isTrue rfl
  | .bool a, .bool b => if h : a = b then isTrue (by rw [h]) else isFalse (by simp [h])
  | .int a, .int b => if h : a = b then isTrue (by rw [h]) else isFalse (by simp [h])
  | .decimal a, .decimal b => if h : a = b then isTrue (by rw [h]) else isFalse (by simp [h])
  | .str a, .str b => if h : a = b then isTrue (by rw [h]) else isFalse (by simp [h])
  | .arr a, .arr b =>
    match decEqItems a b with
    | isTrue h => isTrue (by rw [h])
    | isFalse h => isFalse (by simp [h])
  | .obj ⟨a⟩, .obj ⟨b⟩ =>
    match decEqFields a b with
    | isTrue h => isTrue (by rw [h])
    | isFalse h => isFalse (by simp [h])
  | .null, .bool _ | .null, .int _ | .null, .decimal _ | .null, .str _ | .null, .arr _
  | .null, .obj _ | .bool _, .null | .bool _, .int _ | .bool _, .decimal _ | .bool _, .str _
  | .bool _, .arr _ | .bool _, .obj _ | .int _, .null | .int _, .bool _ | .int _, .decimal _
  | .int _, .str _ | .int _, .arr _ | .int _, .obj _ | .decimal _, .null | .decimal _, .bool _
  | .decimal _, .int _ | .decimal _, .str _ | .decimal _, .arr _ | .decimal _, .obj _
  | .str _, .null | .str _, .bool _ | .str _, .int _ | .str _, .decimal _ | .str _, .arr _
  | .str _, .obj _ | .arr _, .null | .arr _, .bool _ | .arr _, .int _ | .arr _, .decimal _
  | .arr _, .str _ | .arr _, .obj _ | .obj _, .null | .obj _, .bool _ | .obj _, .int _
  | .obj _, .decimal _ | .obj _, .str _ | .obj _, .arr _ => isFalse nofun

/-- Equality of arrays, item by item. -/
def decEqItems : (a b : List Json) → Decidable (a = b)
  | [], [] => isTrue rfl
  | [], _ :: _ | _ :: _, [] => isFalse nofun
  | a :: as, b :: bs =>
    match decEq a b, decEqItems as bs with
    | isTrue h, isTrue h' => isTrue (by rw [h, h'])
    | isFalse h, _ => isFalse (by simp [h])
    | _, isFalse h => isFalse (by simp [h])

/-- Equality of field lists, field by field. -/
def decEqFields : (a b : List (String × Json)) → Decidable (a = b)
  | [], [] => isTrue rfl
  | [], _ :: _ | _ :: _, [] => isFalse nofun
  | (k, a) :: as, (l, b) :: bs =>
    if hk : k = l then
      match decEq a b, decEqFields as bs with
      | isTrue h, isTrue h' => isTrue (by rw [hk, h, h'])
      | isFalse h, _ => isFalse (by simp [h])
      | _, isFalse h => isFalse (by simp [h])
    else isFalse (by simp [hk])

end

instance : DecidableEq Json := decEq

/-- An object with the given fields. -/
def object (fields : List (String × Json)) : Json := .obj (Dict.ofList fields)

mutual

/-- The same value with the fields of every object in order, the last of several with one key
being kept. -/
def normal : Json → Json
  | .arr items => .arr (normalItems items)
  | .obj ⟨fields⟩ => .obj (Dict.ofList (normalFields fields))
  | j => j

/-- Every item brought into order. -/
def normalItems : List Json → List Json
  | [] => []
  | j :: rest => normal j :: normalItems rest

/-- Every field's value brought into order. -/
def normalFields : List (String × Json) → List (String × Json)
  | [] => []
  | (k, j) :: rest => (k, normal j) :: normalFields rest

end

end Json

end LayeredViews
