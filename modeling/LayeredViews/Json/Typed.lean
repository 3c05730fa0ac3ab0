import LayeredViews.Json.Basic
/-!
# Typed reading and writing of JSON values

* `Decode α`: which JSON values stand for a value of type `α`.
* `Encode α`: the JSON value that stands for a value of type `α`, if there is one. The only
  values without a JSON form are dictionaries whose keys are not the names of fields.
-/

namespace LayeredViews

/-- Types whose values can be read from JSON values. -/
class Decode (α : Type) where
  /-- The value that a JSON value stands for; `none` when it has another shape. -/
  decode : Json → Option α

/-- Types whose values can be written as JSON values. -/
class Encode (α : Type) where
  /-- The JSON value that stands for a value; `none` when it has no JSON form. -/
  encode : α → Option Json

export Decode (decode)
export Encode (encode)

/-- Types whose values may name the fields of an object. -/
class FieldName (κ : Type) where
  /-- The field's name; `none` when the value cannot be one. -/
  fieldName : κ → Option String

instance : FieldName String := ⟨some⟩
instance : FieldName UInt32 := ⟨fun n => some (toString n.toNat)⟩
instance {α β : Type} : FieldName (α × β) := ⟨fun _ => none⟩

/-- A measured quantity, which may fail to be a number. -/
inductive Quantity where
  | finite (d : Decimal)
  | infinite (negative : Bool)
  | undefined
  deriving DecidableEq

namespace Json

/-- The integer of a JSON integer from `lo` up to, but not including, `hi`. -/
def intWithin (lo hi : Int) : Json → Option Int
  | .int i => if lo ≤ i ∧ i < hi then some i else none
  | _ => none

end Json

section Decode

instance : Decode Json := ⟨some⟩

instance : Decode String where
  decode
    | .str s => some s
    | _ => none

instance : Decode Bool where
  decode
    | .bool b => some b
    | _ => none

instance : Decode Unit where
  decode
    | .null => some ()
    | _ => none

/-- A character is a text of exactly one character. -/
instance : Decode Char where
  decode
    | .str s => match s.toList with
      | [c] => some c
      | _ => none
    | _ => none

instance : Decode UInt8 where
  decode j := (j.intWithin 0 UInt8.size).map fun i => UInt8.ofNat i.toNat

instance : Decode UInt32 where
  decode j := (j.intWithin 0 UInt32.size).map fun i => UInt32.ofNat i.toNat

instance : Decode UInt64 where
  decode j := (j.intWithin 0 UInt64.size).map fun i => UInt64.ofNat i.toNat

instance : Decode Int64 where
  decode j := (j.intWithin (-0x8000000000000000) 0x8000000000000000).map Int64.ofInt

/-- Null stands for no value. -/
instance {α : Type} [Decode α] : Decode (Option α) where
  decode
    | .null => some none
    | j => (decode j : Option α).map some

instance {α : Type} [Decode α] : Decode (List α) where
  decode
    | .arr items => items.mapM decode
    | _ => none

instance {α : Type} [Decode α] : Decode (Dict String α) where
  decode
    | .obj fields => do
      let pairs ← fields.entries.mapM fun p => (decode p.2 : Option α).map fun v => (p.1, v)
      return ⟨pairs⟩
    | _ => none

/-- A pair is an array of exactly two items. -/
instance {α β : Type} [Decode α] [Decode β] : Decode (α × β) where
  decode
    | .arr [a, b] => do return (← decode a, ← decode b)
    | _ => none

end Decode

section Encode

instance : Encode Json := ⟨some⟩
instance : Encode String := ⟨fun s => some (.str s)⟩
instance : Encode Bool := ⟨fun b => some (.bool b)⟩
instance : Encode Unit := ⟨fun _ => some .null⟩
instance : Encode Char := ⟨fun c => some (.str c.toString)⟩
instance : Encode UInt8 := ⟨fun n => some (.int n.toNat)⟩
instance : Encode UInt32 := ⟨fun n => some (.int n.toNat)⟩
instance : Encode UInt64 := ⟨fun n => some (.int n.toNat)⟩
instance : Encode Int64 := ⟨fun n => some (.int n.toInt)⟩

/-- What is not a number is written as null. -/
instance : Encode Quantity where
  encode
    | .finite d => some (.decimal d)
    | .infinite _ | .undefined => some .null

instance {α : Type} [Encode α] : Encode (Option α) where
  encode
    | none => some .null
    | some a => encode a

instance {α : Type} [Encode α] : Encode (List α) where
  encode items := (items.mapM encode).map .arr

instance {α β : Type} [Encode α] [Encode β] : Encode (α × β) where
  encode p := do return .arr [← encode p.1, ← encode p.2]

/-- A dictionary is written as an object, which needs every key to name a field. -/
instance {κ α : Type} [FieldName κ] [Encode α] : Encode (Dict κ α) where
  encode d := do
    let fields ← d.entries.mapM fun p => do
      return (← FieldName.fieldName p.1, ← encode p.2)
    return Json.object fields

end Encode

end LayeredViews
