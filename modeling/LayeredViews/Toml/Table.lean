import LayeredViews.Json.Basic
/-!
# TOML values and tables under construction

A TOML document defines each of its tables once, but in pieces that may be far apart. While it is
read, an `Item` therefore says how a table came about, and that decides what may still be added.

* `Toml.Value`: a finished value.
* `Toml.Entries.setKey`: `a.b.c = v` inside a table.
* `Toml.Entries.openTable`, `Toml.Entries.openRow`: the headers `[a.b.c]` and `[[a.b.c]]`.
-/

namespace LayeredViews.Toml

/-- A TOML value. -/
inductive Value where
  | string (s : String)
  | integer (i : Int)
  /-- A number with a fraction or an exponent. -/
  | float (d : Decimal)
  /-- An infinity or what is not a number, as it was written. -/
  | special (text : String)
  | boolean (b : Bool)
  /-- A date, a time or both, as it was written. -/
  | moment (text : String)
  | array (items : List Value)
  | table (fields : Dict String Value)

/-- How a table came about. -/
inductive Origin where
  /-- It is only the way to a table that a header names. -/
  | passage
  /-- A header names it. -/
  | header
  /-- It is the way to a key with dots. -/
  | dotted
  deriving DecidableEq

/-- What a key stands for while the document is read. -/
inductive Item where
  /-- A finished value. -/
  | value (v : Value)
  | table (origin : Origin) (entries : Dict String Item)
  /-- An array of tables, to the last of which keys are added. -/
  | rows (rows : List (Dict String Item))

/-- The contents of a table under construction. -/
abbrev Entries := Dict String Item

mutual

/-- The finished value of an item. -/
def Item.finish : Item → Value
  | .value v => v
  | .table _ ⟨entries⟩ => .table ⟨finishEntries entries⟩
  | .rows rows => .array (finishRows rows)

/-- The finished values of the pairs of a table. -/
def finishEntries : List (String × Item) → List (String × Value)
  | [] => []
  | (key, item) :: rest => (key, item.finish) :: finishEntries rest

/-- The finished tables of an array of tables. -/
def finishRows : List (Dict String Item) → List Value
  | [] => []
  | ⟨entries⟩ :: rest => .table ⟨finishEntries entries⟩ :: finishRows rest

end

namespace Entries

/-- Changes the table at the end of `path`, making the tables on the way there that do not exist;
`dotted` says that the path is written before a key. Such a path must not lead through a table
that a header names. `change` is given the origin of the table at the end. -/
def within (dotted : Bool) (change : Origin → Entries → Option Entries) :
    (path : List String) → (origin : Origin) → Entries → Option Entries
  | [], origin, t => change origin t
  | key :: path, _, t =>
    match t.get? key with
    | none =>
      let origin := if dotted then .dotted else .passage
      (within dotted change path origin ∅).map fun u => t.insert key (.table origin u)
    | some (.value _) => none
    | some (.table origin u) =>
      if dotted ∧ origin = .header then none
      else (within dotted change path origin u).map fun u => t.insert key (.table origin u)
    | some (.rows rows) =>
      match rows.getLast? with
      | none => none
      | some u => (within dotted change path .header u).map fun u =>
        t.insert key (.rows (rows.dropLast ++ [u]))

/-- Gives a key a value. The table at the end of a path with dots has to have come about by such
a path, and no key is given a value twice. -/
def setKey (t : Entries) (path : List String) (key : String) (v : Value) : Option Entries :=
  within true (fun origin u =>
    if path ≠ [] ∧ origin ≠ .dotted then none
    else if u.contains key then none
    else some (u.insert key (.value v))) path .header t

/-- Opens the table that a header names: a new one, or one that was only a passage so far. -/
def openTable (t : Entries) (path : List String) (key : String) : Option Entries :=
  within false (fun _ u =>
    match u.get? key with
    | none => some (u.insert key (.table .header ∅))
    | some (.table .passage inner) => some (u.insert key (.table .header inner))
    | some _ => none) path .header t

/-- Opens a further table of the array of tables that a header names. -/
def openRow (t : Entries) (path : List String) (key : String) : Option Entries :=
  within false (fun _ u =>
    match u.get? key with
    | none => some (u.insert key (.rows [∅]))
    | some (.rows rows) => some (u.insert key (.rows (rows ++ [∅])))
    | some _ => none) path .header t

/-- Gives a key a value in the table that the header at `current` opened. -/
def setKeyAt (t : Entries) (current path : List String) (key : String) (v : Value) :
    Option Entries :=
  within false (fun _ u => u.setKey path key v) current .header t

end Entries

end LayeredViews.Toml
