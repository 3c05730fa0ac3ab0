import LayeredViews.Toml.Scalar
/-!
# TOML documents

* `Toml.value?`: reads a value that nests at most a given number of levels.
* `Toml.ofText?`: the table that a document stands for, or nothing when it is not TOML.
-/

namespace LayeredViews.Toml

/-- How many levels arrays and inline tables may nest. -/
def maxDepth : Nat := 80

/-- How many parts a key may have. -/
def maxParts : Nat := 80

/-- The characters after a comment, if one stands first. -/
def skipComment : List Char → List Char
  | '#' :: rest => rest.dropWhile isPlain
  | cs => cs

/-- The characters after all blanks, comments and line breaks, for at most `fuel` lines. -/
def skipLines : (fuel : Nat) → List Char → List Char
  | 0, cs => cs
  | fuel + 1, cs =>
    let rest := skipComment (skipBlanks cs)
    match lineBreak? rest with
    | some rest => skipLines fuel rest
    | none => rest

/-- Reads the end of a line, with a comment before it, or the end of the document. -/
def endOfLine? (cs : List Char) : Option (List Char) :=
  match skipComment (skipBlanks cs) with
  | [] => some []
  | rest => lineBreak? rest

def isBare (c : Char) : Bool := c.isAlphanum || c == '_' || c == '-'

/-- Reads one part of a key. -/
def keyPart? : Reader String
  | '"' :: rest => quoted? '"' false rest
  | '\'' :: rest => quoted? '\'' false rest
  | cs =>
    let word := cs.takeWhile isBare
    if word.isEmpty then none else some (String.ofList word, cs.dropWhile isBare)

/-- Reads a key of at most `parts` parts: the parts before the last one, and the last one. -/
def key? : (parts : Nat) → Reader (List String × String)
  | 0, _ => none
  | parts + 1, cs => do
    let (part, rest) ← keyPart? (skipBlanks cs)
    match skipBlanks rest with
    | '.' :: rest =>
      let ((path, key), rest) ← key? parts rest
      return ((part :: path, key), rest)
    | rest => return (([], part), rest)

/-- Reads the items of an array up to its closing bracket; the characters must be fewer than
`fuel`. -/
def items? (item : Reader Value) : (fuel : Nat) → Reader (List Value)
  | 0, _ => none
  | fuel + 1, cs =>
    match skipLines fuel cs with
    | ']' :: rest => some ([], rest)
    | rest => do
      let (v, rest) ← item rest
      match skipLines fuel rest with
      | ']' :: rest => return ([v], rest)
      | ',' :: rest =>
        let (vs, rest) ← items? item fuel rest
        return (v :: vs, rest)
      | _ => none

/-- Reads a key, the sign of equality and a value; `skip` passes over what may stand on both sides
of the sign. -/
def keyValue? (skip : List Char → List Char) (value : Reader Value) :
    Reader (List String × String × Value) := fun cs => do
  let ((path, key), rest) ← key? maxParts cs
  match skip rest with
  | '=' :: rest =>
    let (v, rest) ← value (skip rest)
    return ((path, key, v), rest)
  | _ => none

/-- Reads the keys of an inline table up to its closing brace and adds them to `t`; the characters
must be fewer than `fuel`. Lines may be broken everywhere but inside a key. -/
def fields? (value : Reader Value) : (fuel : Nat) → (t : Entries) → Reader Entries
  | 0, _, _ => none
  | fuel + 1, t, cs =>
    match skipLines fuel cs with
    | '}' :: rest => some (t, rest)
    | rest => do
      let ((path, key, v), rest) ← keyValue? (skipLines fuel) value rest
      let t ← t.setKey path key v
      match skipLines fuel rest with
      | '}' :: rest => return (t, rest)
      | ',' :: rest => fields? value fuel t rest
      | _ => none

/-- Reads a value, where `inner` reads the values inside an array or inline table; without
`inner` the value nests too deep. -/
def valueWith? (inner : Option (Reader Value)) : Reader Value := fun cs =>
  match cs, inner with
  | '[' :: _, none | '{' :: _, none => none
  | '"' :: rest, _ => (quoted? '"' true rest).map fun (s, rest) => (.string s, rest)
  | '\'' :: rest, _ => (quoted? '\'' true rest).map fun (s, rest) => (.string s, rest)
  | '[' :: rest, some inner => do
    let (vs, rest) ← items? inner (rest.length + 1) rest
    return (.array vs, rest)
  | '{' :: rest, some inner => do
    let (t, rest) ← fields? inner (rest.length + 1) ∅ rest
    return ((Item.table .header t).finish, rest)
  | cs, _ => scalar? cs

/-- Reads a value that nests at most `depth` levels. -/
def value? : (depth : Nat) → Reader Value
  | 0 => valueWith? none
  | depth + 1 => valueWith? (some (value? depth))

/-- What has been read of a document: its tables, and the header in force. -/
structure Reading where
  root : Entries := ∅
  current : List String := []

/-- Reads a header, of which the opening bracket has been read, or of an array of tables both. -/
def header? (row : Bool) (r : Reading) : Reader Reading := fun cs => do
  let ((path, key), rest) ← key? maxParts cs
  match row, rest with
  | false, ']' :: rest => return (⟨← r.root.openTable path key, path ++ [key]⟩, rest)
  | true, ']' :: ']' :: rest => return (⟨← r.root.openRow path key, path ++ [key]⟩, rest)
  | _, _ => none

/-- Reads one line's header or key with its value. -/
def expression? (r : Reading) : Reader Reading
  | '[' :: '[' :: rest => header? true r rest
  | '[' :: rest => header? false r rest
  | cs => do
    let ((path, key, v), rest) ← keyValue? skipBlanks (value? maxDepth) cs
    return ({ r with root := ← r.root.setKeyAt r.current path key v }, rest)

/-- Reads a document; its characters must be fewer than `fuel`. -/
def document? : (fuel : Nat) → Reading → List Char → Option Entries
  | 0, _, _ => none
  | fuel + 1, r, cs =>
    match skipLines fuel cs with
    | [] => some r.root
    | rest => do
      let (r, rest) ← expression? r rest
      document? fuel r (← endOfLine? rest)

/-- The table that a document stands for. A byte order mark may stand first. -/
def ofText? (text : String) : Option (Dict String Value) := do
  let cs := match text.toList with
    | '\ufeff' :: rest => rest
    | cs => cs
  let root ← document? (cs.length + 1) {} cs
  return ⟨finishEntries root.entries⟩

end LayeredViews.Toml
