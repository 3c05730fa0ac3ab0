import LayeredViews.Json.Basic
/-!
# Reading JSON text

Readers take the characters that are left and give a value with the characters after it, or the
first fault met from left to right. What is read keeps every field of an object in the order of
the text, also those with a key seen before; `Json.normal` settles them.

* `Json.Text.Fault`: how a text can fail to be read.
* `Json.Text.value`: the reader of any value that nests at most a given number of levels.
* `Json.Text.items`, `Json.Text.members`: the inside of an array and of an object, with the
  reader of a single item or member left open.
-/

namespace LayeredViews.Json.Text

/-- How a text can fail to be read. -/
inductive Fault where
  /-- The text is not JSON. -/
  | malformed
  /-- The text ends too early. -/
  | truncated
  /-- The text is JSON, and stands for nothing of the type that is read. -/
  | mismatch
  deriving DecidableEq, Repr

/-- A reader of one value. -/
abbrev Reader (α : Type) := List Char → Except Fault (α × List Char)

/-- How many levels arrays and objects may nest. -/
def maxDepth : Nat := 127

def isBlank (c : Char) : Bool := c == ' ' || c == '\n' || c == '\t' || c == '\r'

/-- The characters from the first one on that is not blank. -/
def skip (cs : List Char) : List Char := cs.dropWhile isBlank

/-- Reads the characters of `word`. -/
def literal : (word : List Char) → Reader Unit
  | [], cs => .ok ((), cs)
  | _ :: _, [] => .error .truncated
  | w :: word, c :: cs => if w = c then literal word cs else .error .malformed

/-- The value of a hexadecimal digit. -/
def hexDigit? (c : Char) : Option Nat :=
  if '0' ≤ c ∧ c ≤ '9' then some (c.toNat - '0'.toNat)
  else if 'a' ≤ c ∧ c ≤ 'f' then some (c.toNat - 'a'.toNat + 10)
  else if 'A' ≤ c ∧ c ≤ 'F' then some (c.toNat - 'A'.toNat + 10)
  else none

/-- How many bytes the characters take. -/
def byteCount (cs : List Char) : Nat := (String.ofList cs).utf8ByteSize

/-- Reads four hexadecimal digits. Fewer than four bytes before the end of the text are a
truncated escape, whatever they are. -/
def hexFour : Reader Nat
  | a :: b :: c :: d :: rest =>
    match hexDigit? a, hexDigit? b, hexDigit? c, hexDigit? d with
    | some a, some b, some c, some d => .ok (((a * 16 + b) * 16 + c) * 16 + d, rest)
    | _, _, _, _ => .error .malformed
  | cs => if byteCount cs < 4 then .error .truncated else .error .malformed

/-- Reads what follows `\u`: a code unit, or two of them that form a pair. -/
def unicodeEscape : Reader Char := fun cs => do
  let (n, rest) ← hexFour cs
  if 0xDC00 ≤ n ∧ n ≤ 0xDFFF then throw .malformed
  if n < 0xD800 ∨ 0xDBFF < n then return (Char.ofNat n, rest)
  let ((), rest) ← literal ['\\', 'u'] rest
  let (m, rest) ← hexFour rest
  if 0xDC00 ≤ m ∧ m ≤ 0xDFFF then
    return (Char.ofNat (0x10000 + (n - 0xD800) * 0x400 + (m - 0xDC00)), rest)
  throw .malformed

/-- Reads what follows a backslash. -/
def escape : Reader Char
  | [] => .error .truncated
  | '"' :: rest => .ok ('"', rest)
  | '\\' :: rest => .ok ('\\', rest)
  | '/' :: rest => .ok ('/', rest)
  | 'b' :: rest => .ok ('\x08', rest)
  | 'f' :: rest => .ok ('\x0c', rest)
  | 'n' :: rest => .ok ('\n', rest)
  | 'r' :: rest => .ok ('\r', rest)
  | 't' :: rest => .ok ('\t', rest)
  | 'u' :: rest => unicodeEscape rest
  | _ :: _ => .error .malformed

/-- Reads the characters of a string up to its closing quote, at most `fuel` of them. -/
def stringBody : (fuel : Nat) → Reader (List Char)
  | 0, _ => .error .truncated
  | _ + 1, [] => .error .truncated
  | _ + 1, '"' :: rest => .ok ([], rest)
  | fuel + 1, '\\' :: rest => do
    let (c, rest) ← escape rest
    let (cs, rest) ← stringBody fuel rest
    return (c :: cs, rest)
  | fuel + 1, c :: rest =>
    if c.toNat < 0x20 then .error .malformed
    else do
      let (cs, rest) ← stringBody fuel rest
      return (c :: cs, rest)

/-- Reads a string whose opening quote has been read. -/
def string : Reader String := fun cs => do
  let (body, rest) ← stringBody (cs.length + 1) cs
  return (String.ofList body, rest)

/-- The number that decimal digits stand for. -/
def natOfDigits (digits : List Char) : Nat :=
  digits.foldl (fun n c => n * 10 + (c.toNat - '0'.toNat)) 0

/-- Reads one or more decimal digits. -/
def digits : Reader (List Char) := fun cs =>
  match cs with
  | [] => .error .truncated
  | c :: _ =>
    if c.isDigit then .ok (cs.takeWhile Char.isDigit, cs.dropWhile Char.isDigit)
    else .error .malformed

/-- Reads the digits before the point: a zero stands alone. -/
def wholePart : Reader (List Char)
  | '0' :: c :: rest => if c.isDigit then .error .malformed else .ok (['0'], c :: rest)
  | cs => digits cs

/-- Reads a fraction, if there is one. -/
def fraction : Reader (Option (List Char))
  | '.' :: rest => do
    let (ds, rest) ← digits rest
    return (some ds, rest)
  | cs => .ok (none, cs)

/-- Reads an exponent, if there is one. -/
def exponent : Reader (Option Int)
  | 'e' :: rest | 'E' :: rest =>
    match rest with
    | '+' :: rest => do
      let (ds, rest) ← digits rest
      return (some (natOfDigits ds), rest)
    | '-' :: rest => do
      let (ds, rest) ← digits rest
      return (some (-natOfDigits ds), rest)
    | rest => do
      let (ds, rest) ← digits rest
      return (some (natOfDigits ds), rest)
  | cs => .ok (none, cs)

/-- The number with a mantissa that does not end in zero, for at most `fuel` digits. -/
def strip : (fuel : Nat) → Decimal → Decimal
  | 0, d => d
  | fuel + 1, d =>
    if d.mantissa = 0 then ⟨0, 0⟩
    else if d.mantissa % 10 = 0 then strip fuel ⟨d.mantissa / 10, d.exponent + 1⟩
    else d

/-- Appends digits to a number as long as it fits 64 bits; gives the number and how many digits are
left out. -/
def absorb (n : Nat) : List Char → Nat × Nat
  | [] => (n, 0)
  | c :: rest =>
    let next := n * 10 + (c.toNat - '0'.toNat)
    if next < 0x10000000000000000 then absorb next rest else (n, rest.length + 1)

/-- A number rounded to 53 binary digits, a tie going to the even one. -/
def rounded (n : Nat) : Nat :=
  let unit := Nat.pow 2 (n.log2 + 1 - 53)
  let q := n / unit
  let r := 2 * (n % unit)
  if unit < r ∨ (r = unit ∧ q % 2 = 1) then (q + 1) * unit else q * unit

/-- Whether a number is refused as too great. It is judged by its leading digits and its power of
ten, each rounded before they are multiplied, so the verdict near the greatest floating-point
number differs from that on the number itself. -/
def overflows (whole frac : List Char) (exp : Int) : Bool :=
  let (n, left) := absorb 0 whole
  let (n, left') := absorb n frac
  let scale : Int := exp + left + left' - frac.length
  if n = 0 ∨ scale < 0 then false
  else if 308 < scale then true
  else Decimal.limit ≤ rounded n * rounded (Nat.pow 10 scale.toNat)

/-- The value of a number's parts. Integers of 64 bits, signed or not, are integers; all others
are decimals. -/
def numberOf (negative : Bool) (whole : List Char) (frac : Option (List Char))
    (exp : Option Int) : Except Fault Json :=
  let sign : Int := if negative then -1 else 1
  let n := natOfDigits whole
  match frac, exp with
  | none, none =>
    let i := sign * n
    if negative ∧ n = 0 then .ok (.decimal ⟨0, 0⟩)
    else if -0x8000000000000000 ≤ i ∧ i < 0x10000000000000000 then .ok (.int i)
    else decimalOf sign [] 0
  | frac, exp => decimalOf sign (frac.getD []) (exp.getD 0)
where
  /-- A decimal that is not too great. -/
  decimalOf (sign : Int) (frac : List Char) (exp : Int) : Except Fault Json :=
    if overflows whole frac exp then .error .malformed
    else
      let ds := whole ++ frac
      .ok (.decimal (strip ds.length ⟨sign * natOfDigits ds, exp - frac.length⟩))

/-- Reads a number from the first character of its digits on. -/
def unsigned (negative : Bool) : Reader Json := fun cs => do
  let (whole, rest) ← wholePart cs
  let (frac, rest) ← fraction rest
  let (exp, rest) ← exponent rest
  let j ← numberOf negative whole frac exp
  return (j, rest)

/-- Reads a value that is neither an array nor an object. -/
def scalar : Reader Json
  | [] => .error .truncated
  | 'n' :: rest => do return (.null, (← literal "ull".toList rest).2)
  | 't' :: rest => do return (.bool true, (← literal "rue".toList rest).2)
  | 'f' :: rest => do return (.bool false, (← literal "alse".toList rest).2)
  | '"' :: rest => do
    let (s, rest) ← string rest
    return (.str s, rest)
  | '-' :: rest => unsigned true rest
  | c :: rest => if c.isDigit then unsigned false (c :: rest) else .error .malformed

/-- Reads what stands before an item or before the closing character `close`: nothing before the
first item, a comma before each other one. Says whether the closing character was read. -/
def delimiter (close : Char) (first : Bool) : Reader Bool := fun cs =>
  match skip cs with
  | [] => .error .truncated
  | c :: rest =>
    if c = close then .ok (true, rest)
    else if first then .ok (false, c :: rest)
    else if c = ',' then
      match skip rest with
      | [] => .error .truncated
      | d :: rest => if d = close then .error .malformed else .ok (false, d :: rest)
    else .error .malformed

/-- Reads the items of an array up to its closing bracket, where `item n` reads the item at
place `n`; `index` is the place of the first one. -/
def items {α : Type} (item : Nat → Reader α) : (fuel index : Nat) → Reader (List α)
  | 0, _, _ => .error .truncated
  | fuel + 1, index, cs => do
    let (closed, rest) ← delimiter ']' (index == 0) cs
    if closed then return ([], rest)
    let (a, rest) ← item index rest
    let (as, rest) ← items item fuel (index + 1) rest
    return (a :: as, rest)

/-- Reads the key of a member. -/
def key : Reader String
  | '"' :: rest => string rest
  | _ => .error .malformed

/-- Reads the members of an object up to its closing brace, where `entry seen key` reads what
follows the key of a member after members with the keys `seen`. -/
def members {α : Type} (entry : List String → String → Reader α) :
    (fuel : Nat) → (seen : List String) → Reader (List (String × α))
  | 0, _, _ => .error .truncated
  | fuel + 1, seen, cs => do
    let (closed, rest) ← delimiter '}' seen.isEmpty cs
    if closed then return ([], rest)
    let (name, rest) ← key rest
    let (a, rest) ← entry seen name rest
    let (as, rest) ← members entry fuel (name :: seen) rest
    return ((name, a) :: as, rest)

/-- Reads a colon and then what `read` reads. -/
def afterColon {α : Type} (read : Reader α) : Reader α := fun cs =>
  match skip cs with
  | [] => .error .truncated
  | ':' :: rest => read (skip rest)
  | _ => .error .malformed

/-- Reads a value from its first character on, where `inner` reads the values inside an array or
object; without `inner` the value nests too deep. -/
def valueWith (inner : Option (Reader Json)) : Reader Json := fun cs =>
  match cs, inner with
  | '[' :: _, none | '{' :: _, none => .error .malformed
  | '[' :: rest, some inner => do
    let (js, rest) ← items (fun _ => inner) (rest.length + 1) 0 rest
    return (.arr js, rest)
  | '{' :: rest, some inner => do
    let (fields, rest) ← members (fun _ _ => afterColon inner) (rest.length + 1) [] rest
    return (.obj ⟨fields⟩, rest)
  | cs, _ => scalar cs

/-- Reads a value, from its first character on, that nests at most `depth` levels. -/
def value : (depth : Nat) → Reader Json
  | 0 => valueWith none
  | depth + 1 => valueWith (some (value depth))

end LayeredViews.Json.Text
