import LayeredViews.Json.Text
import LayeredViews.Toml.Table
/-!
# TOML strings, numbers and dates

Readers take the characters that are left and give a value with the characters after it, or
nothing when the text is not TOML.

* `Toml.quoted?`: strings of all four forms.
* `Toml.scalarOf?`: what a word that is not quoted stands for.
-/

namespace LayeredViews.Toml

/-- A reader of one value. -/
abbrev Reader (α : Type) := List Char → Option (α × List Char)

def isBlank (c : Char) : Bool := c == ' ' || c == '\t'

/-- The characters from the first one on that is neither space nor tab. -/
def skipBlanks (cs : List Char) : List Char := cs.dropWhile isBlank

/-- Whether a character may stand in a comment or, quotes and backslashes apart, in a string:
control characters other than the tab may not. -/
def isPlain (c : Char) : Bool := c == '\t' || (0x20 ≤ c.toNat && c.toNat ≠ 0x7F)

/-- The number that hexadecimal digits stand for. -/
def natOfHex? (digits : List Char) : Option Nat :=
  digits.foldlM (fun n c => (Json.Text.hexDigit? c).map (n * 16 + ·)) 0

/-- Reads the `n` digits of an escaped code point. -/
def codePoint? (n : Nat) : Reader Char := fun cs => do
  if (cs.take n).length < n then none
  let code ← natOfHex? (cs.take n)
  if code < 0xD800 ∨ (0xE000 ≤ code ∧ code < 0x110000) then some (Char.ofNat code, cs.drop n)
  else none

/-- Reads what follows a backslash. -/
def escape? : Reader Char
  | 'b' :: rest => some ('\x08', rest)
  | 'e' :: rest => some ('\x1b', rest)
  | 't' :: rest => some ('\t', rest)
  | 'n' :: rest => some ('\n', rest)
  | 'f' :: rest => some ('\x0c', rest)
  | 'r' :: rest => some ('\r', rest)
  | '"' :: rest => some ('"', rest)
  | '\\' :: rest => some ('\\', rest)
  | 'x' :: rest => codePoint? 2 rest
  | 'u' :: rest => codePoint? 4 rest
  | 'U' :: rest => codePoint? 8 rest
  | _ => none

/-- Reads a string on one line up to its closing quote, at most `fuel` characters; `escapes` says
that a backslash begins an escape. -/
def lineBody? (quote : Char) (escapes : Bool) : (fuel : Nat) → Reader (List Char)
  | 0, _ => none
  | _ + 1, [] => none
  | fuel + 1, c :: rest => do
    if c = quote then return ([], rest)
    if c = '\\' ∧ escapes then
      let (c, rest) ← escape? rest
      let (cs, rest) ← lineBody? quote escapes fuel rest
      return (c :: cs, rest)
    if isPlain c then
      let (cs, rest) ← lineBody? quote escapes fuel rest
      return (c :: cs, rest)
    none

/-- The characters after a line break, if one stands first. -/
def lineBreak? : List Char → Option (List Char)
  | '\n' :: rest => some rest
  | '\r' :: '\n' :: rest => some rest
  | _ => none

/-- The characters after all blanks and line breaks, for at most `fuel` lines. -/
def skipEmptyLines : (fuel : Nat) → List Char → List Char
  | 0, cs => cs
  | fuel + 1, cs =>
    let rest := skipBlanks cs
    match lineBreak? rest with
    | some rest => skipEmptyLines fuel rest
    | none => rest

/-- The characters after a backslash at the end of a line and all blanks and line breaks that
follow it; nothing when there is more on the line. -/
def continuation? (cs : List Char) : Option (List Char) := do
  let rest ← lineBreak? (skipBlanks cs)
  return skipEmptyLines (rest.length + 1) rest

/-- Reads a string on several lines up to its three closing quotes, at most `fuel` steps. Up to
two quotes more belong to the string. -/
def linesBody? (quote : Char) (escapes : Bool) : (fuel : Nat) → Reader (List Char)
  | 0, _ => none
  | _ + 1, [] => none
  | fuel + 1, c :: rest => do
    if c = quote then
      let n := ((c :: rest).takeWhile (· == quote)).length
      let after := (c :: rest).drop n
      if n < 3 then
        let (cs, rest) ← linesBody? quote escapes fuel after
        return (List.replicate n quote ++ cs, rest)
      if n ≤ 5 then return (List.replicate (n - 3) quote, after)
      none
    else if c = '\\' ∧ escapes then
      match continuation? rest with
      | some rest => linesBody? quote escapes fuel rest
      | none =>
        let (c, rest) ← escape? rest
        let (cs, rest) ← linesBody? quote escapes fuel rest
        return (c :: cs, rest)
    else
      match lineBreak? (c :: rest) with
      | some after =>
        let written := if c = '\r' then ['\r', '\n'] else ['\n']
        let (cs, rest) ← linesBody? quote escapes fuel after
        return (written ++ cs, rest)
      | none =>
        if isPlain c then
          let (cs, rest) ← linesBody? quote escapes fuel rest
          return (c :: cs, rest)
        else none

/-- Reads a string whose opening quote has been read, on one line or, with three quotes, on
several. -/
def quoted? (quote : Char) (several : Bool) : Reader String := fun cs => do
  let escapes := quote == '"'
  match several, cs with
  | true, q :: q' :: rest =>
    if q = quote ∧ q' = quote then
      let rest := (lineBreak? rest).getD rest
      let (body, rest) ← linesBody? quote escapes (rest.length + 1) rest
      return (String.ofList body, rest)
    oneLine escapes cs
  | _, _ => oneLine escapes cs
where
  /-- Reads a string on one line. -/
  oneLine (escapes : Bool) (cs : List Char) : Option (String × List Char) := do
    let (body, rest) ← lineBody? quote escapes (cs.length + 1) cs
    return (String.ofList body, rest)

/-- Digits without the underscores that may stand between two of them. -/
def digitsOf? (isDigit : Char → Bool) : List Char → Option (List Char)
  | [] => none
  | [c] => if isDigit c then some [c] else none
  | c :: '_' :: rest => if isDigit c then (digitsOf? isDigit rest).map (c :: ·) else none
  | c :: rest => if isDigit c then (digitsOf? isDigit rest).map (c :: ·) else none

/-- The sign of a number and what follows it. -/
def signOf : List Char → Bool × List Char
  | '-' :: rest => (true, rest)
  | '+' :: rest => (false, rest)
  | cs => (false, cs)

/-- Decimal digits that do not begin with a zero, a lone zero apart. -/
def wholeOf? (cs : List Char) : Option (List Char) :=
  match digitsOf? Char.isDigit cs with
  | some ('0' :: _ :: _) => none
  | r => r

/-- The number that digits of a base of at most 16 stand for. -/
def natOfBase (base : Nat) (digits : List Char) : Nat :=
  digits.foldl (fun n c => n * base + (Json.Text.hexDigit? c).getD 0) 0

/-- The integers that can be held: 128 bits, signed or not. -/
def heldInteger? (i : Int) : Option Value :=
  if -0x80000000000000000000000000000000 ≤ i ∧ i < 0x100000000000000000000000000000000
  then some (.integer i)
  else none

/-- The integer that a word stands for. -/
def integerOf? (word : List Char) : Option Value :=
  match word with
  | '0' :: 'x' :: rest =>
    (digitsOf? (fun c => (Json.Text.hexDigit? c).isSome) rest).bind (heldInteger? <| natOfBase 16 ·)
  | '0' :: 'o' :: rest =>
    (digitsOf? (fun c => '0' ≤ c && c ≤ '7') rest).bind (heldInteger? <| natOfBase 8 ·)
  | '0' :: 'b' :: rest =>
    (digitsOf? (fun c => c == '0' || c == '1') rest).bind (heldInteger? <| natOfBase 2 ·)
  | word =>
    let (negative, rest) := signOf word
    (wholeOf? rest).bind fun ds =>
      heldInteger? (if negative then -(natOfBase 10 ds : Int) else natOfBase 10 ds)

/-- The exponent of a number from its mark on; `none` inside when there is none. -/
def exponentOf? : List Char → Option (Option Int)
  | [] => some none
  | _ :: exponent =>
    let (negative, digits) := signOf exponent
    (digitsOf? Char.isDigit digits).map fun ds =>
      some (if negative then -(natOfBase 10 ds : Int) else natOfBase 10 ds)

/-- The digits of a fraction from the point on; `none` inside when there is none. -/
def fractionOf? : List Char → Option (Option (List Char))
  | [] => some none
  | _ :: digits => (digitsOf? Char.isDigit digits).map some

/-- The number with a fraction or an exponent that a word stands for. -/
def floatOf? (word : List Char) : Option Value := do
  let (negative, rest) := signOf word
  if rest = "inf".toList ∨ rest = "nan".toList then return .special (String.ofList word)
  let inMantissa (c : Char) : Bool := !(c == 'e' || c == 'E')
  let mantissa := rest.takeWhile inMantissa
  let exponent ← exponentOf? (rest.dropWhile inMantissa)
  let whole ← wholeOf? (mantissa.takeWhile (· ≠ '.'))
  let fraction ← fractionOf? (mantissa.dropWhile (· ≠ '.'))
  if exponent.isNone ∧ fraction.isNone then none
  let n : Int := natOfBase 10 (whole ++ fraction.getD [])
  let d : Decimal :=
    ⟨if negative then -n else n, exponent.getD 0 - (fraction.getD []).length⟩
  if d.tooGreat then none else return .float d

/-- The number that two digits stand for. -/
def two? (a b : Char) : Option Nat :=
  if a.isDigit ∧ b.isDigit then some (natOfBase 10 [a, b]) else none

def isLeapYear (year : Nat) : Bool := year % 4 == 0 && (year % 100 != 0 || year % 400 == 0)

/-- How many days a month has. -/
def daysOf (year month : Nat) : Nat :=
  if month = 2 then (if isLeapYear year then 29 else 28)
  else if month = 4 ∨ month = 6 ∨ month = 9 ∨ month = 11 then 30 else 31

/-- The characters after a date, if a date stands first. -/
def afterDate? : List Char → Option (List Char)
  | y :: y' :: y'' :: y''' :: '-' :: m :: m' :: '-' :: d :: d' :: rest => do
    let year := (← two? y y') * 100 + (← two? y'' y''')
    let month ← two? m m'
    let day ← two? d d'
    if 1 ≤ month ∧ month ≤ 12 ∧ 1 ≤ day ∧ day ≤ daysOf year month then some rest else none
  | _ => none

/-- The characters after the seconds of a time, with a fraction of a second or without. -/
def afterSeconds? : List Char → Option (List Char)
  | s :: s' :: rest => do
    if 60 < (← two? s s') then none
    match rest with
    | '.' :: c :: rest => if c.isDigit then some (rest.dropWhile Char.isDigit) else none
    | '.' :: [] => none
    | rest => some rest
  | _ => none

/-- The characters after a time of day, if one stands first. Its seconds may be left out. -/
def afterTime? : List Char → Option (List Char)
  | h :: h' :: ':' :: m :: m' :: rest => do
    if 23 < (← two? h h') ∨ 59 < (← two? m m') then none
    match rest with
    | ':' :: rest => afterSeconds? rest
    | rest => some rest
  | _ => none

/-- Whether the characters are the distance to universal time. -/
def isOffset : List Char → Bool
  | ['Z'] | ['z'] => true
  | [sign, h, h', ':', m, m'] =>
    (sign == '+' || sign == '-') &&
      (match two? h h', two? m m' with
      | some hours, some minutes => decide (hours ≤ 23 ∧ minutes ≤ 59)
      | _, _ => false)
  | _ => false

/-- The date, time or both that a word stands for. -/
def momentOf? (word : List Char) : Option Value :=
  let valid :=
    match afterDate? word with
    | some [] => true
    | some (c :: time) =>
      (c == 'T' || c == 't') &&
        (match afterTime? time with
        | some rest => rest.isEmpty || isOffset rest
        | none => false)
    | none => afterTime? word == some []
  if valid then some (.moment (String.ofList word)) else none

/-- The value that a word without quotes stands for. -/
def scalarOf? (word : List Char) : Option Value :=
  if word = "true".toList then some (.boolean true)
  else if word = "false".toList then some (.boolean false)
  else integerOf? word <|> floatOf? word <|> momentOf? word

/-- Whether a character may stand in a word without quotes. -/
def isWord (c : Char) : Bool :=
  c.isAlphanum || c == '+' || c == '-' || c == '.' || c == '_' || c == ':'

/-- Reads a value without quotes. A time may follow its date after a space. -/
def scalar? : Reader Value := fun cs => do
  let word := cs.takeWhile isWord
  let rest := cs.dropWhile isWord
  match afterDate? word, rest with
  | some [], ' ' :: c :: time =>
    if c.isDigit then
      let word := word ++ 'T' :: (c :: time).takeWhile isWord
      return (← momentOf? word, (c :: time).dropWhile isWord)
    return (← scalarOf? word, rest)
  | _, _ => return (← scalarOf? word, rest)

end LayeredViews.Toml
