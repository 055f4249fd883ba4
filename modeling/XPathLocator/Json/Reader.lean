import XPathLocator.Json.Value
import XPathLocator.Remainder

/-!
# `XPathLocator.Json.Reader`: reading JSON texts

`Json.read?` accepts exactly the texts of RFC 8259 up to a nesting depth, and
nothing around them but the four white-space characters of JSON. In a string a
control character must be escaped, and an escaped surrogate must be half of a
pair. A repeated key of an object is kept once.

Numbers go two ways. A whole number that fits in 64 bits is kept exactly.
Every other number becomes a double in two rounded steps, `Number.ofParts`: the
digits that fit in 64 bits are taken as a whole number, and that is multiplied
or divided by a power of ten. A number too large for a double is refused, one
too small becomes zero.

Each reader takes the rest of the text and hands on what it leaves, with the
proof that this is shorter, which is why the loops end. Nesting is counted down
by an argument of its own.
-/

set_option autoImplicit false

namespace XPathLocator.Json

/-- The white space between the tokens of a JSON text. -/
def isSpace (c : Char) : Bool :=
  c = ' ' || c = '\t' || c = '\n' || c = '\r'

/-- Passes over white space. -/
def skipSpace (s : List Char) : Rest s :=
  Rest.dropWhile isSpace s

/-! ### Strings -/

/-- The value of a hexadecimal digit of either case. -/
def hexDigit? (c : Char) : Option Nat :=
  if '0' ≤ c && c ≤ '9' then some (c.toNat - '0'.toNat)
  else if 'a' ≤ c && c ≤ 'f' then some (c.toNat - 'a'.toNat + 10)
  else if 'A' ≤ c && c ≤ 'F' then some (c.toNat - 'A'.toNat + 10)
  else none

/-- The value of four hexadecimal digits. -/
def hexUnit? (s : List Char) : Option (Nat × Tail s) :=
  match s with
  | a :: b :: c :: d :: r => do
    let value := (((← hexDigit? a) * 16 + (← hexDigit? b)) * 16 + (← hexDigit? c)) * 16
      + (← hexDigit? d)
    return (value, ⟨r, by simp only [List.length_cons]; omega⟩)
  | _ => none

/-- The character of an escape, read behind `\u`. A high surrogate must be
followed by the escape of a low one, and a low one stands nowhere else. -/
def unicodeEscape? (s : List Char) : Option (Char × Tail s) := do
  let (unit, r) ← hexUnit? s
  if 0xDC00 ≤ unit ∧ unit < 0xE000 then none
  else if 0xD800 ≤ unit ∧ unit < 0xDC00 then
    match h : r.1 with
    | '\\' :: 'u' :: t =>
      let (low, r') ← hexUnit? t
      if 0xDC00 ≤ low ∧ low < 0xE000 then
        let code := 0x10000 + (unit - 0xD800) * 0x400 + (low - 0xDC00)
        some (Char.ofNat code, ⟨r'.1, by
          have := r.2; have := r'.2; simp only [h, List.length_cons] at *; omega⟩)
      else none
    | _ => none
  else some (Char.ofNat unit, r)

/-- The character of an escape, read behind the backslash. -/
def escape? (s : List Char) : Option (Char × Tail s) :=
  match s with
  | '"' :: r => some ('"', .ofCons _ r)
  | '\\' :: r => some ('\\', .ofCons _ r)
  | '/' :: r => some ('/', .ofCons _ r)
  | 'b' :: r => some ('\x08', .ofCons _ r)
  | 'f' :: r => some ('\x0c', .ofCons _ r)
  | 'n' :: r => some ('\n', .ofCons _ r)
  | 'r' :: r => some ('\r', .ofCons _ r)
  | 't' :: r => some ('\t', .ofCons _ r)
  | 'u' :: r => do
    let (c, rest) ← unicodeEscape? r
    return (c, (Tail.ofCons _ r).of rest.toRest)
  | _ => none

/-- The characters of a string, read behind the opening quote. -/
def stringBody? (s : List Char) : Option (List Char × Tail s) :=
  match s with
  | [] => none
  | '"' :: r => some ([], .ofCons _ r)
  | '\\' :: r => do
    let (c, r') ← escape? r
    let (cs, rest) ← stringBody? r'.1
    return (c :: cs, (Tail.ofCons _ r).of (r'.of rest.toRest).toRest)
  | c :: r =>
    if c.toNat < 0x20 then none
    else do
      let (cs, rest) ← stringBody? r
      return (c :: cs, (Tail.ofCons _ r).of rest.toRest)
termination_by s.length
decreasing_by
  · have := r'.2; simp only [List.length_cons]; omega
  · simp

/-! ### Numbers -/

/-- The number that a run of decimal digits denotes. -/
def ofDigits (digits : List Char) : Nat :=
  digits.foldl (fun n d => n * 10 + (d.toNat - '0'.toNat)) 0

/-- Whole numbers below this bound are held exactly. -/
def wordBound : Nat := Nat.pow 2 64

/-- Appends digits to `n` while the result fits in 64 bits. Gives the result and
the digits from the first that does not fit. -/
def takeWord (n : Nat) : List Char → Nat × List Char
  | [] => (n, [])
  | d :: ds =>
    let next := n * 10 + (d.toNat - '0'.toNat)
    if next < wordBound then takeWord next ds else (n, d :: ds)

/-- The double `x · 10^exponent`, rounded after each step; nothing if it is too large. The
powers of ten end at 308, so smaller exponents take several divisions. -/
def scale? (x : Float) (exponent : Int) : Option Float :=
  if exponent < -308 then
    if x == 0.0 then some x else scale? (x / 1e308) (exponent + 308)
  else if exponent < 0 then some (x / Float.ofScientific 1 false (-exponent).toNat)
  else if exponent ≤ 308 then
    let y := x * Float.ofScientific 1 false exponent.toNat
    if y.isInf then none else some y
  else if x == 0.0 then some x else none
termination_by (-exponent).toNat
decreasing_by omega

/-- Exponents are clamped to 32 bits. -/
def clampExponent (e : Int) : Int :=
  max (-2147483648) (min 2147483647 e)

/-- The parts of a number as written: sign, whole digits, digits behind the
point (none without a point) and the exponent (sign and digits). -/
structure NumberParts where
  negative : Bool
  whole : List Char
  fraction : Option (List Char)
  exponent : Option (Bool × List Char)

/-- A double with a sign. -/
def signed (negative : Bool) (x : Float) : Number :=
  .float (if negative then -x else x)

/-- The number that its written parts denote; nothing if it is too large for a
double. -/
def Number.ofParts? (p : NumberParts) : Option Number :=
  let (word, dropped) := takeWord 0 p.whole
  match p.fraction, p.exponent, dropped with
  | none, none, [] =>
    if !p.negative then some (.int word)
    -- Negative zero and what is below the least signed word are doubles.
    else if word = 0 || Nat.pow 2 63 < word then some (signed true (UInt64.ofNat word).toFloat)
    else some (.int (-word))
  | fraction, exponent, _ => do
    let fractionDigits := fraction.getD []
    let (word, droppedFraction) := takeWord word fractionDigits
    let place : Int := dropped.length - (fractionDigits.length - droppedFraction.length : Nat)
    let finish (e : Int) := (scale? (UInt64.ofNat word).toFloat e).map (signed p.negative)
    match exponent with
    | none => finish place
    | some (down, digits) =>
      let e := ofDigits digits
      if Nat.pow 2 31 ≤ e then
        if word ≠ 0 && !down then none else some (signed p.negative 0.0)
      else finish (clampExponent (if down then place - e else place + e))

/-- The run of decimal digits in front. -/
def digits (s : List Char) : List Char × Rest s :=
  (s.takeWhile Char.isDigit, Rest.dropWhile Char.isDigit s)

/-- At least one decimal digit. -/
def digits1? (s : List Char) : Option (List Char × Tail s) :=
  match s with
  | [] => none
  | c :: r =>
    if c.isDigit then
      let (ds, rest) := digits r
      some (c :: ds, (Tail.ofCons c r).of rest)
    else none

/-- The whole digits of a number: a zero alone, or digits without a leading
zero. -/
def wholeDigits? (s : List Char) : Option (List Char × Tail s) :=
  match s with
  | '0' :: r => some (['0'], .ofCons _ r)
  | s => digits1? s

/-- The digits behind a point, if there is a point. -/
def fraction? (s : List Char) : Option (Option (List Char) × Rest s) :=
  match s with
  | '.' :: r => do
    let (ds, rest) ← digits1? r
    return (some ds, ((Tail.ofCons _ r).of rest.toRest).toRest)
  | s => some (none, .all s)

/-- Whether a minus sign stands in front; it is passed over. -/
def minus (s : List Char) : Bool × Rest s :=
  match s with
  | '-' :: r => (true, (Tail.ofCons _ r).toRest)
  | s => (false, .all s)

/-- As `minus`, but a plus sign is passed over as well. -/
def plusOrMinus (s : List Char) : Bool × Rest s :=
  match s with
  | '+' :: r => (false, (Tail.ofCons _ r).toRest)
  | s => minus s

/-- The sign and the digits of an exponent, if there is one. -/
def exponent? (s : List Char) : Option (Option (Bool × List Char) × Rest s) :=
  match s with
  | [] => some (none, .all [])
  | c :: r =>
    if c = 'e' || c = 'E' then do
      let (down, r') := plusOrMinus r
      let (ds, rest) ← digits1? r'.1
      return (some (down, ds), ((Tail.ofCons c r).of (r'.of rest.toRest)).toRest)
    else some (none, .all (c :: r))

/-- A number. -/
def number? (s : List Char) : Option (Number × Tail s) := do
  let (negative, r) := minus s
  let (whole, r₁) ← wholeDigits? r.1
  let (fraction, r₂) ← fraction? r₁.1
  let (exponent, r₃) ← exponent? r₂.1
  let value ← Number.ofParts? ⟨negative, whole, fraction, exponent⟩
  return (value, r.tail (r₁.of (r₂.of r₃)))

/-! ### Values -/

/-- A reader of one item. -/
abbrev Reader (α : Type) := (s : List Char) → Option (α × Tail s)

/-- At least one item, separated by commas, up to the closing bracket. -/
def items? {α : Type} (item : Reader α) (closing : Char) : Reader (List α) := fun s => do
  let (x, r) ← item s
  match h : (skipSpace r.1).1 with
  | [] => none
  | c :: t =>
    have shorter : t.length < s.length := by
      have := r.2; have := (skipSpace r.1).2; simp only [h, List.length_cons] at *; omega
    if c = ',' then
      let (xs, rest) ← items? item closing t
      return (x :: xs, ⟨rest.1, Nat.lt_trans rest.2 shorter⟩)
    else if c = closing then some ([x], ⟨t, shorter⟩)
    else none
termination_by s => s.length

/-- Items up to the closing bracket, perhaps none. -/
def bracketed? {α : Type} (item : Reader α) (closing : Char) : Reader (List α) := fun s =>
  match h : (skipSpace s).1 with
  | [] => none
  | c :: t =>
    if c = closing then
      some ([], ⟨t, by have := (skipSpace s).2; simp only [h, List.length_cons] at this; omega⟩)
    else items? item closing s

/-- A key, a colon and a value. -/
def member? (value : Reader Json) : Reader (String × Json) := fun s =>
  match h : (skipSpace s).1 with
  | '"' :: t => do
    let (key, r) ← stringBody? t
    match h' : (skipSpace r.1).1 with
    | ':' :: u =>
      let (v, rest) ← value u
      return ((.ofList key, v), ⟨rest.1, by
        have := (skipSpace s).2; have := r.2; have := (skipSpace r.1).2; have := rest.2
        simp only [h, h', List.length_cons] at *; omega⟩)
    | _ => none
  | _ => none

/-- A word such as `null`, read as the value it stands for. -/
def word? (word : List Char) (value : Json) : Reader Json := fun s =>
  if h : word <+: s ∧ word ≠ [] then
    some (value, ⟨s.drop word.length, by
      have := List.length_pos_iff.2 h.2
      have := h.1.length_le
      simp only [List.length_drop]; omega⟩)
  else none

/-- A value with at most `depth` brackets around any part of it. -/
def value? (depth : Nat) : Reader Json := fun s =>
  let start := skipSpace s
  match h : start.1 with
  | [] => none
  | c :: r =>
    let behind (rest : Tail r) : Tail s := start.tail ⟨rest.1, by
      rw [h, List.length_cons]; exact Nat.lt_succ_of_lt rest.2⟩
    if c = '"' then do
      let (cs, rest) ← stringBody? r
      return (.string (.ofList cs), behind rest)
    else if c = '[' then
      match depth with
      | 0 => none
      | inner + 1 => do
        let (items, rest) ← bracketed? (value? inner) ']' r
        return (.array items, behind rest)
    else if c = '\x7b' then
      match depth with
      | 0 => none
      | inner + 1 => do
        let (entries, rest) ← bracketed? (member? (value? inner)) '\x7d' r
        return (ofEntries entries, behind rest)
    else do
      let (value, rest) ←
        if c = 'n' then word? "null".toList .null start.1
        else if c = 't' then word? "true".toList (.bool true) start.1
        else if c = 'f' then word? "false".toList (.bool false) start.1
        else (number? start.1).map fun (n, rest) => (.number n, rest)
      return (value, start.tail rest)

/-- The value that a whole text denotes, with at most `depth` brackets around
any part of it. -/
def readNested? (depth : Nat) (text : String) : Option Json := do
  let (value, rest) ← value? depth text.toList
  if (skipSpace rest.1).1.isEmpty then some value else none

/-- The deepest nesting of a locator. -/
def maxDepth : Nat := 127

/-- The value that a whole text denotes. -/
def read? (text : String) : Option Json :=
  readNested? maxDepth text

end XPathLocator.Json
