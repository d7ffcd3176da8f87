import Excerpt.Json.Basic
import Excerpt.Text.Digit
import Excerpt.Text.Literal

/-!
# Reading JSON

The whole format is read, whoever wrote the text: spacing may stand before and after every value,
a character may be written by any of its escapes, and a number may have a power of ten. Digits
that stand behind the point or that a negative power moves there are its places.
-/

namespace Excerpt.Json

/-- A reader gives nothing if no item of its kind stands at the front. -/
abbrev Reader (α : Type) := List Char → Option (α × List Char)

namespace Reader

def isSpacing (c : Char) : Bool := c == ' ' || c == '\t' || c == '\n' || c == '\r'

def skipSpacing (t : List Char) : List Char := t.dropWhile isSpacing

/-- Items one behind the other up to what ends them, fewer than `fuel` of them. -/
def upTo {α : Type} (ending? : List Char → Option (List Char)) (item : Reader α) :
    (fuel : Nat) → Reader (List α)
  | 0, _ => none
  | fuel + 1, t =>
    match ending? t with
    | some t => some ([], t)
    | none => do
      let (first, t) ← item t
      let (others, t) ← upTo ending? item fuel t
      return (first :: others, t)

/-! ## Texts -/

/-- What an escape of one letter stands for. -/
def escaped? : Char → Option Char
  | '"' => some '"'
  | '\\' => some '\\'
  | '/' => some '/'
  | 'b' => some '\x08'
  | 'f' => some '\x0c'
  | 'n' => some '\n'
  | 'r' => some '\r'
  | 't' => some '\t'
  | _ => none

def codeUnit : Reader Nat
  | a :: b :: c :: d :: t => (Text.ofDigits? 16 [a, b, c, d]).map fun n => (n, t)
  | _ => none

def isHighHalf (n : Nat) : Bool := 0xd800 ≤ n && n < 0xdc00

def isLowHalf (n : Nat) : Bool := 0xdc00 ≤ n && n < 0xe000

/-- A character by its code point, which takes two halves if four digits are too few for it. -/
def coded : Reader Char := fun t => do
  let (n, t) ← codeUnit t
  if isHighHalf n then
    let (low, t) ← codeUnit (← Text.after? ['\\', 'u'] t)
    if isLowHalf low then
      return (Char.ofNat (0x10000 + 0x400 * (n - 0xd800) + (low - 0xdc00)), t)
    else none
  else if isLowHalf n then none
  else return (Char.ofNat n, t)

/-- Control characters have to be escaped. -/
def character : Reader Char
  | '\\' :: 'u' :: t => coded t
  | '\\' :: letter :: t => (escaped? letter).map fun c => (c, t)
  | c :: t => if c.toNat < 0x20 || c == '\\' then none else some (c, t)
  | [] => none

/-- A text after its opening quote. -/
def text : Reader String := fun t =>
  (upTo (Text.after? ['"']) character t.length t).map fun (read, t) => (String.ofList read, t)

/-! ## Numbers -/

def digits : Reader (List Char) := fun t =>
  if t.takeWhile Char.isDigit = [] then none
  else some (t.takeWhile Char.isDigit, t.dropWhile Char.isDigit)

/-- The digits before the point, of which a zero is never the first but stands alone. -/
def whole : Reader (List Char)
  | '0' :: t => some (['0'], t)
  | t => digits t

def fraction : Reader (List Char)
  | '.' :: t => digits t
  | t => some ([], t)

def signedPower : Reader Int
  | '-' :: t => (digits t).map fun (d, t) => (-Int.ofNat (Nat.ofDigitChars 10 d 0), t)
  | '+' :: t => (digits t).map fun (d, t) => (Int.ofNat (Nat.ofDigitChars 10 d 0), t)
  | t => (digits t).map fun (d, t) => (Int.ofNat (Nat.ofDigitChars 10 d 0), t)

/-- The power of ten, which is zero if none is written. -/
def power : Reader Int
  | 'e' :: t => signedPower t
  | 'E' :: t => signedPower t
  | t => some (0, t)

/-- The digits and places of a number times a power of ten. -/
def scaled (digits places : Nat) : (power : Int) → Nat × Nat
  | .ofNat n => (digits * Nat.pow 10 (n - places), places - n)
  | .negSucc n => (digits, places + (n + 1))

def unsigned : Reader (Nat × Nat) := fun t => do
  let (whole, t) ← whole t
  let (fraction, t) ← fraction t
  let (power, t) ← power t
  return (scaled (Nat.ofDigitChars 10 (whole ++ fraction) 0) fraction.length power, t)

def number : Reader Json
  | '-' :: t => (unsigned t).map fun ((n, places), t) => (.number (-Int.ofNat n) places, t)
  | t => (unsigned t).map fun ((n, places), t) => (.number (Int.ofNat n) places, t)

/-! ## Values -/

def keyword (word : String) (value : Json) : Reader Json := fun t =>
  (Text.after? word.toList t).map fun t => (value, t)

/-- A value without quotes or brackets. -/
def atom : Reader Json := fun t =>
  keyword "null" .null t <|> keyword "true" (.bool true) t <|> keyword "false" (.bool false) t <|>
    number t

def afterComma {α : Type} (item : Reader α) : Reader α := fun t => do
  item (skipSpacing (← Text.after? [','] (skipSpacing t)))

/-- A closing bracket, with spacing before it. -/
def closing? (bracket : Char) (t : List Char) : Option (List Char) :=
  Text.after? [bracket] (skipSpacing t)

/-- Items with commas between them, after the opening bracket. -/
def listed {α : Type} (bracket : Char) (item : Reader α) : Reader (List α) := fun t =>
  match closing? bracket t with
  | some t => some ([], t)
  | none => do
    let (first, t) ← item (skipSpacing t)
    let (others, t) ← upTo (closing? bracket) (afterComma item) t.length t
    return (first :: others, t)

def member (value : Reader Json) : Reader (String × Json) := fun t => do
  let (name, t) ← text (← Text.after? ['"'] t)
  let (value, t) ← value (skipSpacing (← Text.after? [':'] (skipSpacing t)))
  return ((name, value), t)

/-- A value with fewer than `depth` levels. -/
def value : (depth : Nat) → Reader Json
  | 0, _ => none
  | _ + 1, '"' :: t => (text t).map fun (text, t) => (.string text, t)
  | depth + 1, '[' :: t => (listed ']' (value depth) t).map fun (items, t) => (.array items, t)
  | depth + 1, '\x7b' :: t =>
    (listed '\x7d' (member (value depth)) t).map fun (members, t) => (.object members, t)
  | _ + 1, t => atom t

end Reader

/-- The value of a text, which holds nothing else. Each level of it has a bracket in the text. -/
def read (text : String) : Option Json := do
  let t := Reader.skipSpacing text.toList
  let (value, rest) ← Reader.value t.length t
  if Reader.skipSpacing rest = [] then some value else none

end Excerpt.Json
