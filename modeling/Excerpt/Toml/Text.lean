import Excerpt.Text.Digit
import Excerpt.Text.Space

/-!
# Texts of a TOML document

A text stands between double quotes, with escapes, or between single quotes, without any. Between
three quotes on either side it may go on over many lines. Control characters other than the tab
stand in no text. A reader takes its item from the front of a text and gives it with what follows.
-/

namespace Excerpt.Toml

/-- A reader gives nothing if no item of its kind stands at the front. -/
abbrev Reader (α : Type) := List Char → Option (α × List Char)

def isPlain (c : Char) : Bool := c == '\t' || (0x20 ≤ c.toNat && c.toNat != 0x7f)

def plain : Reader (List Char)
  | [] => none
  | c :: t => if isPlain c then some ([c], t) else none

def lineFeed : Reader (List Char)
  | '\n' :: t => some (['\n'], t)
  | '\r' :: '\n' :: t => some (['\n'], t)
  | _ => none

def plainOrFeed : Reader (List Char) := fun t => lineFeed t <|> plain t

/-! ## Escapes -/

def escaped? : Char → Option Char
  | 'b' => some '\x08'
  | 't' => some '\t'
  | 'n' => some '\n'
  | 'f' => some '\x0c'
  | 'r' => some '\r'
  | '"' => some '"'
  | '\\' => some '\\'
  | _ => none

def coded (count : Nat) : Reader (List Char) := fun t => do
  guard ((t.take count).length = count)
  let n ← Text.ofDigits? 16 (t.take count)
  if n.isValidChar then some ([Char.ofNat n], t.drop count) else none

def escape : Reader (List Char)
  | [] => none
  | 'u' :: t => coded 4 t
  | 'U' :: t => coded 8 t
  | c :: t => (escaped? c).map fun c => ([c], t)

def skipSpacing : List Char → List Char
  | ' ' :: t => skipSpacing t
  | '\t' :: t => skipSpacing t
  | '\n' :: t => skipSpacing t
  | '\r' :: '\n' :: t => skipSpacing t
  | t => t

/-- A backslash at the end of a line stands for nothing, and nor does what is blank after it. -/
def continued : Reader (List Char) := fun t =>
  (lineFeed (Text.skipSpace t)).map fun (_, t) => ([], skipSpacing t)

def plainOrEscape : Reader (List Char)
  | '\\' :: t => escape t
  | t => plain t

def plainOrEscapeOrFeed : Reader (List Char)
  | '\\' :: t => continued t <|> escape t
  | t => plainOrFeed t

/-! ## Quotes -/

def closing (quote : Char) : Reader (List Char)
  | [] => none
  | c :: t => if c = quote then some ([], t) else none

/-- Three quotes close a text. Up to two more before them are still part of it. -/
def closingThree (quote : Char) : Reader (List Char) := fun t =>
  let count := min 5 (t.takeWhile (· == quote)).length
  if count < 3 then none else some (List.replicate (count - 3) quote, t.drop count)

/-- Pieces one after the other, `fuel` of them at most, until they are closed. -/
def pieces (close piece : Reader (List Char)) : (fuel : Nat) → Reader (List Char)
  | 0, _ => none
  | fuel + 1, t =>
    match close t with
    | some (last, t) => some (last, t)
    | none => do
      let (first, t) ← piece t
      let (others, t) ← pieces close piece fuel t
      return (first ++ others, t)

def quoted (close piece : Reader (List Char)) : Reader String := fun t =>
  -- no piece is without a character
  (pieces close piece t.length t).map fun (text, t) => (String.ofList text, t)

def withoutFeed (t : List Char) : List Char := ((lineFeed t).map Prod.snd).getD t

def lineText : Reader String
  | '"' :: t => quoted (closing '"') plainOrEscape t
  | '\'' :: t => quoted (closing '\'') plain t
  | _ => none

def text : Reader String
  | '"' :: '"' :: '"' :: t => quoted (closingThree '"') plainOrEscapeOrFeed (withoutFeed t)
  | '\'' :: '\'' :: '\'' :: t => quoted (closingThree '\'') plainOrFeed (withoutFeed t)
  | t => lineText t

end Excerpt.Toml
