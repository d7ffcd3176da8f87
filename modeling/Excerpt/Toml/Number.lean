import Excerpt.Text.Decimal
import Excerpt.Text.Digit

/-!
# Numbers of a TOML document

Whole numbers fit into 64 bits. A number with a fraction or an exponent is the nearest float, and
the shortest decimal that is nearest to a float is its text. All of this is done with whole
numbers alone: a fraction is a pair of them, and a float counts how often the smallest float goes
into it. One divided by the smallest float is the scale, and every float is below the bound.
-/

namespace Excerpt.Toml

def digits? (base : Nat) (t : List Char) : Option Nat :=
  -- single underscores stand between digits at will
  let parts := t.splitOn '_'
  if parts.any List.isEmpty then none else Text.ofDigits? base parts.flatten

def decimal? : List Char → Option Nat
  | ['0'] => some 0
  | '0' :: _ => none
  | t => digits? 10 t

def integer? (t : List Char) : Option Int := do
  let n : Int ← match t with
    | '0' :: 'x' :: t => (digits? 16 t).map Int.ofNat
    | '0' :: 'o' :: t => (digits? 8 t).map Int.ofNat
    | '0' :: 'b' :: t => (digits? 2 t).map Int.ofNat
    | '-' :: t => (decimal? t).map fun n => -Int.ofNat n
    | '+' :: t => (decimal? t).map Int.ofNat
    | t => (decimal? t).map Int.ofNat
  if -Int.pow 2 63 ≤ n ∧ n < Int.pow 2 63 then some n else none

def padded (width n : Nat) : List Char :=
  List.replicate (width - (Text.decimal n).length) '0' ++ Text.decimal n

def withoutLastZeros (t : List Char) : List Char := (t.reverse.dropWhile (· == '0')).reverse

/-! ## Decimals -/

/-- The number `digits * 10 ^ exponent`. -/
structure Decimal where
  digits : Nat
  exponent : Int
deriving DecidableEq, Repr

namespace Decimal

def exponent? : List Char → Option Int
  | [] => some 0
  | _ :: '-' :: t => (digits? 10 t).map fun n => -Int.ofNat n
  | _ :: '+' :: t => (digits? 10 t).map Int.ofNat
  | _ :: t => (digits? 10 t).map Int.ofNat

def ofText? (t : List Char) : Option Decimal := do
  let front := t.takeWhile fun c => c != 'e' && c != 'E'
  let whole ← decimal? (front.takeWhile (· != '.'))
  let exponent ← exponent? (t.drop front.length)
  match front.dropWhile (· != '.') with
  | [] => if front.length = t.length then none else some ⟨whole, exponent⟩
  | _ :: fraction =>
    let places := (fraction.filter (· != '_')).length
    return ⟨whole * Nat.pow 10 places + (← digits? 10 fraction), exponent - places⟩

/-- Without an exponent, and without zeros at the end of the fraction. -/
def text (decimal : Decimal) : List Char :=
  let places := (-decimal.exponent).toNat
  let t := padded (places + 1) (decimal.digits * Nat.pow 10 decimal.exponent.toNat)
  match withoutLastZeros (t.drop (t.length - places)) with
  | [] => t.take (t.length - places)
  | fraction => t.take (t.length - places) ++ '.' :: fraction

end Decimal

/-! ## Floats -/

/-- The nearest whole number to a fraction, and the even one if there are two. -/
def nearest (numerator denominator : Nat) : Nat :=
  let n := numerator / denominator
  let rest := 2 * (numerator % denominator)
  if rest < denominator || (rest == denominator && n % 2 == 0) then n else n + 1

namespace Float

def bound : Nat := Nat.pow 2 2098

def scale : Nat := Nat.pow 2 1074

def ofFraction (numerator denominator : Nat) : Nat :=
  -- only the first 53 binary digits count
  let unit := Nat.pow 2 (Nat.log2 (numerator * scale / denominator) - 52)
  nearest (numerator * scale) (denominator * unit) * unit

def ofDecimal (decimal : Decimal) : Nat :=
  ofFraction (decimal.digits * Nat.pow 10 decimal.exponent.toNat)
    (Nat.pow 10 (-decimal.exponent).toNat)

/-- The float that a decimal means, if it is not too large for any. -/
def ofDecimal? (decimal : Decimal) : Option Nat :=
  -- the first two cases keep the powers of ten small
  let places := Text.digitCount decimal.digits + decimal.exponent
  if decimal.digits = 0 ∨ places < -330 then some 0
  else if 310 < places then none
  else if ofDecimal decimal < bound then some (ofDecimal decimal)
  else none

/-- A decimal of `count` digits that means the float. Of the two next to the float the nearer one
comes first. -/
def ofDigits? (float count : Nat) : Option Decimal :=
  let scaled := float * Nat.pow 10 340
  let place := Text.digitCount (scaled / scale) - count
  let low := scaled / (scale * Nat.pow 10 place)
  let isLower := 2 * scaled < (2 * low + 1) * (scale * Nat.pow 10 place)
  let candidates := if isLower then [low, low + 1] else [low + 1, low]
  (candidates.map fun digits => ⟨digits, place - 340⟩).find? (ofDecimal · == float)

/-- Seventeen digits are always enough. -/
def shortest (float : Nat) : Decimal :=
  ((List.range 17).findSome? fun n => ofDigits? float (n + 1)).getD ⟨0, 0⟩

end Float

/-- Only a negative number may be too large for a float. -/
def unsigned? (negative : Bool) (t : List Char) : Option (List Char) :=
  if t = "inf".toList then some "inf".toList
  else do
    let decimal ← Decimal.ofText? t
    match Float.ofDecimal? decimal with
    | some float => some (Float.shortest float).text
    | none => if negative then some "inf".toList else none

def float? (t : List Char) : Option String :=
  -- what is no number has no sign
  if t ∈ ["nan".toList, "+nan".toList, "-nan".toList] then some "NaN"
  else
    match t with
    | '-' :: t => (unsigned? true t).map fun text => String.ofList ('-' :: text)
    | '+' :: t => (unsigned? false t).map String.ofList
    | t => (unsigned? false t).map String.ofList

end Excerpt.Toml
