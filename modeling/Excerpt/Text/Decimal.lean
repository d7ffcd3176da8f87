/-!
# Decimal numbers

A number is written as a run of ASCII digits. Reading puts no bound on its length or its
value and accepts leading zeros, while writing never produces one except for zero itself.
The number of digits written is counted by repeated division.
-/

namespace Excerpt.Text

/-- The value of a run of ASCII digits, if the text is a non-empty one. -/
def number? (t : List Char) : Option Nat :=
  if t ≠ [] ∧ t.all Char.isDigit then some (Nat.ofDigitChars 10 t 0) else none

def decimal (n : Nat) : List Char := Nat.toDigits 10 n

def digitCount (n : Nat) : Nat := (decimal n).length

/-- Written to the right end of a field of at least `width` characters. -/
def padLeft (width : Nat) (t : List Char) : List Char :=
  List.replicate (width - t.length) ' ' ++ t

theorem number?_decimal (n : Nat) : number? (decimal n) = some n := by
  have h : (Nat.toDigits 10 n).all Char.isDigit = true := by
    simpa using fun c hc => Nat.isDigit_of_mem_toDigits (by omega) (by omega) hc
  simp [number?, decimal, Nat.toDigits_ne_nil, h,
    Nat.ofDigitChars_toDigits (b := 10) (n := n) (by omega) (by omega)]

theorem padLeft_of_le {width : Nat} {t : List Char} (h : width ≤ t.length) :
    padLeft width t = t := by simp [padLeft, Nat.sub_eq_zero_of_le h]

end Excerpt.Text
