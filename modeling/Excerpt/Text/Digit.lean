/-!
# Digits of a base

A digit of a base up to sixteen is an ASCII digit or one of the letters from a to f in
either case. Its value is below the base. A run of digits counts from the left, and the
empty run counts as zero.
-/

namespace Excerpt.Text

/-- The value of a digit of base sixteen; no other character has a value below sixteen. -/
def digitValue (c : Char) : Nat :=
  if c.isDigit then c.toNat - '0'.toNat
  else if 'a' ≤ c ∧ c ≤ 'f' then c.toNat - 'a'.toNat + 10
  else if 'A' ≤ c ∧ c ≤ 'F' then c.toNat - 'A'.toNat + 10
  else 16

def digit? (base : Nat) (c : Char) : Option Nat :=
  if digitValue c < min base 16 then some (digitValue c) else none

def ofDigits? (base : Nat) (t : List Char) : Option Nat :=
  (t.mapM (digit? base)).map fun digits => digits.foldl (fun n d => base * n + d) 0

end Excerpt.Text
