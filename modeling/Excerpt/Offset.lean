/-!
# Offsets

An offset is a position counted from zero, in a file or in a sample, and a line number is
one counted from one. Both stay below `2 ^ 64`. A sum that would pass the largest one
stops there.
-/

namespace Excerpt.Offset

def limit : Nat := UInt64.size - 1

def clamp (n : Nat) : Nat := min n limit

def add (a b : Nat) : Nat := clamp (a + b)

theorem le_limit_iff {n : Nat} : n ≤ limit ↔ n < UInt64.size :=
  Nat.le_sub_one_iff_lt (by decide)

theorem clamp_le_limit (n : Nat) : clamp n ≤ limit := Nat.min_le_right _ _

theorem clamp_of_le {n : Nat} (h : n ≤ limit) : clamp n = n := Nat.min_eq_left h

theorem add_of_le {a b : Nat} (h : a + b ≤ limit) : add a b = a + b := clamp_of_le h

end Excerpt.Offset
