import Excerpt.Text.Decimal
import Mathlib.Data.List.Basic

/-!
# How numbers are written

The digits that a number is written with read back as this number, and none of them is a zero in
front. A greater number never has fewer digits, so that a field with room for the greatest of some
numbers has room for all of them.
-/

namespace Excerpt.Text

/-- A number in digits, of which the first is a zero only if there is no other. -/
structure IsDecimal (t : List Char) (n : Nat) : Prop where
  number : number? t = some n
  eq_zero_of_head : t.head? = some '0' → t = ['0']

theorem isDigit_of_mem_decimal {n : Nat} {c : Char} (h : c ∈ decimal n) :
    c.isDigit = true := Nat.isDigit_of_mem_toDigits (by omega) (by omega) h

theorem ofDigitChars_decimal (n : Nat) : Nat.ofDigitChars 10 (decimal n) 0 = n :=
  Nat.ofDigitChars_toDigits (by omega) (by omega)

/-- No number has a zero in front but zero itself. -/
theorem eq_zero_of_head?_decimal {n : Nat} (h : (decimal n).head? = some '0') : n = 0 := by
  induction n using Nat.strongRecOn with
  | ind n ih =>
    rw [decimal] at h
    by_cases hn : n < 10
    · have hdigit : ∀ m < 10, [Nat.digitChar m].head? = some '0' → m = 0 := by decide
      rw [Nat.toDigits_of_lt_base hn] at h
      exact hdigit n hn h
    · rw [Nat.toDigits_of_base_le (by omega) (by omega),
        List.head?_append_of_ne_nil _ Nat.toDigits_ne_nil] at h
      have hzero := ih (n / 10) (by omega) h
      omega

theorem isDecimal_decimal (n : Nat) : IsDecimal (decimal n) n := by
  refine ⟨number?_decimal n, fun h => ?_⟩
  rw [eq_zero_of_head?_decimal h]
  rfl

theorem digitCount_le_digitCount {m n : Nat} (h : m ≤ n) : digitCount m ≤ digitCount n := by
  have hpos : 0 < digitCount n := List.length_pos_iff.2 Nat.toDigits_ne_nil
  have hlt := (Nat.length_toDigits_le_iff (by omega) hpos).1 (Nat.le_refl (digitCount n))
  exact (Nat.length_toDigits_le_iff (by omega) hpos).2 (Nat.lt_of_le_of_lt h hlt)

theorem length_padLeft {width : Nat} {t : List Char} (h : t.length ≤ width) :
    (padLeft width t).length = width := by
  rw [padLeft, List.length_append, List.length_replicate, Nat.sub_add_cancel h]

end Excerpt.Text
