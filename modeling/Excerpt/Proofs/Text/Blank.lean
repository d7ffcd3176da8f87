import Excerpt.Text.Blank
import Mathlib.Data.List.DropRight

/-!
# Blanks at the ends of a text

Blanks at either end of a text have no say in what trimming leaves of it, and what trimming
leaves has no blank at its ends, so that it is not trimmed further. Trimming takes away nothing
that is not a blank.
-/

namespace Excerpt.Text

variable {b b' t : List Char} {k : Nat}

theorem allBlank_iff : allBlank t = true ↔ ∀ c ∈ t, isBlank c = true := List.all_eq_true

theorem allBlank_append (s t : List Char) : allBlank (s ++ t) = (allBlank s && allBlank t) :=
  List.all_append

theorem isBlank_of_isDigit {c : Char} (h : c.isDigit = true) : isBlank c = false := by
  have hrange : 48 ≤ c.toNat ∧ c.toNat ≤ 57 := Char.isDigit_iff_toNat.1 h
  simp only [isBlank, Bool.or_eq_false_iff, Bool.and_eq_false_iff, decide_eq_false_iff_not,
    beq_eq_false_iff_ne]
  omega

/-! ## Blanks at the front -/

theorem trimLeft_append_blanks (hb : allBlank b = true) (t : List Char) :
    trimLeft (b ++ t) = trimLeft t := by
  induction b with
  | nil => rfl
  | cons c b ih =>
    obtain ⟨hc, hb⟩ : isBlank c = true ∧ allBlank b = true := by simpa using hb
    rw [List.cons_append, trimLeft_cons, if_pos hc, ih hb]

theorem exists_blanks (t : List Char) : ∃ b, allBlank b = true ∧ t = b ++ trimLeft t :=
  ⟨t.takeWhile isBlank, by simp [allBlank], List.takeWhile_append_dropWhile.symm⟩

theorem trimLeft_eq_nil_iff : trimLeft t = [] ↔ allBlank t = true :=
  List.dropWhile_eq_nil_iff.trans allBlank_iff.symm

theorem trimLeft_append (ht : allBlank t = false) (u : List Char) :
    trimLeft (t ++ u) = trimLeft t ++ u := by
  have hne : (trimLeft t).isEmpty = false := by
    rw [List.isEmpty_eq_false_iff, Ne, trimLeft_eq_nil_iff, ht]
    exact Bool.false_ne_true
  unfold trimLeft at hne ⊢
  rw [List.dropWhile_append, hne, if_neg Bool.false_ne_true]

theorem trimLeft_trimLeft (t : List Char) : trimLeft (trimLeft t) = trimLeft t :=
  List.dropWhile_idempotent isBlank t

/-- What one blank in front does not change is not changed by dropping blanks. -/
theorem drop_blanks_iff {P : List Char → Prop}
    (hP : ∀ c t, isBlank c = true → (P (c :: t) ↔ P t))
    (h : ∀ c ∈ t.take k, isBlank c = true) : P (t.drop k) ↔ P t := by
  induction k generalizing t with
  | zero => rfl
  | succ k ih =>
    cases t with
    | nil => rfl
    | cons c t =>
      have hc : isBlank c = true := h c (by simp)
      have ht : ∀ c ∈ t.take k, isBlank c = true := fun c hc => h c (by simp [hc])
      rw [List.drop_succ_cons, ih ht, hP c t hc]

/-! ## Blanks at the end -/

theorem trimRight_eq_nil_iff : trimRight t = [] ↔ allBlank t = true :=
  List.rdropWhile_eq_nil_iff.trans allBlank_iff.symm

theorem trimRight_append_blanks (hb : allBlank b = true) (t : List Char) :
    trimRight (t ++ b) = trimRight t := by
  unfold trimRight
  rw [List.reverse_append]
  have hreverse : ∀ c ∈ b.reverse, isBlank c = true := by simpa [allBlank_iff] using hb
  rw [List.dropWhile_append_of_pos hreverse]

theorem trimRight_cons (c : Char) (t : List Char) :
    trimRight (c :: t) = if allBlank (c :: t) then [] else c :: trimRight t := by
  by_cases hall : allBlank (c :: t) = true
  · rw [if_pos hall, trimRight_eq_nil_iff.2 hall]
  rw [if_neg hall]
  unfold trimRight
  rw [List.reverse_cons, List.dropWhile_append]
  by_cases ht : allBlank t = true
  · have hc : isBlank c = false := by simpa [ht] using hall
    have hnil : t.reverse.dropWhile isBlank = [] := by
      simpa using allBlank_iff.1 ht
    simp [hnil, hc]
  · have hne : (t.reverse.dropWhile isBlank).isEmpty = false := by
      simpa [allBlank_iff] using ht
    simp [hne]

theorem exists_blanks_behind (t : List Char) : ∃ b, allBlank b = true ∧ t = trimRight t ++ b :=
  ⟨t.rtakeWhile isBlank, allBlank_iff.2 fun _ => List.mem_rtakeWhile_imp,
    List.rdropWhile_append_rtakeWhile.symm⟩

theorem eq_nil_of_trimRight_eq_append {s : List Char} (hb : allBlank b = true)
    (h : trimRight t = s ++ b) : b = [] := by
  have hagain : trimRight (trimRight t) = trimRight t := List.rdropWhile_idempotent isBlank t
  rw [h, trimRight_append_blanks hb] at hagain
  have hfront : trimRight s <+: s := List.rdropWhile_prefix isBlank s
  have hlength := hfront.length_le
  rw [hagain, List.length_append] at hlength
  exact List.eq_nil_of_length_eq_zero (by omega)

/-! ## Both ends -/

theorem isBlank_head_of_trimLeft_eq {c : Char} (h : trimLeft (c :: t) = c :: t) :
    isBlank c = false := by
  have hhead := List.dropWhile_eq_self_iff.1 h (by simp)
  simpa using hhead

theorem trimLeft_trimRight (h : trimLeft t = t) : trimLeft (trimRight t) = trimRight t := by
  cases t with
  | nil => rfl
  | cons c t =>
    have hc := isBlank_head_of_trimLeft_eq h
    rw [trimRight_cons, if_neg (by simp [hc]), trimLeft_cons, if_neg (by simp [hc])]

theorem trim_trim (t : List Char) : trim (trim t) = trim t := by
  have hleft : trimLeft (trim t) = trim t := trimLeft_trimRight (trimLeft_trimLeft t)
  calc trimRight (trimLeft (trim t)) = trimRight (trimRight (trimLeft t)) := by rw [hleft, trim]
    _ = trimRight (trimLeft t) := List.rdropWhile_idempotent isBlank (trimLeft t)

theorem trim_append_blanks (hb : allBlank b = true) (hb' : allBlank b' = true) (t : List Char) :
    trim (b ++ (t ++ b')) = trim t := by
  unfold trim
  rw [trimLeft_append_blanks hb]
  cases ht : allBlank t with
  | true =>
    have hall : allBlank (t ++ b') = true := by rw [allBlank_append, ht, hb', Bool.and_self]
    rw [trimLeft_eq_nil_iff.2 hall, trimLeft_eq_nil_iff.2 ht]
  | false => rw [trimLeft_append ht, trimRight_append_blanks hb']

theorem mem_of_mem_trim {c : Char} (h : c ∈ trim t) : c ∈ t := by
  have hright : trim t <+: trimLeft t := List.rdropWhile_prefix isBlank (trimLeft t)
  have hleft : trimLeft t <:+ t := List.dropWhile_suffix isBlank
  exact hleft.subset (hright.subset h)

theorem trim_eq_self (h : ∀ c ∈ t, isBlank c = false) : trim t = t := by
  have hleft : trimLeft t = t := List.dropWhile_eq_self_iff.2 fun hl => by simp [h]
  have hright : trimRight t = t := List.rdropWhile_eq_self_iff.2 fun hl => by simp [h]
  rw [trim, hleft, hright]

end Excerpt.Text
