import Excerpt.Numbering
import Excerpt.Proofs.Selector.Grammar
import Excerpt.Proofs.Text.Blank
import Excerpt.Proofs.Text.Decimal
import Mathlib.Tactic.SplitIfs

/-!
# Writing numberings and reading them back

A text counts from one if it is a word for yes, and from the number it names if it is a run of
digits, with at most one plus sign in front, whose number is not zero and stays below `2 ^ 64`. Only
one other word is read, and all else turns the numbers off. What a numbering is written as is read
back as the same one, unless it counts from a number that no text can ask for.
-/

namespace Excerpt.Numbering

open Text (trim decimal)

variable {t w : List Char} {m n first : Nat} {text : String} {numbering : Numbering}

/-- A run of ASCII digits that reads as the given number, with at most one plus sign in front. -/
def IsSigned (t : List Char) (n : Nat) : Prop :=
  IsNumber t n ∨ ∃ digits, t = '+' :: digits ∧ IsNumber digits n

def IsYes (t : List Char) : Prop := t = "true".toList ∨ t = "yes".toList ∨ t = "on".toList

/-- Whether a text without blanks around it asks for lines counted from `n` on. -/
def CountsFrom (t : List Char) (n : Nat) : Prop :=
  IsYes t ∧ n = 1 ∨ IsSigned t n ∧ 1 ≤ n ∧ n < UInt64.size

/-- Whether a text can ask for the numbering. -/
def InRange : Numbering → Prop
  | sequential first => 1 ≤ first ∧ first < UInt64.size
  | off => True
  | original => True

/-! ## Numbers with a sign -/

theorem signedNumber?_eq_some_iff : signedNumber? t = some n ↔ IsSigned t n := by
  unfold signedNumber?
  split
  · rename_i digits
    constructor
    · exact fun h => .inr ⟨digits, rfl, number?_eq_some_iff.1 h⟩
    · rintro (h | ⟨digits', hdigits, h⟩)
      · exact absurd (h.2.1 '+' List.mem_cons_self) (by decide)
      · obtain rfl := (List.cons.inj hdigits).2
        exact number?_eq_some_iff.2 h
  · rename_i hplus
    constructor
    · exact fun h => .inl (number?_eq_some_iff.1 h)
    · rintro (h | ⟨digits, rfl, -⟩)
      · exact number?_eq_some_iff.2 h
      · exact absurd rfl (hplus digits)

theorem IsSigned.unique (h : IsSigned t m) (h' : IsSigned t n) : m = n :=
  Option.some.inj ((signedNumber?_eq_some_iff.2 h).symm.trans (signedNumber?_eq_some_iff.2 h'))

theorem IsSigned.ne_of_none (h : IsSigned t n) (hw : signedNumber? w = none) : t ≠ w := by
  rintro rfl
  exact Option.some_ne_none n ((signedNumber?_eq_some_iff.2 h).symm.trans hw)

theorem IsSigned.ne_original (h : IsSigned t n) : t ≠ "original".toList :=
  h.ne_of_none (by decide)

theorem IsSigned.not_isYes (h : IsSigned t n) : ¬ IsYes t := by
  rintro (htrue | hyes | hon)
  · exact h.ne_of_none (by decide) htrue
  · exact h.ne_of_none (by decide) hyes
  · exact h.ne_of_none (by decide) hon

theorem IsYes.ne_original (h : IsYes t) : t ≠ "original".toList := by
  rcases h with rfl | rfl | rfl
  · decide
  · decide
  · decide

/-! ## Texts that are read -/

theorem ofText_eq_original_iff :
    ofText text = original ↔ trim text.toList = "original".toList := by
  dsimp only [ofText]
  constructor
  · intro h
    split_ifs at h with horiginal
    · exact horiginal
    · split at h
      · split_ifs at h
      · cases h
  · exact fun h => if_pos h

theorem countsFrom_of_ofText (h : ofText text = sequential n) :
    CountsFrom (trim text.toList) n := by
  dsimp only [ofText] at h
  split_ifs at h with horiginal hyes
  · exact .inl ⟨hyes, (sequential.inj h).symm⟩
  · split at h
    · rename_i m hm
      split_ifs at h with hrange
      obtain rfl := sequential.inj h
      exact .inr ⟨signedNumber?_eq_some_iff.1 hm, hrange.1, Offset.le_limit_iff.1 hrange.2⟩
    · cases h

theorem ofText_of_countsFrom (h : CountsFrom (trim text.toList) n) :
    ofText text = sequential n := by
  dsimp only [ofText]
  rcases h with ⟨hyes, rfl⟩ | ⟨hsigned, hpos, hlt⟩
  · rw [if_neg hyes.ne_original]
    exact if_pos hyes
  · rw [if_neg hsigned.ne_original, signedNumber?_eq_some_iff.2 hsigned]
    refine (if_neg hsigned.not_isYes).trans ?_
    exact if_pos ⟨hpos, Offset.le_limit_iff.2 hlt⟩

theorem ofText_eq_sequential_iff :
    ofText text = sequential n ↔ CountsFrom (trim text.toList) n :=
  ⟨countsFrom_of_ofText, ofText_of_countsFrom⟩

theorem ofText_eq_off_iff :
    ofText text = off ↔
      trim text.toList ≠ "original".toList ∧ ∀ n, ¬ CountsFrom (trim text.toList) n := by
  simp only [Ne, ← ofText_eq_original_iff, ← ofText_eq_sequential_iff]
  cases ofText text <;> simp

theorem inRange_ofText (text : String) : (ofText text).InRange := by
  cases h : ofText text with
  | off => trivial
  | original => trivial
  | sequential n =>
    rcases countsFrom_of_ofText h with ⟨-, rfl⟩ | ⟨-, hrange⟩
    · exact ⟨Nat.le_refl 1, by decide⟩
    · exact hrange

theorem pos_of_ofText (h : ofText text = sequential first) : 0 < first := by
  have hrange := inRange_ofText text
  rw [h] at hrange
  exact hrange.1

/-- Zero and the numbers past the largest are no start. -/
theorem ofText_eq_off_of_signed (h : IsSigned (trim text.toList) n)
    (hn : ¬ (sequential n).InRange) : ofText text = off := by
  refine ofText_eq_off_iff.2 ⟨h.ne_original, fun m hm => ?_⟩
  rcases hm with ⟨hyes, -⟩ | ⟨hsigned, hrange⟩
  · exact h.not_isYes hyes
  · obtain rfl := h.unique hsigned
    exact hn hrange

/-! ## Numberings that are written -/

theorem isSigned_decimal (n : Nat) : IsSigned (decimal n) n :=
  .inl (number?_eq_some_iff.1 (Text.number?_decimal n))

theorem trim_decimal (n : Nat) : trim (decimal n) = decimal n :=
  Text.trim_eq_self fun _ hc => Text.isBlank_of_isDigit (Text.isDigit_of_mem_decimal hc)

theorem ofText_text (h : numbering.InRange) : ofText numbering.text = numbering := by
  cases numbering with
  | off => decide
  | original => decide
  | sequential first =>
    refine ofText_of_countsFrom (.inr ⟨?_, h⟩)
    rw [text, String.toList_ofList, trim_decimal]
    exact isSigned_decimal first

theorem ofText_text_iff : ofText numbering.text = numbering ↔ numbering.InRange :=
  ⟨fun h => h ▸ inRange_ofText numbering.text, ofText_text⟩

/-- What is read from a text turns the numbers off, keeps those of the file, or counts from a number
from one on that stays below `2 ^ 64`: from the one that the text names after an optional plus sign,
or from one for a word for yes. A number too large for that turns the numbers off. What was read is
written as a text that is read as the same again. -/
theorem text_stable (text : String) :
    (ofText text = original ∨ ofText text = off ∨
      ∃ n, ofText text = sequential n ∧ 1 ≤ n ∧ n < UInt64.size) ∧
    ofText text ≠ sequential 0 ∧
    (∀ n, ofText text = sequential n ↔ CountsFrom (trim text.toList) n) ∧
    (ofText text = original ↔ trim text.toList = "original".toList) ∧
    (∀ n, IsSigned (trim text.toList) n → UInt64.size ≤ n → ofText text = off) ∧
    ofText (ofText text).text = ofText text := by
  have hrange := inRange_ofText text
  refine ⟨?_, ?_, fun n => ofText_eq_sequential_iff, ofText_eq_original_iff,
    fun n hsigned hlarge => ?_, ofText_text_iff.2 hrange⟩
  · cases h : ofText text with
    | original => exact .inl rfl
    | off => exact .inr (.inl rfl)
    | sequential n =>
      rw [h] at hrange
      exact .inr (.inr ⟨n, rfl, hrange⟩)
  · intro hzero
    exact Nat.lt_irrefl 0 (pos_of_ofText hzero)
  · exact ofText_eq_off_of_signed hsigned fun hn => Nat.not_lt.2 hlarge hn.2

/-- The largest number with a sign, zeros and blanks around it, the one that follows it, and a word
for yes. -/
theorem text_stable_of_largest :
    ofText "\u00a0+0018446744073709551615\n" = sequential 18446744073709551615 ∧
      IsSigned (trim "18446744073709551616".toList) 18446744073709551616 ∧
      UInt64.size ≤ 18446744073709551616 ∧ ofText "18446744073709551616" = off ∧
      ofText " yes" = sequential 1 ∧ (ofText " yes").text = "1" ∧ ofText "1" = sequential 1 := by
  obtain ⟨-, -, hlargest, -⟩ := text_stable "\u00a0+0018446744073709551615\n"
  obtain ⟨-, -, -, -, hlarge, -⟩ := text_stable "18446744073709551616"
  obtain ⟨-, -, hyes, -, -, hagain⟩ := text_stable " yes"
  have hsigned : IsSigned (trim "18446744073709551616".toList) 18446744073709551616 :=
    signedNumber?_eq_some_iff.1 (by decide)
  have hone : ofText " yes" = sequential 1 := (hyes 1).2 (.inl ⟨.inr (.inl (by decide)), rfl⟩)
  have hcounts : CountsFrom (trim "\u00a0+0018446744073709551615\n".toList)
      18446744073709551615 :=
    .inr ⟨signedNumber?_eq_some_iff.1 (by decide), by decide, by decide⟩
  rw [hone] at hagain
  exact ⟨(hlargest _).2 hcounts, hsigned, Nat.le_refl _, hlarge _ hsigned (Nat.le_refl _), hone,
    congrArg Numbering.text hone, hagain⟩

end Excerpt.Numbering
