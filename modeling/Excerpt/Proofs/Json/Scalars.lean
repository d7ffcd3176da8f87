import Excerpt.Json.Printer
import Excerpt.Proofs.Json.Reader
import Excerpt.Proofs.Text.Decimal
import Mathlib.Data.List.Basic
import Mathlib.Tactic.SplitIfs

/-!
# Reading texts and numbers back

The reader finds what a printer wrote one item at a time, whatever follows: the escape of a
character is read as that character. A number would go on with a digit, a point or a power of ten,
so it is read back where none of these follows.
-/

namespace Excerpt.Json

/-! ## What a number is written as -/

/-- The digits of a number before and behind its point. -/
structure Sides (n places : Nat) (whole fraction : List Char) : Prop where
  isDigit : ∀ c ∈ whole ++ fraction, c.isDigit = true
  value : Nat.ofDigitChars 10 (whole ++ fraction) 0 = n
  length_fraction : fraction.length = places
  whole_ne_nil : whole ≠ []
  eq_zero_of_head : whole.head? = some '0' → whole = ['0']

def pointed (fraction : List Char) : List Char :=
  if fraction = [] then [] else '.' :: fraction

/-- The digits of a number behind as many zeros as put one digit before the point. -/
def padded (n places : Nat) : List Char :=
  List.replicate (places + 1 - (Text.decimal n).length) '0' ++ Text.decimal n

theorem isDigit_of_mem_padded {n places : Nat} {c : Char} (h : c ∈ padded n places) :
    c.isDigit = true := by
  rcases List.mem_append.1 h with h | h
  · rw [List.eq_of_mem_replicate h]
    rfl
  · exact Text.isDigit_of_mem_decimal h

theorem ofDigitChars_padded (n places : Nat) : Nat.ofDigitChars 10 (padded n places) 0 = n := by
  simp [padded, Nat.ofDigitChars_append, Nat.ofDigitChars_replicate_zero, Text.ofDigitChars_decimal]

theorem lt_length_padded (n places : Nat) : places < (padded n places).length := by
  rw [padded, List.length_append, List.length_replicate]
  omega

/-- A zero stands in front only if there is no other digit before the point. -/
theorem length_padded_of_head {n places : Nat} (h : (padded n places).head? = some '0')
    (hplaces : places ≠ 0) : (padded n places).length = places + 1 := by
  by_cases hlong : places < (Text.decimal n).length
  · have hpadded : padded n places = Text.decimal n := by
      simp [padded, Nat.sub_eq_zero_of_le hlong]
    rw [hpadded] at h
    rw [Text.eq_zero_of_head?_decimal h] at hlong
    exact absurd (Nat.lt_one_iff.1 hlong) hplaces
  · rw [padded, List.length_append, List.length_replicate]
    omega

theorem sides_decimal (n : Nat) : Sides n 0 (Text.decimal n) [] where
  isDigit c hc := Text.isDigit_of_mem_decimal (by simpa using hc)
  value := by rw [List.append_nil, Text.ofDigitChars_decimal]
  length_fraction := rfl
  whole_ne_nil := Nat.toDigits_ne_nil
  eq_zero_of_head h := by rw [Text.eq_zero_of_head?_decimal h]; rfl

theorem sides_padded {n places : Nat} (hplaces : places ≠ 0) :
    Sides n places ((padded n places).take ((padded n places).length - places))
      ((padded n places).drop ((padded n places).length - places)) where
  isDigit c hc := isDigit_of_mem_padded (by rwa [List.take_append_drop] at hc)
  value := by rw [List.take_append_drop, ofDigitChars_padded]
  length_fraction := by
    have := lt_length_padded n places
    rw [List.length_drop]
    omega
  whole_ne_nil := by
    have := lt_length_padded n places
    rw [ne_eq, List.take_eq_nil_iff, not_or]
    exact ⟨by omega, List.ne_nil_of_length_pos (by omega)⟩
  eq_zero_of_head h := by
    have hlength := lt_length_padded n places
    obtain ⟨c, d, hpadded⟩ := List.exists_cons_of_length_pos (Nat.zero_lt_of_lt hlength)
    rw [List.head?_take, if_neg (by omega)] at h
    rw [length_padded_of_head h hplaces, Nat.add_sub_cancel_left]
    rw [hpadded] at h ⊢
    cases h
    rfl

theorem exists_sides (n places : Nat) :
    ∃ w f, Sides n places w f ∧ positional n places = w ++ pointed f := by
  by_cases hplaces : places = 0
  · subst hplaces
    exact ⟨_, _, sides_decimal n, by simp [positional, pointed]⟩
  · have hsides := sides_padded (n := n) hplaces
    refine ⟨_, _, hsides, ?_⟩
    have hne : (padded n places).drop ((padded n places).length - places) ≠ [] := by
      rw [← List.length_pos_iff, hsides.length_fraction]
      exact Nat.pos_of_ne_zero hplaces
    rw [positional, if_neg hplaces, pointed, if_neg hne]
    rfl

theorem exists_positional_eq_cons (n places : Nat) :
    ∃ c d, positional n places = c :: d ∧ c.isDigit = true := by
  obtain ⟨w, f, hsides, heq⟩ := exists_sides n places
  obtain ⟨c, w, rfl⟩ := List.exists_cons_of_ne_nil hsides.whole_ne_nil
  exact ⟨c, _, heq, hsides.isDigit c (by simp)⟩

namespace Reader

theorem after?_self (c : Char) (t : List Char) : Text.after? [c] (c :: t) = some t :=
  Text.after?_append [c] t

theorem follows_flatMap {α : Type} {written : α → List Char} {items : List α}
    {Follows : List Char → Prop} (hfollows : ∀ x ∈ items, ∀ t, Follows (written x ++ t))
    {t : List Char} (hend : Follows t) : Follows (items.flatMap written ++ t) := by
  cases items with
  | nil => exact hend
  | cons x items =>
    rw [List.flatMap_cons, List.append_assoc]
    exact hfollows x List.mem_cons_self _

/-- Items that are read back one by one are read back together, up to what ends them. `Follows` is
what the reader of an item relies on in the text behind it. -/
theorem upTo_flatMap {α : Type} {ending? : List Char → Option (List Char)} {item : Reader α}
    {written : α → List Char} {items : List α} (Follows : List Char → Prop)
    (hitem : ∀ x ∈ items, ∀ t, Follows t → item (written x ++ t) = some (x, t))
    (hopen : ∀ x ∈ items, ∀ t, ending? (written x ++ t) = none)
    (hfollows : ∀ x ∈ items, ∀ t, Follows (written x ++ t))
    (hwritten : ∀ x ∈ items, written x ≠ [])
    {t rest : List Char} (hending : ending? t = some rest) (hend : Follows t) (ht : t ≠ [])
    {fuel : Nat} (hfuel : (items.flatMap written ++ t).length ≤ fuel) :
    upTo ending? item fuel (items.flatMap written ++ t) = some (items, rest) := by
  induction items generalizing fuel with
  | nil =>
    have hpos : 0 < fuel := Nat.lt_of_lt_of_le (List.length_pos_iff.2 ht) hfuel
    obtain ⟨fuel, rfl⟩ := Nat.exists_eq_add_one_of_ne_zero (Nat.ne_of_gt hpos)
    simp [upTo, hending]
  | cons x items ih =>
    have hx : 0 < (written x).length := List.length_pos_iff.2 (hwritten x List.mem_cons_self)
    rw [List.flatMap_cons, List.append_assoc] at hfuel ⊢
    rw [List.length_append] at hfuel
    obtain ⟨fuel, rfl⟩ := Nat.exists_eq_add_one_of_ne_zero (show fuel ≠ 0 by omega)
    have hnext : Follows (items.flatMap written ++ t) :=
      follows_flatMap (fun y hy => hfollows y (List.mem_cons_of_mem x hy)) hend
    have hothers := ih (fun y hy => hitem y (List.mem_cons_of_mem x hy))
      (fun y hy => hopen y (List.mem_cons_of_mem x hy))
      (fun y hy => hfollows y (List.mem_cons_of_mem x hy))
      (fun y hy => hwritten y (List.mem_cons_of_mem x hy)) (show _ ≤ fuel by omega)
    rw [upTo, hopen x List.mem_cons_self]
    simp [hitem x List.mem_cons_self _ hnext, hothers]

/-! ## Texts -/

theorem codeUnit_control {n : Nat} (h : n < 0x20) (t : List Char) :
    codeUnit ('0' :: '0' :: hexDigit (n / 16) :: hexDigit n :: t) = some (n, t) := by
  have hdigits : ∀ m < 0x20, Text.ofDigits? 16 ['0', '0', hexDigit (m / 16), hexDigit m] = some m :=
    by decide
  rw [codeUnit, hdigits n h]
  rfl

theorem coded_control {c : Char} (h : c.toNat < 0x20) (t : List Char) :
    coded ('0' :: '0' :: hexDigit (c.toNat / 16) :: hexDigit c.toNat :: t) = some (c, t) := by
  have hhigh : isHighHalf c.toNat = false := by
    simp only [isHighHalf, Bool.and_eq_false_iff, decide_eq_false_iff_not]
    omega
  have hlow : isLowHalf c.toNat = false := by
    simp only [isLowHalf, Bool.and_eq_false_iff, decide_eq_false_iff_not]
    omega
  simp [coded, codeUnit_control h, hhigh, hlow]

/-- The letter of a short escape is read as the character that it is for, and none is the letter
of the long escape. -/
theorem escaped?_of_shortEscape? {c letter : Char} (h : shortEscape? c = some letter) :
    escaped? letter = some c ∧ letter ≠ 'u' := by
  simp only [shortEscape?] at h
  split_ifs at h with hquote hslash hback htab hfeed hform hreturn <;> cases h
  · subst hquote
    decide
  · subst hslash
    decide
  · obtain rfl : c = '\x08' := Char.toNat_inj.1 hback
    decide
  · obtain rfl : c = '\t' := Char.toNat_inj.1 htab
    decide
  · obtain rfl : c = '\n' := Char.toNat_inj.1 hfeed
    decide
  · obtain rfl : c = '\x0c' := Char.toNat_inj.1 hform
    decide
  · obtain rfl : c = '\r' := Char.toNat_inj.1 hreturn
    decide

theorem character_escape (c : Char) (t : List Char) : character (escape c ++ t) = some (c, t) := by
  cases h : shortEscape? c with
  | some letter =>
    obtain ⟨hread, hlong⟩ := escaped?_of_shortEscape? h
    simp [escape, h, character, hread]
  | none =>
    by_cases hcontrol : c.toNat < 0x20
    · simp [escape, h, hcontrol, character, coded_control hcontrol]
    · have hslash : c ≠ '\\' := by
        rintro rfl
        cases h
      simp [escape, h, hcontrol, character, hslash]

theorem after?_escape (c : Char) (t : List Char) : Text.after? ['"'] (escape c ++ t) = none := by
  cases h : shortEscape? c with
  | some letter => simp [escape, h, Text.after?]
  | none =>
    have hquote : '"' ≠ c := by
      rintro rfl
      cases h
    by_cases hcontrol : c.toNat < 0x20
    · simp [escape, h, hcontrol, Text.after?]
    · simp [escape, h, hcontrol, Text.after?, hquote]

theorem escape_ne_nil (c : Char) : escape c ≠ [] := by
  unfold escape
  split
  · simp
  · split <;> simp

theorem text_quoted (s : String) (t : List Char) :
    text (s.toList.flatMap escape ++ '"' :: t) = some (s, t) := by
  have hread : upTo (Text.after? ['"']) character (s.toList.flatMap escape ++ '"' :: t).length
      (s.toList.flatMap escape ++ '"' :: t) = some (s.toList, t) :=
    upTo_flatMap (fun _ => True) (fun c _ t _ => character_escape c t)
      (fun c _ t => after?_escape c t) (fun _ _ _ => trivial) (fun c _ => escape_ne_nil c)
      (after?_self '"' t) trivial (List.cons_ne_nil _ _) (Nat.le_refl _)
  simp only [text, hread, Option.map_some, String.ofList_toList]

/-! ## Numbers -/

/-- Nothing here belongs to a number that stands before. -/
def EndsNumber (t : List Char) : Prop :=
  ∀ c ∈ t.head?, c.isDigit = false ∧ c ≠ '.' ∧ c ≠ 'e' ∧ c ≠ 'E'

theorem endsNumber_nil : EndsNumber [] := nofun

theorem digits_append {d t : List Char} (hne : d ≠ []) (hd : ∀ c ∈ d, c.isDigit = true)
    (ht : ∀ c ∈ t.head?, c.isDigit = false) : digits (d ++ t) = some (d, t) := by
  have htake : t.takeWhile Char.isDigit = [] := by
    cases t with
    | nil => rfl
    | cons c t => exact List.takeWhile_cons_of_neg (by simp [ht c rfl])
  have hdrop : t.dropWhile Char.isDigit = t := by
    cases t with
    | nil => rfl
    | cons c t => exact List.dropWhile_cons_of_neg (by simp [ht c rfl])
  rw [digits, List.takeWhile_append_of_pos hd, List.dropWhile_append_of_pos hd, htake, hdrop,
    List.append_nil, if_neg hne]

theorem whole_append {d t : List Char} (hne : d ≠ []) (hd : ∀ c ∈ d, c.isDigit = true)
    (hzero : d.head? = some '0' → d = ['0']) (ht : ∀ c ∈ t.head?, c.isDigit = false) :
    whole (d ++ t) = some (d, t) := by
  by_cases hhead : d.head? = some '0'
  · rw [hzero hhead]
    rfl
  · have hread := digits_append hne hd ht
    obtain ⟨c, d, rfl⟩ := List.exists_cons_of_ne_nil hne
    have hc : c ≠ '0' := by simpa using hhead
    simpa [whole, hc] using hread

theorem fraction_append {d t : List Char} (hd : ∀ c ∈ d, c.isDigit = true) (ht : EndsNumber t) :
    fraction (pointed d ++ t) = some (d, t) := by
  cases d with
  | nil =>
    cases t with
    | nil => rfl
    | cons c t => simp [pointed, fraction, (ht c rfl).2.1]
  | cons c d => exact digits_append (List.cons_ne_nil c d) hd fun c hc => (ht c hc).1

theorem power_eq_zero {t : List Char} (ht : EndsNumber t) : power t = some (0, t) := by
  cases t with
  | nil => rfl
  | cons c t => simp [power, (ht c rfl).2.2]

theorem scaled_zero (digits places : Nat) : scaled digits places 0 = (digits, places) := by
  change (digits * Nat.pow 10 (0 - places), places - 0) = (digits, places)
  simp

theorem unsigned_positional (n places : Nat) {t : List Char} (ht : EndsNumber t) :
    unsigned (positional n places ++ t) = some ((n, places), t) := by
  obtain ⟨w, f, hsides, heq⟩ := exists_sides n places
  have hpoint : ∀ c ∈ (pointed f ++ t).head?, c.isDigit = false := by
    cases f with
    | nil => exact fun c hc => (ht c hc).1
    | cons c f => simp [pointed]
  have hwhole : whole (w ++ (pointed f ++ t)) = some (w, pointed f ++ t) :=
    whole_append hsides.whole_ne_nil (fun c hc => hsides.isDigit c (List.mem_append_left f hc))
      hsides.eq_zero_of_head hpoint
  have hfraction : fraction (pointed f ++ t) = some (f, t) :=
    fraction_append (fun c hc => hsides.isDigit c (List.mem_append_right w hc)) ht
  simp [unsigned, heq, hwhole, hfraction, power_eq_zero ht, hsides.value, hsides.length_fraction,
    scaled_zero]

theorem number_numberText (n : Int) (places : Nat) {t : List Char} (ht : EndsNumber t) :
    number (numberText n places ++ t) = some (.number n places, t) := by
  cases n with
  | ofNat n =>
    obtain ⟨c, d, hd, hc⟩ := exists_positional_eq_cons n places
    have hsign : c ≠ '-' := by
      rintro rfl
      cases hc
    have hread := unsigned_positional n places ht
    rw [numberText]
    rw [hd, List.cons_append] at hread ⊢
    rw [number, hread]
    · rfl
    · exact fun _ h => hsign (List.cons.inj h).1
  | negSucc n => simp [numberText, number, unsigned_positional (n + 1) places ht, Int.negSucc_eq]

end Reader

end Excerpt.Json
