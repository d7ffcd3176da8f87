import Excerpt.Selector
import Mathlib.Data.List.TakeWhile

/-!
# The grammar of selector items

An item that is one run of digits, or two with a hyphen between them, names line numbers, and
any other item names a region. Runs of digits are read as numbers without a bound, whatever
their length. The items of a selector are the texts between its commas, less the blanks around
them; those that are left empty count for nothing.
-/

namespace Excerpt

open Text (number? trim)

/-- A run of ASCII digits that reads as the given number. -/
def IsNumber (t : List Char) (n : Nat) : Prop :=
  t ≠ [] ∧ (∀ c ∈ t, c.isDigit = true) ∧ Nat.ofDigitChars 10 t 0 = n

/-- One number, or two with a hyphen between them. -/
def NamesNumbers (t : List Char) (first last : Nat) : Prop :=
  (IsNumber t first ∧ last = first) ∨
    ∃ a b, t = a ++ '-' :: b ∧ IsNumber a first ∧ IsNumber b last

/-- The items of a selector without the blanks around them and without empty ones. -/
def itemTexts (selector : String) : List (List Char) :=
  ((selector.toList.splitOn ',').map trim).filter fun item => item ≠ []

theorem number?_eq_some_iff {t : List Char} {n : Nat} : number? t = some n ↔ IsNumber t n := by
  unfold number? IsNumber
  constructor
  · intro h
    split at h
    · rename_i ht
      exact ⟨ht.1, by simpa using ht.2, Option.some.inj h⟩
    · cases h
  · rintro ⟨hne, hdigits, rfl⟩
    have hall : t.all Char.isDigit = true := by simpa using hdigits
    rw [if_pos ⟨hne, hall⟩]

namespace Item

theorem numbers?_of_isNumber {t : List Char} {n : Nat} (h : IsNumber t n) :
    numbers? t = some (n, n) := by
  have htake : t.takeWhile Char.isDigit = t := List.takeWhile_eq_self_iff.2 h.2.1
  have hdrop : t.dropWhile Char.isDigit = [] := List.dropWhile_eq_nil_iff.2 h.2.1
  simp only [numbers?, htake, hdrop, number?_eq_some_iff.2 h]

theorem numbers?_hyphen {a b : List Char} {first last : Nat} (ha : IsNumber a first)
    (hb : IsNumber b last) : numbers? (a ++ '-' :: b) = some (first, last) := by
  have hhyphen : Char.isDigit '-' = false := by decide
  have htake : (a ++ '-' :: b).takeWhile Char.isDigit = a := by
    rw [List.takeWhile_append_of_pos ha.2.1, List.takeWhile_cons]
    simp [hhyphen]
  have hdrop : (a ++ '-' :: b).dropWhile Char.isDigit = '-' :: b := by
    rw [List.dropWhile_append_of_pos ha.2.1, List.dropWhile_cons]
    simp [hhyphen]
  simp only [numbers?, htake, hdrop, number?_eq_some_iff.2 ha, number?_eq_some_iff.2 hb,
    Option.map_some]

theorem numbers?_eq_some_iff {t : List Char} {first last : Nat} :
    numbers? t = some (first, last) ↔ NamesNumbers t first last := by
  constructor
  · intro h
    have happend := List.takeWhile_append_dropWhile (p := Char.isDigit) (l := t)
    unfold numbers? at h
    split at h
    · rename_i n hn hdrop
      obtain ⟨rfl, rfl⟩ := Prod.mk.inj (Option.some.inj h)
      rw [hdrop, List.append_nil] at happend
      rw [happend] at hn
      exact Or.inl ⟨number?_eq_some_iff.1 hn, rfl⟩
    · rename_i n rest hn hdrop
      obtain ⟨m, hm, hpair⟩ := Option.map_eq_some_iff.1 h
      obtain ⟨rfl, rfl⟩ := Prod.mk.inj hpair
      rw [hdrop] at happend
      exact Or.inr ⟨_, rest, happend.symm, number?_eq_some_iff.1 hn, number?_eq_some_iff.1 hm⟩
    · cases h
  · rintro (⟨h, rfl⟩ | ⟨a, b, rfl, ha, hb⟩)
    · exact numbers?_of_isNumber h
    · exact numbers?_hyphen ha hb

theorem numbers?_eq_none_iff {t : List Char} :
    numbers? t = none ↔ ∀ first last, ¬ NamesNumbers t first last := by
  rw [Option.eq_none_iff_forall_ne_some, Prod.forall]
  exact forall_congr' fun first => forall_congr' fun last => not_congr numbers?_eq_some_iff

/-- The range of two offsets that were brought down ends within the offsets. -/
theorem lines_add_le {first last : Nat} (hfirst : first ≤ Offset.limit)
    (hlast : last ≤ Offset.limit) : first - 1 + (last - (first - 1)) ≤ Offset.limit := by omega

/-- The item with a given text, when there is no blank around it. -/
def ofTrimmed (item : List Char) : Item :=
  match numbers? item with
  | some (first, last) => lines (Offset.clamp first) (Offset.clamp last)
  | none => region (String.ofList item)

theorem ofTrimmed_of_numbers {t : List Char} {first last : Nat} (h : NamesNumbers t first last) :
    ofTrimmed t = lines (Offset.clamp first) (Offset.clamp last) := by
  simp only [ofTrimmed, numbers?_eq_some_iff.2 h]

theorem ofTrimmed_of_name {t : List Char} (h : ∀ first last, ¬ NamesNumbers t first last) :
    ofTrimmed t = region (String.ofList t) := by
  simp only [ofTrimmed, numbers?_eq_none_iff.2 h]

theorem ofText?_eq (t : List Char) :
    ofText? t = if trim t = [] then none else some (ofTrimmed (trim t)) := by
  unfold ofText? ofTrimmed
  cases trim t with
  | nil => rfl
  | cons c item =>
    rw [if_neg (List.cons_ne_nil c item)]
    dsimp only
    cases numbers? (c :: item) <;> rfl

end Item

theorem selectorItems_eq (selector : String) :
    selectorItems selector = (itemTexts selector).map Item.ofTrimmed := by
  unfold selectorItems itemTexts
  induction selector.toList.splitOn ',' with
  | nil => rfl
  | cons t ts ih =>
    rw [List.filterMap_cons, Item.ofText?_eq, ih, List.map_cons, List.filter_cons]
    by_cases ht : trim t = [] <;> simp [ht]

end Excerpt
