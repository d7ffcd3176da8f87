import Excerpt.MarkTag
import Excerpt.Proofs.Text.Blank

/-!
# Where a mark tag stands

A mark tag is a comment with nothing but the word in it, whatever stands before it on the line.
A line comment runs to the end of the text, while other text may follow a block comment. The
search for a tag finds one exactly where one stands. Blanks in front of a text neither hold a
tag nor hide one.
-/

namespace Excerpt

variable {c : Char} {b t w r o rest : List Char} {k : Nat}

/-! ## Literals behind blanks -/

namespace Text

/-- A literal that does not begin with a blank is read past blanks. -/
theorem after?_trimLeft_eq_some_iff (hw : ∀ u, trimLeft (w ++ u) = w ++ u) :
    after? w (trimLeft t) = some r ↔ ∃ b, allBlank b = true ∧ t = b ++ (w ++ r) := by
  constructor
  · intro h
    obtain ⟨b, hb, ht⟩ := exists_blanks t
    rw [after?_eq_some_iff] at h
    exact ⟨b, hb, h ▸ ht⟩
  · rintro ⟨b, hb, rfl⟩
    rw [trimLeft_append_blanks hb, hw, after?_append]

end Text

/-! ## Tags at the front -/

namespace MarkTag

open Text

/-- The inside of a comment that holds the word, and else only blanks. -/
def HoldsWord (t : List Char) : Prop :=
  ∃ before after, allBlank before = true ∧ allBlank after = true ∧ t = before ++ (word ++ after)

def lineOpenings : List (List Char) := [['/', '/'], ['#']]

/-- The openings of block comments, each with its closing. -/
def blockEnds : List (List Char × List Char) :=
  [(['/', '*'], ['*', '/']), (['<', '!', '-', '-'], ['-', '-', '>'])]

/-- Whether a text begins with a tag. -/
inductive Leads : List Char → Prop
  | line {opening inside : List Char} (ho : opening ∈ lineOpenings) (h : HoldsWord inside) :
      Leads (opening ++ inside)
  | block {opening closing inside : List Char} (he : (opening, closing) ∈ blockEnds)
      (h : HoldsWord inside) (rest : List Char) : Leads (opening ++ (inside ++ (closing ++ rest)))

/-- Whether a tag stands anywhere in a text. -/
def Occurs (t : List Char) : Prop := ∃ before tagged, t = before ++ tagged ∧ Leads tagged

theorem trimLeft_word (u : List Char) : trimLeft (word ++ u) = word ++ u := rfl

theorem afterWord?_eq_some_iff : afterWord? o t = some rest ↔
    ∃ b, allBlank b = true ∧ t = o ++ (b ++ (word ++ rest)) := by
  simp only [afterWord?, Option.bind_eq_some_iff, after?_eq_some_iff,
    after?_trimLeft_eq_some_iff trimLeft_word]
  constructor
  · rintro ⟨_, rfl, b, hb, rfl⟩
    exact ⟨b, hb, rfl⟩
  · rintro ⟨b, hb, rfl⟩
    exact ⟨_, rfl, b, hb, rfl⟩

theorem isSome_lineTag?_iff : (lineTag? o t).isSome = true ↔
    ∃ inside, HoldsWord inside ∧ t = o ++ inside := by
  have hword : (lineTag? o t).isSome = true ↔
      ∃ rest, afterWord? o t = some rest ∧ allBlank rest = true := by
    unfold lineTag?
    cases afterWord? o t with
    | none => simp
    | some rest => cases hb : allBlank rest <;> simp [hb]
  rw [hword]
  constructor
  · rintro ⟨rest, hrest, hblank⟩
    obtain ⟨b, hb, rfl⟩ := afterWord?_eq_some_iff.1 hrest
    exact ⟨_, ⟨b, rest, hb, hblank, rfl⟩, rfl⟩
  · rintro ⟨_, ⟨b, rest, hb, hblank, rfl⟩, rfl⟩
    exact ⟨rest, afterWord?_eq_some_iff.2 ⟨b, hb, rfl⟩, hblank⟩

theorem isSome_blockTag?_iff (hw : ∀ u, trimLeft (w ++ u) = w ++ u) :
    (blockTag? o w t).isSome = true ↔
      ∃ inside, HoldsWord inside ∧ ∃ rest, t = o ++ (inside ++ (w ++ rest)) := by
  have hword : (blockTag? o w t).isSome = true ↔
      ∃ r, afterWord? o t = some r ∧ ∃ rest, after? w (trimLeft r) = some rest := by
    unfold blockTag?
    cases afterWord? o t <;> simp [Option.isSome_iff_exists]
  rw [hword]
  simp only [after?_trimLeft_eq_some_iff hw, afterWord?_eq_some_iff]
  constructor
  · rintro ⟨_, ⟨b, hb, rfl⟩, rest, b', hb', rfl⟩
    exact ⟨b ++ (word ++ b'), ⟨b, b', hb, hb', rfl⟩, rest, by simp⟩
  · rintro ⟨_, ⟨b, b', hb, hb', rfl⟩, rest, rfl⟩
    exact ⟨b' ++ (w ++ rest), ⟨b, hb, by simp⟩, rest, b', hb', rfl⟩

theorem isSome_atFront?_iff : (atFront? t).isSome = true ↔ Leads t := by
  unfold atFront?
  simp only [Option.isSome_or, Bool.or_eq_true, isSome_lineTag?_iff]
  rw [isSome_blockTag?_iff fun _ => rfl, isSome_blockTag?_iff fun _ => rfl]
  constructor
  · rintro (⟨_, h, rfl⟩ | ⟨_, h, rfl⟩ | ⟨_, h, rest, rfl⟩ | ⟨_, h, rest, rfl⟩)
    · exact .line (by simp [lineOpenings]) h
    · exact .line (by simp [lineOpenings]) h
    · exact .block (by simp [blockEnds]) h rest
    · exact .block (by simp [blockEnds]) h rest
  · rintro (⟨ho, h⟩ | ⟨he, h, rest⟩)
    · rcases List.mem_pair.1 ho with rfl | rfl
      · exact .inl ⟨_, h, rfl⟩
      · exact .inr (.inl ⟨_, h, rfl⟩)
    · rcases List.mem_pair.1 he with he | he <;> obtain ⟨rfl, rfl⟩ := Prod.mk.inj he
      · exact .inr (.inr (.inl ⟨_, h, rest, rfl⟩))
      · exact .inr (.inr (.inr ⟨_, h, rest, rfl⟩))

theorem Leads.trimLeft_eq (h : Leads t) : trimLeft t = t := by
  cases h with
  | line ho h => rcases List.mem_pair.1 ho with rfl | rfl <;> rfl
  | block he h rest =>
    rcases List.mem_pair.1 he with he | he <;> obtain ⟨rfl, rfl⟩ := Prod.mk.inj he <;> rfl

theorem not_leads_nil : ¬ Leads [] := fun h => by cases isSome_atFront?_iff.2 h

/-! ## Tags anywhere -/

theorem occurs_cons_iff : Occurs (c :: t) ↔ Leads (c :: t) ∨ Occurs t := by
  constructor
  · rintro ⟨_ | ⟨a, before⟩, tagged, ht, h⟩
    · exact .inl (ht ▸ h)
    · obtain ⟨rfl, rfl⟩ := List.cons.inj ht
      exact .inr ⟨before, tagged, rfl, h⟩
  · rintro (h | ⟨before, tagged, rfl, h⟩)
    · exact ⟨[], c :: t, rfl, h⟩
    · exact ⟨c :: before, tagged, rfl, h⟩

theorem not_occurs_nil : ¬ Occurs [] := by
  rintro ⟨before, tagged, ht, h⟩
  obtain ⟨-, rfl⟩ := List.append_eq_nil_iff.1 ht.symm
  exact not_leads_nil h

theorem Occurs.of_trimLeft (h : Leads (trimLeft t)) : Occurs t := by
  obtain ⟨b, -, ht⟩ := exists_blanks t
  exact ⟨b, trimLeft t, ht, h⟩

theorem strip?_cons (c : Char) (t : List Char) : strip? (c :: t) =
    (atFront? (trimLeft (c :: t))).or ((strip? t).map (c :: ·)) := by
  -- rewriting with the equation of `strip?` would evaluate `atFront?` to prove it
  dsimp only [strip?]
  cases atFront? (trimLeft (c :: t)) <;> rfl

/-- The search finds a tag exactly where one stands. -/
theorem isSome_strip?_iff : (strip? t).isSome = true ↔ Occurs t := by
  induction t with
  | nil => simp [not_occurs_nil]
  | cons c t ih =>
    rw [strip?_cons, Option.isSome_or, Option.isSome_map, Bool.or_eq_true, isSome_atFront?_iff, ih,
      occurs_cons_iff]
    -- a tag at the front is looked for behind blanks, and so may stand further on
    constructor
    · rintro (h | h)
      · exact occurs_cons_iff.1 (.of_trimLeft h)
      · exact .inr h
    · rintro (h | h)
      · exact .inl (h.trimLeft_eq.symm ▸ h)
      · exact .inr h

theorem not_leads_cons (hc : isBlank c = true) (t : List Char) : ¬ Leads (c :: t) := by
  intro h
  have hc' := isBlank_head_of_trimLeft_eq h.trimLeft_eq
  rw [hc] at hc'
  cases hc'

theorem occurs_cons_blank (c : Char) (t : List Char) (hc : isBlank c = true) :
    Occurs (c :: t) ↔ Occurs t := by
  rw [occurs_cons_iff, or_iff_right (not_leads_cons hc t)]

/-- Blanks at the front hold no part of a tag. -/
theorem occurs_drop_iff (h : ∀ c ∈ t.take k, isBlank c = true) : Occurs (t.drop k) ↔ Occurs t :=
  drop_blanks_iff occurs_cons_blank h

/-! ## What is left of a text -/

theorem suffix_of_afterWord? (h : afterWord? o t = some rest) : rest <:+ t := by
  obtain ⟨b, -, rfl⟩ := afterWord?_eq_some_iff.1 h
  exact ⟨o ++ (b ++ word), by simp⟩

theorem suffix_of_lineTag? (h : lineTag? o t = some rest) : rest <:+ t := by
  obtain ⟨r, -, hr⟩ := Option.bind_eq_some_iff.1 h
  split at hr
  · obtain rfl := Option.some.inj hr
    exact List.nil_suffix
  · cases hr

theorem suffix_of_blockTag? (h : blockTag? o w t = some rest) : rest <:+ t := by
  obtain ⟨r, hr, hclosed⟩ := Option.bind_eq_some_iff.1 h
  obtain ⟨r', hr', rfl⟩ := Option.map_eq_some_iff.1 hclosed
  have htrim : trimLeft r <:+ r := List.dropWhile_suffix isBlank
  have hrest : r' <:+ trimLeft r := ⟨w, (eq_append_of_after? hr').symm⟩
  split
  · exact List.nil_suffix
  · exact (hrest.trans htrim).trans (suffix_of_afterWord? hr)

theorem suffix_of_atFront? (h : atFront? t = some rest) : rest <:+ t := by
  unfold atFront? at h
  simp only [Option.or_eq_some_iff] at h
  rcases h with h | ⟨-, h | ⟨-, h | ⟨-, h⟩⟩⟩
  · exact suffix_of_lineTag? h
  · exact suffix_of_lineTag? h
  · exact suffix_of_blockTag? h
  · exact suffix_of_blockTag? h

/-- Removing a tag adds nothing to a text. -/
theorem sublist_of_strip? (h : strip? t = some r) : r.Sublist t := by
  induction t generalizing r with
  | nil => cases h
  | cons c t ih =>
    rw [strip?_cons, Option.or_eq_some_iff] at h
    rcases h with h | ⟨-, h⟩
    · have htrim : trimLeft (c :: t) <:+ c :: t := List.dropWhile_suffix isBlank
      exact ((suffix_of_atFront? h).trans htrim).sublist
    · obtain ⟨r', hr', rfl⟩ := Option.map_eq_some_iff.1 h
      exact (ih hr').cons_cons c

end MarkTag

end Excerpt
