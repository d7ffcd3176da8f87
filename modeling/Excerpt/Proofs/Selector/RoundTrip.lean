import Excerpt.Proofs.Selector.Grammar
import Excerpt.Proofs.Text.Blank
import Excerpt.Proofs.Text.Decimal

/-!
# Writing selectors and reading them back

The items of a selector, each written as a text and joined by commas, are read back as they were,
unless one of them is a range without lines, which is written as no number. A name is written as it
is, so that it has to be trimmed and no number. Commas alone separate items, and the blanks around
an item have no say in it.
-/

namespace Excerpt

open Text (number? trim decimal isBlank allBlank)

variable {t : List Char} {item : Item} {items : List Item} {name : String} {first last : Nat}

/-- The items of a selector, written as one. -/
def selectorText (items : List Item) : String := String.intercalate "," (items.map Item.text)

/-! ## Texts between commas -/

theorem not_mem_of_mem_splitOn {c : Char} {s : List Char} (h : t ∈ s.splitOn c) : c ∉ t := by
  induction s generalizing t with
  | nil =>
    obtain rfl : t = [] := by simpa using h
    exact List.not_mem_nil
  | cons d s ih =>
    obtain ⟨part, parts, hparts⟩ := List.exists_cons_of_ne_nil (List.splitOn_ne_nil c s)
    rw [List.splitOn_cons_eq_if_modifyHead, hparts] at h
    split at h
    · rcases List.mem_cons.1 h with rfl | h
      · exact List.not_mem_nil
      · exact ih (hparts ▸ h)
    · rename_i hd
      rcases List.mem_cons.1 h with rfl | h
      · have hpart : c ∉ part := ih (hparts ▸ List.mem_cons_self)
        have hcd : c ≠ d := fun hcd => hd (by simp [hcd])
        simp [hcd, hpart]
      · exact ih (hparts ▸ List.mem_cons_of_mem part h)

theorem selectorItems_intercalate {texts : List String} (h : ∀ t ∈ texts, ',' ∉ t.toList) :
    selectorItems (String.intercalate "," texts) =
      texts.filterMap fun t => Item.ofText? t.toList := by
  by_cases hne : texts = []
  · subst hne
    rfl
  have hlists : ∀ t ∈ texts.map String.toList, ',' ∉ t := by simpa using h
  have hsplit := List.splitOn_intercalate ',' hlists (mt List.map_eq_nil_iff.1 hne)
  rw [selectorItems, String.toList_intercalate]
  change ((([','] : List Char).intercalate (texts.map String.toList)).splitOn ',').filterMap _ = _
  rw [hsplit, List.filterMap_map]
  rfl

theorem selectorItems_append_comma (a b : String) :
    selectorItems (a ++ "," ++ b) = selectorItems a ++ selectorItems b := by
  have hlist : (a ++ "," ++ b).toList = a.toList ++ ',' :: b.toList := by simp
  rw [selectorItems, hlist, List.splitOn_append_cons_self, List.filterMap_append]
  rfl

/-! ## Texts that name numbers -/

theorem NamesNumbers.isDigit_or_hyphen (h : NamesNumbers t first last) :
    ∀ c ∈ t, c.isDigit = true ∨ c = '-' := by
  rcases h with ⟨⟨-, hdigits, -⟩, -⟩ | ⟨a, b, rfl, ⟨-, ha, -⟩, -, hb, -⟩
  · exact fun c hc => .inl (hdigits c hc)
  · intro c hc
    rcases List.mem_append.1 hc with hc | hc
    · exact .inl (ha c hc)
    · rcases List.mem_cons.1 hc with rfl | hc
      · exact .inr rfl
      · exact .inl (hb c hc)

theorem NamesNumbers.ne_nil (h : NamesNumbers t first last) : t ≠ [] := by
  rcases h with ⟨⟨hne, -, -⟩, -⟩ | ⟨a, b, rfl, -, -⟩
  · exact hne
  · simp

theorem NamesNumbers.trim_eq (h : NamesNumbers t first last) : trim t = t := by
  refine Text.trim_eq_self fun c hc => ?_
  rcases h.isDigit_or_hyphen c hc with hd | rfl
  · exact Text.isBlank_of_isDigit hd
  · decide

theorem NamesNumbers.no_comma (h : NamesNumbers t first last) : ',' ∉ t := by
  intro hc
  rcases h.isDigit_or_hyphen ',' hc with hd | hd
  · exact absurd hd (by decide)
  · exact absurd hd (by decide)

namespace Item

/-! ## Items that were read -/

/-- A name that is read as it is written. -/
structure IsName (t : List Char) : Prop where
  ne_nil : t ≠ []
  trimmed : trim t = t
  no_comma : ',' ∉ t
  no_numbers : ∀ first last, ¬ NamesNumbers t first last

/-- What is known of an item that was read. -/
inductive Parsed : Item → Prop
  | range {start length : Nat} (h : start + length ≤ Offset.limit) : Parsed (range start length)
  | region {name : String} (h : IsName name.toList) : Parsed (region name)

theorem parsed_lines (hfirst : first ≤ Offset.limit) (hlast : last ≤ Offset.limit) :
    Parsed (lines first last) := .range (lines_add_le hfirst hlast)

theorem parsed_of_ofText? (h : ofText? t = some item) (ht : ',' ∉ t) : Parsed item := by
  rw [ofText?_eq] at h
  split at h
  · cases h
  rename_i hne
  obtain rfl := Option.some.inj h
  cases hn : numbers? (trim t) with
  | some pair =>
    rw [ofTrimmed_of_numbers (numbers?_eq_some_iff.1 hn)]
    exact parsed_lines (Offset.clamp_le_limit _) (Offset.clamp_le_limit _)
  | none =>
    have hname := numbers?_eq_none_iff.1 hn
    rw [ofTrimmed_of_name hname]
    refine .region ?_
    rw [String.toList_ofList]
    exact ⟨hne, Text.trim_trim t, fun hc => ht (Text.mem_of_mem_trim hc), hname⟩

theorem parsed_of_mem {s : String} (h : item ∈ selectorItems s) : Parsed item := by
  obtain ⟨t, ht, hitem⟩ := List.mem_filterMap.1 h
  exact parsed_of_ofText? hitem (not_mem_of_mem_splitOn ht)

/-! ## Items that are written -/

/-- A range with lines is written by the numbers of its first and last line. -/
theorem namesNumbers_text (start : Nat) {length : Nat} (h : length ≠ 0) :
    NamesNumbers (range start length).text.toList (start + 1) (start + length) := by
  have hnumber (n : Nat) : IsNumber (decimal n) n := number?_eq_some_iff.1 (Text.number?_decimal n)
  rw [text, if_neg h]
  by_cases hone : length = 1
  · subst hone
    rw [if_pos rfl, String.toList_ofList]
    exact .inl ⟨hnumber _, rfl⟩
  · rw [if_neg hone, String.toList_ofList]
    exact .inr ⟨_, _, rfl, hnumber _, hnumber _⟩

theorem Parsed.no_comma (h : Parsed item) (hlines : ∀ start, item ≠ Item.range start 0) :
    ',' ∉ item.text.toList := by
  cases h with
  | @range start length =>
    have hlength : length ≠ 0 := fun hzero => hlines start (by rw [hzero])
    exact (namesNumbers_text start hlength).no_comma
  | region h => exact h.no_comma

theorem Parsed.ofText?_text (h : Parsed item) (hlines : ∀ start, item ≠ Item.range start 0) :
    ofText? item.text.toList = some item := by
  rw [ofText?_eq]
  cases h with
  | @range start length h =>
    have hlength : length ≠ 0 := fun hzero => hlines start (by rw [hzero])
    have hnumbers := namesNumbers_text start hlength
    rw [hnumbers.trim_eq, if_neg hnumbers.ne_nil, ofTrimmed_of_numbers hnumbers,
      Offset.clamp_of_le h, Offset.clamp_of_le (by omega), lines, Nat.add_sub_cancel,
      Nat.add_sub_cancel_left]
  | region h =>
    rw [text, h.trimmed, if_neg h.ne_nil, ofTrimmed_of_name h.no_numbers, String.ofList_toList]

end Item

theorem selectorItems_selectorText (h : ∀ item ∈ items, item.Parsed)
    (hlines : ∀ start, Item.range start 0 ∉ items) : selectorItems (selectorText items) = items := by
  have hitem : ∀ item ∈ items, ∀ start, item ≠ Item.range start 0 := by
    rintro item hmem start rfl
    exact hlines start hmem
  have hcommas : ∀ t ∈ items.map Item.text, ',' ∉ t.toList := by
    intro t ht
    obtain ⟨item, hmem, rfl⟩ := List.mem_map.1 ht
    exact (h item hmem).no_comma (hitem item hmem)
  rw [selectorText, selectorItems_intercalate hcommas, List.filterMap_map]
  calc items.filterMap (fun item => Item.ofText? item.text.toList)
      = items.filterMap some := List.filterMap_congr fun item hmem =>
        (h item hmem).ofText?_text (hitem item hmem)
    _ = items := List.filterMap_some

/-! ## Blanks around items -/

/-- An item between commas, with blanks around it. -/
structure PaddedItem where
  before : String
  item : String
  after : String
  blank_before : allBlank before.toList = true
  blank_after : allBlank after.toList = true
  no_comma : ',' ∉ item.toList

namespace PaddedItem

def text (padded : PaddedItem) : String := padded.before ++ padded.item ++ padded.after

theorem toList_text (padded : PaddedItem) :
    padded.text.toList = padded.before.toList ++ (padded.item.toList ++ padded.after.toList) := by
  simp [text]

theorem no_comma_text (padded : PaddedItem) : ',' ∉ padded.text.toList := by
  have hblank {b : List Char} (hb : allBlank b = true) : ',' ∉ b := fun hc =>
    absurd (Text.allBlank_iff.1 hb ',' hc) (by decide)
  rw [toList_text]
  simp [hblank padded.blank_before, hblank padded.blank_after, padded.no_comma]

theorem ofText?_text (padded : PaddedItem) :
    Item.ofText? padded.text.toList = Item.ofText? padded.item.toList := by
  rw [Item.ofText?_eq, Item.ofText?_eq, toList_text,
    Text.trim_append_blanks padded.blank_before padded.blank_after]

end PaddedItem

theorem selectorItems_padded (padded : List PaddedItem) :
    selectorItems (String.intercalate "," (padded.map PaddedItem.text)) =
      selectorItems (String.intercalate "," (padded.map PaddedItem.item)) := by
  have htexts : ∀ t ∈ padded.map PaddedItem.text, ',' ∉ t.toList := by
    simpa using fun p _ => p.no_comma_text
  have hitems : ∀ t ∈ padded.map PaddedItem.item, ',' ∉ t.toList := by
    simpa using fun p _ => p.no_comma
  rw [selectorItems_intercalate htexts, selectorItems_intercalate hitems, List.filterMap_map,
    List.filterMap_map]
  exact List.filterMap_congr fun p _ => p.ofText?_text

theorem selectorItems_text (h : item.Parsed) (hlines : ∀ start, item ≠ Item.range start 0) :
    selectorItems item.text = [item] := by
  have hsingle : selectorText [item] = item.text := rfl
  rw [← hsingle]
  refine selectorItems_selectorText (by simpa using h) fun start hmem => ?_
  exact hlines start (List.mem_singleton.1 hmem).symm

/-- What is read from a selector is read again from what it is written as, item by item and as a
whole, as long as every range has lines. Ranges do not pass the largest offset and names are trimmed
texts that name no numbers. A comma separates whatever selectors stand around it, and blanks around
items do not count. -/
theorem written_items_read_back :
    (∀ s, (∀ start, Item.range start 0 ∉ selectorItems s) →
      selectorItems (selectorText (selectorItems s)) = selectorItems s) ∧
    (∀ s, ∀ item ∈ selectorItems s, (∀ start, item ≠ Item.range start 0) →
      selectorItems item.text = [item]) ∧
    (∀ s start length, Item.range start length ∈ selectorItems s →
      start + length ≤ Offset.limit) ∧
    (∀ s name, Item.region name ∈ selectorItems s →
      name.toList ≠ [] ∧ trim name.toList = name.toList ∧ ',' ∉ name.toList ∧
        ∀ first last, ¬ NamesNumbers name.toList first last) ∧
    (∀ a b, selectorItems (a ++ "," ++ b) = selectorItems a ++ selectorItems b) ∧
    ∀ padded : List PaddedItem,
      selectorItems (String.intercalate "," (padded.map PaddedItem.text)) =
        selectorItems (String.intercalate "," (padded.map PaddedItem.item)) := by
  refine ⟨fun s hlines => ?_, fun s item hitem hlines => ?_, fun s start length hrange => ?_,
    fun s name hname => ?_, selectorItems_append_comma, selectorItems_padded⟩
  · exact selectorItems_selectorText (fun item hitem => Item.parsed_of_mem hitem) hlines
  · exact selectorItems_text (Item.parsed_of_mem hitem) hlines
  · cases Item.parsed_of_mem hrange with
    | range h => exact h
  · cases Item.parsed_of_mem hname with
    | region h => exact ⟨h.ne_nil, h.trimmed, h.no_comma, h.no_numbers⟩

/-- A range from line zero, a name with blanks and a hyphen, a number past every offset and a range
of one line. -/
theorem written_items_read_back_of_mixed :
    let s := " 0-2 ,,\u00a0a - b, 99999999999999999999,5-5\t"
    let items : List Item := [.range 0 2, .region "a - b", .range 18446744073709551614 1, .range 4 1]
    selectorItems s = items ∧ (∀ start, Item.range start 0 ∉ selectorItems s) ∧
      selectorText items = "1-2,a - b,18446744073709551615,5" ∧
      selectorItems (selectorText items) = items ∧
      (∀ item ∈ items, selectorItems item.text = [item]) ∧
      18446744073709551614 + 1 ≤ Offset.limit ∧
      ∀ first last, ¬ NamesNumbers "a - b".toList first last := by
  intro s items
  have hitems : selectorItems s = items := by decide
  have hlines : ∀ start, Item.range start 0 ∉ items := by simp [items]
  obtain ⟨hwhole, hsingle, hlimit, hname, -⟩ := written_items_read_back
  have hback := hwhole s (by rwa [hitems])
  rw [hitems] at hback
  refine ⟨hitems, by rwa [hitems], by decide, hback, fun item hmem => ?_, ?_, ?_⟩
  · refine hsingle s item (hitems ▸ hmem) ?_
    rintro start rfl
    exact hlines start hmem
  · exact hlimit s _ _ (by rw [hitems]; simp [items])
  · exact (hname s "a - b" (by rw [hitems]; simp [items])).2.2.2

end Excerpt
