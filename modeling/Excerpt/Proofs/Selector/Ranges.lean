import Excerpt.Proofs.OffsetSet.Members
import Excerpt.Proofs.Sample.Selection
import Excerpt.Proofs.Selector.RoundTrip

/-!
# Ranges of lines as offsets

A range counts lines from one with both ends included, while an offset counts from zero. Sums of
offsets stop at the largest one. A range that was read from a selector never passes it, so that the
lines it takes from a file, the offsets it stands for and the numbers it is written by are those that
sums without a bound would give. A selector of ranges alone thus takes from a file the lines at the
offsets that it stands for.
-/

namespace Excerpt

variable {content selector : String} {start length first last k number : Nat} {item : Item}

namespace Item

/-- The offset is one of those that the item stands for. A region stands for none. -/
def HasOffset (item : Item) (k : Nat) : Prop :=
  ∃ bounds, item.bounds? = some bounds ∧ bounds.1 ≤ k ∧ k < bounds.2

theorem hasOffset_range : (range start length).HasOffset k ↔
    k < Offset.limit ∧ start ≤ k ∧ k < start + length := by
  simp only [HasOffset, bounds?, Option.some.injEq, exists_eq_left', Offset.add, Offset.clamp]
  omega

/-- A range that was read ends within the offsets, so that its end was not brought down. -/
theorem hasOffset_range_of_le (h : start + length ≤ Offset.limit) :
    (range start length).HasOffset k ↔ start ≤ k ∧ k < start + length := by
  rw [hasOffset_range]
  omega

theorem hasOffset_lines (hfirst : first ≤ Offset.limit) (hlast : last ≤ Offset.limit) :
    (lines first last).HasOffset k ↔ max first 1 ≤ k + 1 ∧ k + 1 ≤ last := by
  rw [lines, hasOffset_range_of_le (lines_add_le hfirst hlast)]
  omega

/-- A range with lines is written by the numbers of the first and the last of them. -/
theorem namesNumbers_text_lines (h : max first 1 ≤ last) :
    NamesNumbers (lines first last).text.toList (max first 1) last := by
  have hlength : last - (first - 1) ≠ 0 := by omega
  have hfirst : first - 1 + 1 = max first 1 := by omega
  have hlast : first - 1 + (last - (first - 1)) = last := by omega
  have htext := namesNumbers_text (first - 1) hlength
  rwa [hfirst, hlast] at htext

theorem text_lines_of_lt (h : last < max first 1) : (lines first last).text = "(empty)" := by
  have hlength : last - (first - 1) = 0 := by omega
  rw [lines, hlength, text, if_pos rfl]

end Item

theorem OffsetSet.contains_ofSelector : (OffsetSet.ofSelector selector).contains k = true ↔
    ∃ item ∈ selectorItems selector, item.HasOffset k := by
  have hranges : OffsetSet.ofSelector selector =
    ofRanges ((selectorItems selector).filterMap Item.bounds?) := rfl
  simp only [hranges, contains_ofRanges, List.mem_filterMap, Item.HasOffset]
  constructor
  · rintro ⟨bounds, ⟨item, hitem, hbounds⟩, hk⟩
    exact ⟨item, hitem, bounds, hbounds, hk⟩
  · rintro ⟨item, hitem, bounds, hbounds, hk⟩
    exact ⟨bounds, ⟨item, hitem, hbounds⟩, hk⟩

/-! ## Lines of a file -/

theorem Source.mem_map_number_iff : number ∈ (Source.ofContent content).lines.map Line.number ↔
    ∃ k, k < (Source.ofContent content).lineCount ∧ number = k + 1 := by
  rw [(Source.numberedFrom_lines content).map_number, List.mem_range'_1, Source.lineCount]
  constructor
  · rintro ⟨hpos, hle⟩
    exact ⟨number - 1, by omega, by omega⟩
  · rintro ⟨k, hk, rfl⟩
    omega

/-- The numbers of the lines that a range takes, when its end was not brought down. -/
theorem map_number_slice (h : start + length ≤ Offset.limit) :
    ((Source.ofContent content).slice start length).map Line.number =
      ((Source.ofContent content).lines.map Line.number).filter fun number =>
        start < number ∧ number ≤ start + length := by
  rw [Source.slice_eq_filter (Nat.le_trans (Nat.min_le_right _ _) h), List.filter_map]
  rfl

/-- A range takes the lines at its offsets, as far as the file goes. -/
theorem mem_map_number_select (h : item.Parsed) (hrange : ∀ name, item ≠ .region name) :
    number ∈ (item.select (Source.ofContent content)).map Line.number ↔
      ∃ k, item.HasOffset k ∧ k < (Source.ofContent content).lineCount ∧ number = k + 1 := by
  cases h with
  | @range start length hsum =>
    change number ∈ ((Source.ofContent content).slice start length).map Line.number ↔ _
    rw [map_number_slice hsum, List.mem_filter, Source.mem_map_number_iff]
    simp only [Item.hasOffset_range_of_le hsum, decide_eq_true_eq]
    constructor
    · rintro ⟨⟨k, hk, rfl⟩, hlt, hle⟩
      exact ⟨k, by omega, hk, rfl⟩
    · rintro ⟨k, hoffset, hk, rfl⟩
      exact ⟨⟨k, hk, rfl⟩, by omega, by omega⟩
  | @region name => exact absurd rfl (hrange name)

theorem lines_ofSelector_of_no_skipTag {source : Source} (hitems : selectorItems selector ≠ [])
    (hskip : ∀ line ∈ source.lines, hasSkipTag line.text = false) :
    (Sample.ofSelector source (some selector)).lines =
      (selectorItems selector).flatMap (Item.select source) := by
  rw [lines_ofSelector, Option.map_some, Option.getD_some, withoutSkipped, List.filter_eq_self.2]
  · exact selected_eq_flatMap source hitems
  · intro line hline
    rw [hskip line (mem_lines_of_mem_selected hline), Bool.not_false]

/-- A selector of ranges alone takes the lines at the offsets that it stands for. -/
theorem mem_map_number_ofSelector (hitems : selectorItems selector ≠ [])
    (hranges : ∀ name, Item.region name ∉ selectorItems selector)
    (hskip : ∀ line ∈ (Source.ofContent content).lines, hasSkipTag line.text = false) :
    number ∈ (Sample.ofSelector (Source.ofContent content) (some selector)).lines.map Line.number ↔
      ∃ k, (OffsetSet.ofSelector selector).contains k = true ∧
        k < (Source.ofContent content).lineCount ∧ number = k + 1 := by
  -- every item was read from the selector, so that its end was not brought down
  have hselect : ∀ item ∈ selectorItems selector,
      (number ∈ (item.select (Source.ofContent content)).map Line.number ↔
        ∃ k, item.HasOffset k ∧ k < (Source.ofContent content).lineCount ∧ number = k + 1) := by
    refine fun item hitem => mem_map_number_select (Item.parsed_of_mem hitem) ?_
    rintro name rfl
    exact hranges name hitem
  rw [lines_ofSelector_of_no_skipTag hitems hskip, List.map_flatMap, List.mem_flatMap]
  simp only [OffsetSet.contains_ofSelector]
  constructor
  · rintro ⟨item, hitem, hnumber⟩
    obtain ⟨k, hoffset, hk⟩ := (hselect item hitem).1 hnumber
    exact ⟨k, ⟨item, hitem, hoffset⟩, hk⟩
  · rintro ⟨k, ⟨item, hitem, hoffset⟩, hk⟩
    exact ⟨item, hitem, (hselect item hitem).2 ⟨k, hoffset, hk⟩⟩

/-- Sums of offsets that stop at the largest one give what sums without a bound would. A slice of a
file that offsets can count is cut within it, at the offsets of the range. A range of line numbers
takes the lines with these numbers and stands for the offsets before them, and the sums in its text
do not pass the largest offset. So the lines that ranges take from a file are those at the offsets
that they stand for. -/
theorem ranges_exact :
    (∀ (source : Source) (start length : Nat), source.lineCount ≤ Offset.limit →
      (source.sliceBounds start length).1 ≤ (source.sliceBounds start length).2 ∧
      (source.sliceBounds start length).2 ≤ source.lineCount ∧
      source.slice start length = (List.range' start length).filterMap (source.lines[·]?)) ∧
    (∀ start length k, (Item.range start length).HasOffset k ↔
      k < Offset.limit ∧ start ≤ k ∧ k < start + length) ∧
    (∀ first last, first ≤ Offset.limit → last ≤ Offset.limit →
      (∀ content, (Item.lines first last).select (Source.ofContent content) =
        (Source.ofContent content).lines.filter fun line =>
          max first 1 ≤ line.number ∧ line.number ≤ last) ∧
      (∀ k, (Item.lines first last).HasOffset k ↔ max first 1 ≤ k + 1 ∧ k + 1 ≤ last) ∧
      (∀ start length, Item.lines first last = .range start length →
        start + 1 ≤ Offset.limit ∧ start + length ≤ Offset.limit) ∧
      (max first 1 ≤ last →
        NamesNumbers (Item.lines first last).text.toList (max first 1) last) ∧
      (last < max first 1 → (Item.lines first last).text = "(empty)")) ∧
    ∀ content selector, let source := Source.ofContent content
      selectorItems selector ≠ [] → (∀ name, Item.region name ∉ selectorItems selector) →
      (∀ line ∈ source.lines, hasSkipTag line.text = false) →
      ∀ number, number ∈ (Sample.ofSelector source (some selector)).lines.map Line.number ↔
        ∃ k, (OffsetSet.ofSelector selector).contains k = true ∧ k < source.lineCount ∧
          number = k + 1 := by
  refine ⟨fun source start length h => ⟨Source.sliceBounds_fst_le_snd h start length,
    Source.sliceBounds_snd_le source start length, Source.slice_eq_filterMap h start length⟩,
    fun start length k => Item.hasOffset_range, fun first last hfirst hlast => ?_, ?_⟩
  · refine ⟨fun content => select_lines_eq_filter content hfirst hlast,
      fun k => Item.hasOffset_lines hfirst hlast, fun start length hrange => ?_,
      Item.namesNumbers_text_lines, Item.text_lines_of_lt⟩
    obtain ⟨rfl, rfl⟩ := Item.range.inj hrange
    have hpos : 1 ≤ Offset.limit := by decide
    exact ⟨by omega, Item.lines_add_le hfirst hlast⟩
  · intro content selector source hitems hranges hskip number
    exact mem_map_number_ofSelector hitems hranges hskip

/-- A slice that would end past every offset, the last line number of all, a reversed range, and a
selector with line zero and a number past every offset. -/
theorem ranges_exact_of_large :
    let content := "a\nb\nc\n"
    let source := Source.ofContent content
    let selector := "0,2-99999999999999999999"
    let last := Offset.limit
    source.lineCount ≤ Offset.limit ∧ (source.sliceBounds 1 last).2 ≤ source.lineCount ∧
      source.slice 1 last = [.content 2 "b", .content 3 "c"] ∧
      (∀ k, (Item.lines last last).HasOffset k ↔ max last 1 ≤ k + 1 ∧ k + 1 ≤ last) ∧
      NamesNumbers (Item.lines last last).text.toList (max last 1) last ∧
      (Item.lines 3 1).text = "(empty)" ∧
      selectorItems selector ≠ [] ∧ (∀ name, Item.region name ∉ selectorItems selector) ∧
      (∀ line ∈ source.lines, hasSkipTag line.text = false) ∧
      ∃ k, (OffsetSet.ofSelector selector).contains k = true ∧ k < source.lineCount ∧ 3 = k + 1 := by
  intro content source selector last
  have hcount : source.lineCount ≤ Offset.limit := by decide
  have hread : selectorItems selector = [.range 0 0, .range 1 18446744073709551614] := by decide
  have hitems : selectorItems selector ≠ [] := by simp [hread]
  have hranges : ∀ name, Item.region name ∉ selectorItems selector := by simp [hread]
  have hskip : ∀ line ∈ source.lines, hasSkipTag line.text = false := by decide
  have hselected : 3 ∈ (Sample.ofSelector source (some selector)).lines.map Line.number := by decide
  obtain ⟨hslice, -, hlines, hnumbers⟩ := ranges_exact
  obtain ⟨-, hbound, -⟩ := hslice source 1 last hcount
  obtain ⟨-, hoffsets, -, htext, -⟩ := hlines last last (Nat.le_refl _) (Nat.le_refl _)
  obtain ⟨-, -, -, -, hempty⟩ := hlines 3 1 (by decide) (by decide)
  exact ⟨hcount, hbound, by decide, hoffsets, htext (by decide), hempty (by decide), hitems, hranges,
    hskip, (hnumbers content selector hitems hranges hskip 3).1 hselected⟩

end Excerpt
