import Excerpt.Proofs.Region.Recording
import Excerpt.Proofs.Selector.Grammar
import Excerpt.Proofs.Source.Numbered
import Excerpt.Proofs.Text.Word
import Excerpt.Sample
import Mathlib.Data.List.Forall2

/-!
# What a selector selects

Every item of a selector asks for lines of its own: those whose numbers it spans, or those of
the region that it names. A sample is what its items ask for, one after the other and with
repetitions, without the lines that carry the skip tag. A selector without items asks for the
whole file.
-/

namespace Excerpt

/-- The lines that an item with the given text asks for. -/
inductive Asks (source : Source) : List Char → List Line → Prop
  | numbers {t : List Char} {first last : Nat} (h : NamesNumbers t first last) :
      Asks source t (source.lines.filter fun line => first ≤ line.number ∧ line.number ≤ last)
  | region {t : List Char} (h : ∀ first last, ¬ NamesNumbers t first last) :
      Asks source t (source.region (String.ofList t))

/-- An item asks for one thing only. -/
theorem Asks.unique {source : Source} {t : List Char} {lines lines' : List Line}
    (h : Asks source t lines) (h' : Asks source t lines') : lines = lines' := by
  cases h with
  | numbers h =>
    cases h' with
    | numbers h' =>
      have hsame := (Item.numbers?_eq_some_iff.2 h).symm.trans (Item.numbers?_eq_some_iff.2 h')
      obtain ⟨rfl, rfl⟩ := Prod.mk.inj (Option.some.inj hsame)
      rfl
    | region h' => exact absurd h (h' _ _)
  | region h =>
    cases h' with
    | numbers h' => exact absurd h' (h _ _)
    | region h' => rfl

def withoutSkipped (lines : List Line) : List Line :=
  lines.filter fun line => !hasSkipTag line.text

theorem hasSkipTag_iff (text : String) :
    hasSkipTag text = true ↔ Text.WordOccurs skipTag text.toList :=
  Text.containsWord_iff (by decide) (by decide) text.toList

theorem mem_withoutSkipped {line : Line} {lines : List Line} :
    line ∈ withoutSkipped lines ↔ line ∈ lines ∧ hasSkipTag line.text = false := by
  rw [withoutSkipped, List.mem_filter, Bool.not_eq_true']

/-- A range of line numbers takes the lines with these numbers. There is no line zero. -/
theorem select_lines_eq_filter (content : String) {first last : Nat}
    (hfirst : first ≤ Offset.limit) (hlast : last ≤ Offset.limit) :
    (Item.lines first last).select (Source.ofContent content) =
      (Source.ofContent content).lines.filter fun line =>
        max first 1 ≤ line.number ∧ line.number ≤ last := by
  have hsum := Item.lines_add_le hfirst hlast
  change (Source.ofContent content).slice _ _ = _
  rw [Source.slice_eq_filter (Nat.le_trans (Nat.min_le_right _ _) hsum)]
  refine List.filter_congr fun line hl => decide_eq_decide.2 ?_
  have hpos : 0 < line.number := (Source.numberedFrom_lines content).lt_number hl
  omega

/-- In a file with fewer lines than the largest offset, a number that was brought down to that
offset is still past the last line. -/
theorem select_lines {content : String}
    (h : (Source.ofContent content).lineCount < Offset.limit) (first last : Nat) :
    Item.select (Source.ofContent content) (Item.lines (Offset.clamp first) (Offset.clamp last)) =
      (Source.ofContent content).lines.filter fun line =>
        first ≤ line.number ∧ line.number ≤ last := by
  have hnumbered := Source.numberedFrom_lines content
  rw [select_lines_eq_filter content (Offset.clamp_le_limit _) (Offset.clamp_le_limit _)]
  refine List.filter_congr fun line hl => decide_eq_decide.2 ?_
  have hpos : 0 < line.number := hnumbered.lt_number hl
  have hcount : line.number ≤ 0 + (Source.ofContent content).lineCount := hnumbered.number_le hl
  unfold Offset.clamp
  omega

theorem asks_ofTrimmed {content : String}
    (h : (Source.ofContent content).lineCount < Offset.limit) (t : List Char) :
    Asks (Source.ofContent content) t
      (Item.select (Source.ofContent content) (Item.ofTrimmed t)) := by
  cases hn : Item.numbers? t with
  | some pair =>
    have hnumbers : NamesNumbers t pair.1 pair.2 := Item.numbers?_eq_some_iff.1 hn
    rw [Item.ofTrimmed_of_numbers hnumbers, select_lines h]
    exact .numbers hnumbers
  | none =>
    have hname := Item.numbers?_eq_none_iff.1 hn
    rw [Item.ofTrimmed_of_name hname]
    exact .region hname

theorem selected_eq_flatMap (source : Source) {items : List Item} (h : items ≠ []) :
    Sample.selected source items = items.flatMap (Item.select source) := by
  cases items with
  | nil => exact absurd rfl h
  | cons item items => rfl

theorem lines_ofSelector (source : Source) (selector : Option String) :
    (Sample.ofSelector source selector).lines =
      withoutSkipped (Sample.selected source ((selector.map selectorItems).getD [])) := rfl

theorem lines_ofSelector_of_items {source : Source} {selector : String}
    (h : itemTexts selector ≠ []) : (Sample.ofSelector source (some selector)).lines =
      withoutSkipped ((itemTexts selector).flatMap fun t => (Item.ofTrimmed t).select source) := by
  rw [lines_ofSelector, Option.map_some, Option.getD_some, selectorItems_eq,
    selected_eq_flatMap source (mt List.map_eq_nil_iff.1 h), List.flatMap_map]

theorem lines_ofSelector_of_no_items {source : Source} {selector : String}
    (h : itemTexts selector = []) :
    (Sample.ofSelector source (some selector)).lines = withoutSkipped source.lines := by
  rw [lines_ofSelector, Option.map_some, Option.getD_some, selectorItems_eq, h]
  rfl

/-! ## Nothing but lines of the file -/

theorem mem_lines_of_mem_select {source : Source} {item : Item} {line : Line}
    (h : line ∈ item.select source) : line ∈ source.lines := by
  cases item with
  | range start length => exact List.mem_of_mem_drop (List.mem_of_mem_take h)
  | region name =>
    obtain ⟨offset, -, hline⟩ := List.mem_filterMap.1 h
    exact List.mem_of_getElem? hline

theorem mem_lines_of_mem_selected {source : Source} {items : List Item} {line : Line}
    (h : line ∈ Sample.selected source items) : line ∈ source.lines := by
  cases items with
  | nil => exact h
  | cons item items =>
    obtain ⟨item', -, hline⟩ := List.mem_flatMap.1 h
    exact mem_lines_of_mem_select hline

theorem mem_lines_of_mem_ofSelector {source : Source} {selector : Option String} {line : Line}
    (h : line ∈ (Sample.ofSelector source selector).lines) : line ∈ source.lines :=
  mem_lines_of_mem_selected (List.mem_filter.1 h).1

/-- A sample is what the items of its selector ask for in their order, and the whole file if
there are none, less the lines with the standalone skip word and no others. -/
theorem ofSelector_asks (content : String)
    (h : (Source.ofContent content).lineCount < Offset.limit) :
    let source := Source.ofContent content
    (∀ t lines lines', Asks source t lines → Asks source t lines' → lines = lines') ∧
    (∀ selector, itemTexts selector ≠ [] →
      ∃ parts, List.Forall₂ (Asks source) (itemTexts selector) parts ∧
        (Sample.ofSelector source (some selector)).lines = withoutSkipped parts.flatten) ∧
    (∀ selector, itemTexts selector = [] →
      (Sample.ofSelector source (some selector)).lines = withoutSkipped source.lines) ∧
    (Sample.ofSelector source none).lines = withoutSkipped source.lines ∧
    (∀ text, hasSkipTag text = true ↔ Text.WordOccurs skipTag text.toList) ∧
    source.lines.map Line.number = List.range' 1 source.lineCount ∧
    ∀ name, source.hasRegion name = false → source.region name = [] := by
  intro source
  refine ⟨fun t lines lines' => Asks.unique, fun selector hitems => ?_,
    fun selector hitems => lines_ofSelector_of_no_items hitems, rfl, hasSkipTag_iff,
    (Source.numberedFrom_lines content).map_number, fun name hname => ?_⟩
  · refine ⟨(itemTexts selector).map fun t => (Item.ofTrimmed t).select source, ?_, ?_⟩
    · exact List.forall₂_map_right_iff.2 (List.forall₂_same.2 fun t _ => asks_ofTrimmed h t)
    · rw [lines_ofSelector_of_items hitems, List.flatMap_def]
  · by_contra hne
    have hregion := (Source.hasRegion_iff content name).2 hne
    rw [hname] at hregion
    cases hregion

/-- A range that ends past every offset, one that covers a skipped line, and an unknown name. -/
theorem ofSelector_asks_of_mixed :
    let source := Source.ofContent "a\nb // skip-sample\nc\n"
    let selector := " 3-99999999999999999999,,1-2 , x"
    source.lineCount < Offset.limit ∧ itemTexts selector ≠ [] ∧
      ∃ parts, List.Forall₂ (Asks source) (itemTexts selector) parts ∧
        withoutSkipped parts.flatten = [.content 3 "c", .content 1 "a"] := by
  intro source selector
  have hcount : source.lineCount < Offset.limit := by decide
  have hitems : itemTexts selector ≠ [] := by decide
  obtain ⟨-, hsome, -⟩ := ofSelector_asks "a\nb // skip-sample\nc\n" hcount
  obtain ⟨parts, hparts, hlines⟩ := hsome selector hitems
  have hsample : (Sample.ofSelector source (some selector)).lines =
      [.content 3 "c", .content 1 "a"] := by decide
  exact ⟨hcount, hitems, parts, hparts, hlines.symm.trans hsample⟩

end Excerpt
