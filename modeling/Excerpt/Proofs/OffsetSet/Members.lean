import Excerpt.OffsetSet
import Mathlib.Data.List.Induction
import Mathlib.Data.List.Sort

/-!
# The members of an offset set

A set into which ranges are put, one after the other, has just the offsets of these ranges as its
members. Whatever is asked of a set can be told from its members alone, so that neither the order
of the ranges nor their overlaps and repetitions show. A range without offsets leaves no trace.
-/

namespace Excerpt.OffsetSet

variable {set set' : OffsetSet} {offset k : Nat} {offsets : List Nat}

/-! ## The members in ascending order -/

theorem mem_insertAscending :
    k ∈ insertAscending offset offsets ↔ k = offset ∨ k ∈ offsets := by
  induction offsets with
  | nil => simp [insertAscending]
  | cons a offsets ih =>
    simp only [insertAscending]
    split
    · exact List.mem_cons
    · split
      · rename_i heq
        rw [heq, List.mem_cons, or_self_left]
      · rw [List.mem_cons, List.mem_cons, ih, or_left_comm]

theorem pairwise_insertAscending (offset : Nat) (h : offsets.Pairwise (· < ·)) :
    (insertAscending offset offsets).Pairwise (· < ·) := by
  induction offsets with
  | nil => exact List.pairwise_singleton _ offset
  | cons a offsets ih =>
    obtain ⟨hfirst, hrest⟩ := List.pairwise_cons.1 h
    simp only [insertAscending]
    split
    · rename_i hlt
      refine List.pairwise_cons.2 ⟨fun b hb => ?_, h⟩
      rcases List.mem_cons.1 hb with rfl | hb
      · exact hlt
      · exact Nat.lt_trans hlt (hfirst b hb)
    · split
      · exact h
      · refine List.pairwise_cons.2 ⟨fun b hb => ?_, ih hrest⟩
        rcases mem_insertAscending.1 hb with rfl | hb
        · omega
        · exact hfirst b hb

theorem mem_foldr_insertAscending :
    k ∈ offsets.foldr insertAscending [] ↔ k ∈ offsets := by
  induction offsets with
  | nil => rfl
  | cons a offsets ih => rw [List.foldr_cons, mem_insertAscending, ih, List.mem_cons]

theorem pairwise_toList (set : OffsetSet) : set.toList.Pairwise (· < ·) := by
  unfold toList
  induction set.spans.flatMap Span.toList with
  | nil => exact List.Pairwise.nil
  | cons a offsets ih => exact pairwise_insertAscending a ih

theorem mem_toList : k ∈ set.toList ↔ set.contains k = true := by
  simp only [toList, mem_foldr_insertAscending, List.mem_flatMap, contains, List.any_eq_true]
  refine exists_congr fun span => and_congr_right fun _ => ?_
  -- the length of a span is a difference that stops at zero, and a span is never empty
  have hlt := span.first_lt_stop
  simp only [Span.toList, Span.contains, List.mem_range'_1, Bool.and_eq_true, decide_eq_true_eq]
  omega

/-- A set has no empty span, so that it has no span only if it has no member. -/
theorem isEmpty_iff : set.isEmpty = true ↔ ∀ k, set.contains k = false := by
  constructor
  · intro h k
    rw [contains, List.isEmpty_iff.1 h, List.any_nil]
  · intro h
    refine List.isEmpty_iff.2 (List.eq_nil_iff_forall_not_mem.2 fun span hspan => ?_)
    have hfirst : set.contains span.first = true :=
      List.any_eq_true.2 ⟨span, hspan, span.contains_first⟩
    rw [h span.first] at hfirst
    cases hfirst

/-! ## Sets with the same members -/

/-- Whatever is asked, two sets give the same answer. -/
structure SameAnswers (set set' : OffsetSet) : Prop where
  contains (k : Nat) : set.contains k = set'.contains k
  isEmpty : set.isEmpty = set'.isEmpty
  toList : set.toList = set'.toList

theorem SameAnswers.of_contains (h : ∀ k, set.contains k = set'.contains k) :
    SameAnswers set set' where
  contains := h
  isEmpty := by
    rw [Bool.eq_iff_iff, isEmpty_iff, isEmpty_iff]
    simp only [h]
  toList := by
    refine (pairwise_toList set).eq_of_mem_iff (pairwise_toList set') fun k => ?_
    rw [mem_toList, mem_toList, h]

/-! ## Putting in ranges -/

/-- The set of the offsets from `first` up to `stop` for each pair of these, in turn. -/
def ofRanges (ranges : List (Nat × Nat)) : OffsetSet :=
  ranges.foldl (fun set range => set.insertRange range.1 range.2) empty

theorem ofRanges_append_singleton (ranges : List (Nat × Nat)) (range : Nat × Nat) :
    ofRanges (ranges ++ [range]) = (ofRanges ranges).insertRange range.1 range.2 :=
  List.foldl_append

theorem contains_ofRanges {ranges : List (Nat × Nat)} :
    (ofRanges ranges).contains k = true ↔ ∃ range ∈ ranges, range.1 ≤ k ∧ k < range.2 := by
  -- by the range that is put in last
  induction ranges using List.reverseRecOn with
  | nil => simp [ofRanges]
  | append_singleton ranges range ih =>
    rw [ofRanges_append_singleton, contains_insertRange, Bool.or_eq_true, ih]
    simp [or_and_right, exists_or]

theorem spans_insertRange (set : OffsetSet) (range : Nat × Nat) :
    (set.insertRange range.1 range.2).spans.map (fun span => (span.first, span.stop)) =
      set.spans.map (fun span => (span.first, span.stop)) ++
        [range].filter fun range => range.1 < range.2 := by
  by_cases h : range.1 < range.2 <;> simp [insertRange, h]

/-- Of the ranges that are put in, those with an offset are kept as they are. -/
theorem spans_ofRanges (ranges : List (Nat × Nat)) :
    (ofRanges ranges).spans.map (fun span => (span.first, span.stop)) =
      ranges.filter fun range => range.1 < range.2 := by
  induction ranges using List.reverseRecOn with
  | nil => rfl
  | append_singleton ranges range ih =>
    rw [ofRanges_append_singleton, spans_insertRange, ih, List.filter_append]

/-- What a set of ranges has for members, whether there are any, and which they are in ascending
order. The same ranges in another order, or more than once, make no difference to any of this. -/
theorem ranges_inserted (ranges : List (Nat × Nat)) :
    (∀ k, (ofRanges ranges).contains k = true ↔ ∃ range ∈ ranges, range.1 ≤ k ∧ k < range.2) ∧
    ((ofRanges ranges).isEmpty = true ↔ ∀ k, (ofRanges ranges).contains k = false) ∧
    (ofRanges ranges).spans.map (fun span => (span.first, span.stop)) =
      ranges.filter (fun range => range.1 < range.2) ∧
    (ofRanges ranges).toList.Pairwise (· < ·) ∧
    (∀ k, k ∈ (ofRanges ranges).toList ↔ (ofRanges ranges).contains k = true) ∧
    ∀ ranges', (∀ range, range ∈ ranges' ↔ range ∈ ranges) →
      SameAnswers (ofRanges ranges') (ofRanges ranges) := by
  refine ⟨fun k => contains_ofRanges, isEmpty_iff, spans_ofRanges ranges, pairwise_toList _,
    fun k => mem_toList, fun ranges' hsame => .of_contains fun k => ?_⟩
  rw [Bool.eq_iff_iff, contains_ofRanges, contains_ofRanges]
  simp only [hsame]

/-- Ranges that overlap, meet, are reversed or come twice, against the same ones in another order
and number. -/
theorem ranges_inserted_of_overlapping :
    let ranges := [(2, 5), (9, 9), (4, 7), (8, 3), (7, 8), (2, 5)]
    let ranges' := [(7, 8), (8, 3), (4, 7), (2, 5), (9, 9), (9, 9)]
    (∀ range, range ∈ ranges' ↔ range ∈ ranges) ∧
      SameAnswers (ofRanges ranges') (ofRanges ranges) ∧
      (ofRanges ranges').toList = [2, 3, 4, 5, 6, 7] := by
  intro ranges ranges'
  have hsame : ∀ range, range ∈ ranges' ↔ range ∈ ranges := by
    intro range
    simp only [ranges, ranges', List.mem_cons, List.not_mem_nil, or_false]
    tauto
  obtain ⟨-, -, -, -, -, hanswers⟩ := ranges_inserted ranges
  exact ⟨hsame, hanswers ranges' hsame, by decide⟩

/-! ## Putting in single offsets -/

/-- A single offset is put in with the next one as its end, which the largest offset has none of. -/
theorem ofList_eq_ofRanges (offsets : List Nat) :
    ofList offsets = ofRanges (offsets.map fun offset => (offset, Offset.add offset 1)) := by
  rw [ofRanges, List.foldl_map]
  rfl

theorem contains_ofList :
    (ofList offsets).contains k = true ↔ k ∈ offsets ∧ k < Offset.limit := by
  rw [ofList_eq_ofRanges, contains_ofRanges]
  constructor
  · rintro ⟨range, hrange, hle, hlt⟩
    obtain ⟨offset, hoffset, rfl⟩ := List.mem_map.1 hrange
    simp only [Offset.add, Offset.clamp] at hle hlt
    obtain rfl : offset = k := by omega
    exact ⟨hoffset, by omega⟩
  · rintro ⟨hk, hlt⟩
    refine ⟨(k, Offset.add k 1), List.mem_map.2 ⟨k, hk, rfl⟩, Nat.le_refl k, ?_⟩
    rw [Offset.add_of_le hlt]
    exact Nat.lt_succ_self k

/-- A set collected from a list has the offsets of the list as its members, save the largest offset
of all, which has no next one and is dropped. A list of nothing else gives the empty set. -/
theorem offsets_collected (offsets : List Nat) :
    (∀ k, (ofList offsets).contains k = true ↔ k ∈ offsets ∧ k < Offset.limit) ∧
    ((ofList offsets).isEmpty = true ↔ ∀ k ∈ offsets, Offset.limit ≤ k) ∧
    (ofList offsets).toList.Pairwise (· < ·) ∧
    (∀ k, k ∈ (ofList offsets).toList ↔ k ∈ offsets ∧ k < Offset.limit) ∧
    ∀ offsets', (∀ k < Offset.limit, k ∈ offsets' ↔ k ∈ offsets) →
      SameAnswers (ofList offsets') (ofList offsets) := by
  refine ⟨fun k => contains_ofList, ?_, pairwise_toList _,
    fun k => mem_toList.trans contains_ofList, fun offsets' hsame => .of_contains fun k => ?_⟩
  · simp only [isEmpty_iff, ← Bool.not_eq_true, contains_ofList, not_and, Nat.not_lt]
  · rw [Bool.eq_iff_iff, contains_ofList, contains_ofList]
    exact and_congr_left (hsame k)

/-- Lists that differ in order, in repetitions and in the largest offset. -/
theorem offsets_collected_of_repeated :
    let offsets := [4, 0, 4, 18446744073709551614]
    let offsets' := [Offset.limit, 0, 18446744073709551614, 4]
    (∀ k < Offset.limit, k ∈ offsets' ↔ k ∈ offsets) ∧
      SameAnswers (ofList offsets') (ofList offsets) ∧
      (ofList offsets').toList = [0, 4, 18446744073709551614] := by
  intro offsets offsets'
  have hsame : ∀ k < Offset.limit, k ∈ offsets' ↔ k ∈ offsets := by
    intro k hk
    simp only [offsets, offsets', List.mem_cons, List.not_mem_nil, or_false]
    omega
  obtain ⟨-, -, -, -, hanswers⟩ := offsets_collected offsets
  exact ⟨hsame, hanswers offsets' hsame, by decide⟩

/-- The largest offset is lost, and a set that is collected from it alone is empty. -/
theorem largest_offset_dropped :
    Offset.limit ∈ [Offset.limit] ∧ (ofList [Offset.limit]).contains Offset.limit = false ∧
      (ofList [Offset.limit]).isEmpty = true ∧ (ofList [Offset.limit]).toList = [] := by decide

end Excerpt.OffsetSet
