import Excerpt.Options
import Excerpt.Proofs.Selector.Ranges
import Excerpt.Proofs.Text.Runs

/-!
# The skip text of the defaults

The items of the skip text that the defaults hold are its runs between commas and blanks, while an
element writes a selector, whose items are separated by commas alone. What names numbers holds no
blank, so that cutting at blanks too can only bring out further numbers. The words that hide
delimiter lines stand alone in one form just if they do in the other.
-/

namespace Excerpt

open Text (trim isBlank isWordChar runs MaximalRun)

variable {defaults : Defaults} {s : String} {t part : List Char} {c : Char} {k : Nat}

/-- The code points of the comma and of the blanks. -/
def separatorCodes : List Nat :=
  44 :: (List.range' 9 5 ++ [0x20, 0x85, 0xA0, 0x1680] ++ List.range' 0x2000 11 ++
    [0x2028, 0x2029, 0x202F, 0x205F, 0x3000])

theorem toNat_mem_separatorCodes (h : isSkipSeparator c = true) : c.toNat ∈ separatorCodes := by
  rcases Bool.or_eq_true_iff.1 h with hcomma | hblank
  · obtain rfl : c = ',' := by simpa using hcomma
    exact List.mem_cons_self
  · simp only [isBlank, Bool.or_eq_true, Bool.and_eq_true, beq_iff_eq, decide_eq_true_eq] at hblank
    simp only [separatorCodes, List.mem_cons, List.mem_append, List.mem_range'_1,
      List.not_mem_nil, or_false]
    omega

theorem isWordChar_of_isSkipSeparator (h : isSkipSeparator c = true) : isWordChar c = false := by
  -- the separators are so few that each is looked up
  have hall : (separatorCodes.all fun n => !Text.inRuns n Text.wordRuns) = true := by
    decide +kernel
  simpa [isWordChar] using List.all_eq_true.1 hall _ (toNat_mem_separatorCodes h)

/-! ## Items between commas, cut at blanks -/

theorem runs_isBlank_trim (t : List Char) : runs isBlank (trim t) = runs isBlank t := by
  obtain ⟨b, hb, hfront⟩ := Text.exists_blanks t
  obtain ⟨b', hb', hbehind⟩ := Text.exists_blanks_behind (Text.trimLeft t)
  calc runs isBlank (trim t)
      = runs isBlank (trim t ++ b') :=
        (Text.runs_append_separators (Text.allBlank_iff.1 hb') (trim t)).symm
    _ = runs isBlank (b ++ (trim t ++ b')) :=
        (Text.runs_separators_append (Text.allBlank_iff.1 hb) _).symm
    _ = runs isBlank t := by rw [trim, ← hbehind, ← hfront]

theorem runs_isBlank_of_unbroken (h : ∀ c ∈ trim part, isBlank c = false) :
    runs isBlank part = if trim part = [] then [] else [trim part] := by
  rw [← runs_isBlank_trim, Text.runs_of_forall h]

theorem flatMap_runs_isBlank {parts : List (List Char)}
    (h : ∀ part ∈ parts, ∀ c ∈ trim part, isBlank c = false) :
    parts.flatMap (runs isBlank) = (parts.map trim).filter fun item => item ≠ [] := by
  induction parts with
  | nil => rfl
  | cons part parts ih =>
    rw [List.flatMap_cons, runs_isBlank_of_unbroken (h part List.mem_cons_self),
      ih fun other hother => h other (List.mem_cons_of_mem part hother), List.map_cons,
      List.filter_cons]
    by_cases hempty : trim part = [] <;> simp [hempty]

theorem itemTexts_eq_filter_map_runs (s : String) :
    itemTexts s = ((runs (· == ',') s.toList).map trim).filter fun item => item ≠ [] := by
  rw [itemTexts, runs, ← List.splitOn_eq_splitOnP, List.filter_map, List.filter_map,
    List.filter_filter]
  congr 1
  refine List.filter_congr fun part _ => ?_
  cases part <;> simp

namespace Defaults

theorem skipItems_eq_runs (defaults : Defaults) :
    defaults.skipItems = runs isSkipSeparator defaults.skip.toList := rfl

theorem mem_skipItems_iff :
    t ∈ defaults.skipItems ↔ MaximalRun isSkipSeparator defaults.skip.toList t :=
  Text.mem_runs_iff

theorem skipItems_eq_flatMap (defaults : Defaults) :
    defaults.skipItems = (runs (· == ',') defaults.skip.toList).flatMap (runs isBlank) :=
  Text.runs_or (· == ',') isBlank defaults.skip.toList

theorem mem_skipItems_of_mem_itemTexts (ht : t ∈ itemTexts defaults.skip)
    (h : ∀ c ∈ t, isBlank c = false) : t ∈ defaults.skipItems := by
  rw [itemTexts_eq_filter_map_runs, List.mem_filter, List.mem_map] at ht
  obtain ⟨⟨part, hpart, rfl⟩, hne⟩ := ht
  rw [skipItems_eq_flatMap, List.mem_flatMap]
  exact ⟨part, hpart, by rw [runs_isBlank_of_unbroken h, if_neg (by simpa using hne)]; simp⟩

theorem skipItems_eq_itemTexts
    (h : ∀ part ∈ defaults.skip.toList.splitOn ',', ∀ c ∈ trim part, isBlank c = false) :
    defaults.skipItems = itemTexts defaults.skip := by
  rw [skipItems_eq_flatMap, itemTexts_eq_filter_map_runs]
  exact flatMap_runs_isBlank fun part hpart => h part (List.mem_filter.1 hpart).1

/-! ## The items, joined by commas -/

theorem toList_normalizedSkip (defaults : Defaults) :
    defaults.normalizedSkip.toList = [','].intercalate defaults.skipItems := by
  rw [normalizedSkip, String.toList_ofList]

theorem ne_nil_of_mem_skipItems (h : t ∈ defaults.skipItems) : t ≠ [] :=
  (mem_skipItems_iff.1 h).1

theorem isSkipSeparator_of_mem_skipItems (h : t ∈ defaults.skipItems) :
    ∀ c ∈ t, isSkipSeparator c = false :=
  (mem_skipItems_iff.1 h).2.1

theorem isBlank_of_mem_skipItems (h : t ∈ defaults.skipItems) : ∀ c ∈ t, isBlank c = false :=
  fun c hc => (Bool.or_eq_false_iff.1 (isSkipSeparator_of_mem_skipItems h c hc)).2

theorem runs_normalizedSkip {p : Char → Bool} (hcomma : p ',' = true)
    (hp : ∀ c, isSkipSeparator c = false → p c = false) (defaults : Defaults) :
    runs p defaults.normalizedSkip.toList = defaults.skipItems := by
  rw [toList_normalizedSkip]
  exact Text.runs_intercalate hcomma fun item hitem => ⟨ne_nil_of_mem_skipItems hitem,
    fun c hc => hp c (isSkipSeparator_of_mem_skipItems hitem c hc)⟩

theorem itemTexts_normalizedSkip (defaults : Defaults) :
    itemTexts defaults.normalizedSkip = defaults.skipItems := by
  have hcomma (c : Char) (hc : isSkipSeparator c = false) : (c == ',') = false :=
    (Bool.or_eq_false_iff.1 hc).1
  rw [itemTexts_eq_filter_map_runs, runs_normalizedSkip (p := (· == ',')) rfl hcomma]
  have htrim : defaults.skipItems.map trim = defaults.skipItems :=
    (List.map_congr_left fun item hitem =>
      Text.trim_eq_self (isBlank_of_mem_skipItems hitem)).trans (List.map_id _)
  rw [htrim]
  exact List.filter_eq_self.2 fun item hitem => by simpa using ne_nil_of_mem_skipItems hitem

theorem normalizedSkip_eq_of_skipItems_eq {other : Defaults}
    (h : defaults.skipItems = other.skipItems) :
    defaults.normalizedSkip = other.normalizedSkip := by
  rw [normalizedSkip, normalizedSkip, h]

/-- Text that was written once is written again as it stands. -/
theorem normalizedSkip_eq_self {other : Defaults} (h : other.skip = defaults.normalizedSkip) :
    other.normalizedSkip = other.skip := by
  rw [h]
  refine normalizedSkip_eq_of_skipItems_eq ?_
  rw [skipItems_eq_runs, h]
  exact runs_normalizedSkip rfl (fun _ hc => hc) defaults

theorem isBlank_of_mem_normalizedSkip (h : c ∈ defaults.normalizedSkip.toList) :
    isBlank c = false := by
  rw [toList_normalizedSkip] at h
  rcases Text.eq_or_mem_of_mem_intercalate h with rfl | ⟨item, hitem, hc⟩
  · decide
  · exact isBlank_of_mem_skipItems hitem c hc

theorem splitOn_normalizedSkip (h : defaults.skipItems ≠ []) :
    defaults.normalizedSkip.toList.splitOn ',' = defaults.skipItems := by
  rw [toList_normalizedSkip]
  refine List.splitOn_intercalate ',' (fun item hitem hcomma => ?_) h
  exact absurd (isSkipSeparator_of_mem_skipItems hitem ',' hcomma) (by decide)

theorem mentionsDelimiters_normalizedSkip (defaults : Defaults) :
    mentionsDelimiters defaults.normalizedSkip = mentionsDelimiters defaults.skip := by
  have hword (w : List Char) (hall : (w.all fun c => !isSkipSeparator c) = true) (hne : w ≠ []) :
      Text.containsWord w defaults.normalizedSkip.toList =
        Text.containsWord w defaults.skip.toList := by
    have hboundary (c : Char) (hc : isSkipSeparator c = true) : isWordChar c = false :=
      isWordChar_of_isSkipSeparator hc
    have hw : ∀ c ∈ w, isSkipSeparator c = false := by simpa using hall
    rw [Text.containsWord_eq_any_runs hboundary hw hne,
      Text.containsWord_eq_any_runs hboundary hw hne,
      runs_normalizedSkip rfl (fun _ hc => hc), skipItems_eq_runs]
  rw [mentionsDelimiters, mentionsDelimiters, hword _ (by decide) (by decide),
    hword _ (by decide) (by decide)]

end Defaults

/-! ## What the items expand to -/

theorem Item.hasOffset_ofTrimmed : (ofTrimmed t).HasOffset k ↔ ∃ first last,
    NamesNumbers t first last ∧ max (Offset.clamp first) 1 ≤ k + 1 ∧ k + 1 ≤ Offset.clamp last := by
  constructor
  · intro h
    cases hnumbers : numbers? t with
    | none =>
      rw [ofTrimmed_of_name (numbers?_eq_none_iff.1 hnumbers)] at h
      obtain ⟨bounds, hbounds, -⟩ := h
      cases hbounds
    | some pair =>
      have hnames := numbers?_eq_some_iff.1 hnumbers
      rw [ofTrimmed_of_numbers hnames, hasOffset_lines (Offset.clamp_le_limit _)
        (Offset.clamp_le_limit _)] at h
      exact ⟨pair.1, pair.2, hnames, h⟩
  · rintro ⟨first, last, hnames, h⟩
    rwa [ofTrimmed_of_numbers hnames, hasOffset_lines (Offset.clamp_le_limit _)
      (Offset.clamp_le_limit _)]

theorem OffsetSet.contains_ofSelector_iff_itemTexts :
    (OffsetSet.ofSelector s).contains k = true ↔
      ∃ t ∈ itemTexts s, (Item.ofTrimmed t).HasOffset k := by
  rw [contains_ofSelector, selectorItems_eq]
  simp only [List.mem_map, exists_exists_and_eq_and]

theorem Item.isBlank_of_hasOffset (h : (ofTrimmed t).HasOffset k) :
    ∀ c ∈ t, isBlank c = false := by
  obtain ⟨first, last, hnames, -⟩ := hasOffset_ofTrimmed.1 h
  intro c hc
  rcases hnames.isDigit_or_hyphen c hc with hd | rfl
  · exact Text.isBlank_of_isDigit hd
  · decide

theorem OffsetSet.ofSelector_eq_of_itemTexts_eq {s' : String} (h : itemTexts s = itemTexts s') :
    OffsetSet.ofSelector s = OffsetSet.ofSelector s' := by
  rw [ofSelector, ofSelector, selectorItems_eq, selectorItems_eq, h]

theorem RenderOptions.resolve_skip (defaults : Defaults) (attributes : Attributes) :
    (resolve defaults attributes).skip = OffsetSet.ofSelector (skipText defaults attributes) := rfl

theorem RenderOptions.resolve_skipDelimiters (defaults : Defaults) (attributes : Attributes) :
    (resolve defaults attributes).skipDelimiters =
      mentionsDelimiters (skipText defaults attributes) := rfl

theorem RenderOptions.skipText_none (defaults : Defaults) (attributes : Attributes) :
    skipText defaults { attributes with skip := none } = defaults.normalizedSkip := rfl

/-- A blank text counts for nothing in an element, and in the defaults it has no items. -/
theorem RenderOptions.skipText_some (defaults : Defaults) (attributes : Attributes) (s : String) :
    skipText { defaults with skip := "" } { attributes with skip := some s } =
      if Text.allBlank s.toList then { defaults with skip := s }.normalizedSkip else s := by
  have hpresent : Attributes.present? (some s) =
    if Text.allBlank s.toList then none else some s := rfl
  rw [skipText, hpresent]
  by_cases hblank : Text.allBlank s.toList = true
  · have hruns : runs isSkipSeparator (s.toList ++ []) = runs isSkipSeparator [] :=
      Text.runs_separators_append
        (fun c hc => by simp [isSkipSeparator, Text.allBlank_iff.1 hblank c hc]) []
    rw [if_pos hblank, if_pos hblank, Option.getD_none]
    refine Defaults.normalizedSkip_eq_of_skipItems_eq ?_
    rw [Defaults.skipItems_eq_runs, Defaults.skipItems_eq_runs, ← List.append_nil s.toList, hruns]
    rfl
  · rw [if_neg hblank, if_neg hblank, Option.getD_some]

/-- The same skip text in the defaults and in an element hides the delimiter lines in both or in
neither. The defaults skip every offset that the element skips, and no further one if no item
between commas is broken by a blank. Writing the items of the defaults as one text, with commas
only, changes nothing when it is done again, leaves no empty item and no blank, and stands for the
offsets of the runs between commas and blanks. -/
theorem default_skip_agrees (s : String) (defaults : Defaults) (attributes : Attributes) :
    let standing : Defaults := { defaults with skip := s }
    let byDefault := RenderOptions.resolve standing { attributes with skip := none }
    let byElement :=
      RenderOptions.resolve { defaults with skip := "" } { attributes with skip := some s }
    let normalized := standing.normalizedSkip
    byElement.skipDelimiters = byDefault.skipDelimiters ∧
    (∀ k, byElement.skip.contains k = true → byDefault.skip.contains k = true) ∧
    ((∀ part ∈ s.toList.splitOn ',', ∀ c ∈ trim part, isBlank c = false) →
      byElement.skip = byDefault.skip) ∧
    { defaults with skip := normalized }.normalizedSkip = normalized ∧
    (normalized ≠ "" → ∀ part ∈ normalized.toList.splitOn ',', part ≠ []) ∧
    (∀ c ∈ normalized.toList, isBlank c = false) ∧
    ∀ k, (OffsetSet.ofSelector normalized).contains k = true ↔
      ∃ run first last, MaximalRun isSkipSeparator s.toList run ∧ NamesNumbers run first last ∧
        max (Offset.clamp first) 1 ≤ k + 1 ∧ k + 1 ≤ Offset.clamp last := by
  intro standing byDefault byElement normalized
  simp only [byDefault, byElement, RenderOptions.resolve_skip,
    RenderOptions.resolve_skipDelimiters, RenderOptions.skipText_none, RenderOptions.skipText_some]
  refine ⟨?_, fun k => ?_, fun hunbroken => ?_, Defaults.normalizedSkip_eq_self rfl,
    fun hne => ?_, fun c => Defaults.isBlank_of_mem_normalizedSkip, fun k => ?_⟩
  · split
    · rfl
    · exact (Defaults.mentionsDelimiters_normalizedSkip standing).symm
  · split
    · exact id
    · rw [OffsetSet.contains_ofSelector_iff_itemTexts, OffsetSet.contains_ofSelector_iff_itemTexts,
        Defaults.itemTexts_normalizedSkip]
      rintro ⟨t, ht, hk⟩
      exact ⟨t, Defaults.mem_skipItems_of_mem_itemTexts ht (Item.isBlank_of_hasOffset hk), hk⟩
  · split
    · rfl
    · have hitems : standing.skipItems = itemTexts standing.skip :=
        Defaults.skipItems_eq_itemTexts hunbroken
      refine OffsetSet.ofSelector_eq_of_itemTexts_eq ?_
      rw [Defaults.itemTexts_normalizedSkip, hitems]
  · have hitems : standing.skipItems ≠ [] := by
      intro hnil
      refine hne ?_
      change String.ofList ([','].intercalate standing.skipItems) = ""
      rw [hnil]
      rfl
    rw [Defaults.splitOn_normalizedSkip hitems]
    exact fun part => Defaults.ne_nil_of_mem_skipItems
  · rw [OffsetSet.contains_ofSelector_iff_itemTexts, Defaults.itemTexts_normalizedSkip]
    simp only [Defaults.mem_skipItems_iff, Item.hasOffset_ofTrimmed]
    constructor
    · rintro ⟨run, hrun, first, last, h⟩
      exact ⟨run, first, last, hrun, h⟩
    · rintro ⟨run, first, last, hrun, h⟩
      exact ⟨run, hrun, first, last, h⟩

/-- Blanks around commas, an empty item and a word for delimiter lines. Both forms read it alike. -/
theorem default_skip_agrees_of_padded :
    let s := " 2-3 ,,	delimiters
, 5"
    let standing : Defaults := { skip := s }
    (∀ part ∈ s.toList.splitOn ',', ∀ c ∈ trim part, isBlank c = false) ∧
      (RenderOptions.resolve { skip := "" } { skip := some s }).skip.toList = [1, 2, 4] ∧
      (RenderOptions.resolve standing {}).skip.toList = [1, 2, 4] ∧
      (RenderOptions.resolve standing {}).skipDelimiters = true ∧
      standing.normalizedSkip = "2-3,delimiters,5" ∧ standing.normalizedSkip ≠ "" ∧
      ∀ part ∈ standing.normalizedSkip.toList.splitOn ',', part ≠ [] := by
  intro s standing
  have hunbroken : ∀ part ∈ s.toList.splitOn ',', ∀ c ∈ trim part, isBlank c = false := by
    have hall : ((s.toList.splitOn ',').all fun part => (trim part).all fun c => !isBlank c) =
        true := by decide
    simpa using hall
  obtain ⟨hdelimiters, -, hequal, -, hempty, -⟩ := default_skip_agrees s {} {}
  have hoffsets :
      (RenderOptions.resolve { skip := "" } { skip := some s }).skip.toList = [1, 2, 4] := by decide
  have hdefault : (RenderOptions.resolve standing {}).skip.toList = [1, 2, 4] := by
    rw [← hoffsets]
    exact congrArg OffsetSet.toList (hequal hunbroken).symm
  have hnormalized : standing.normalizedSkip = "2-3,delimiters,5" := by decide
  have hne : standing.normalizedSkip ≠ "" := by simp [hnormalized]
  refine ⟨hunbroken, hoffsets, hdefault, ?_, hnormalized, hne, hempty hne⟩
  exact hdelimiters.symm.trans (by decide +kernel)

/-- An item that a blank breaks names a region in an element and two lines in the defaults. -/
example : (RenderOptions.resolve { skip := "" } { skip := some "2 4" }).skip.toList = [] ∧
    (RenderOptions.resolve { skip := "2 4" } {}).skip.toList = [1, 3] := by decide

end Excerpt
