import Excerpt.Proofs.Rendering.Offsets
import Excerpt.Proofs.Request.RegionName

/-!
# Samples without lines

A request fails just if no line of its file is both covered by an item of its selector and free of
the skip tag. Unknown regions, regions without content, reversed ranges and ranges past the file
cover nothing, each in its own way. What the options hide afterwards has no say in it, and may leave
an empty display.
-/

namespace Excerpt

variable {content : String} {line : Line} {t : List Char} {selector : Option String} {k : Nat}

/-- An item with the given text covers the line: its number is in the range, or a region of that
name is open there and it delimits none. Numbers past the largest offset stand for that offset. -/
inductive Covers (content : String) (line : Line) : List Char → Prop
  | numbers {t : List Char} {first last : Nat} (h : NamesNumbers t first last)
      (hfirst : Offset.clamp first ≤ line.number) (hlast : line.number ≤ Offset.clamp last) :
      Covers content line t
  | region {t : List Char} {offset : Nat} {o : Opening}
      (h : ∀ first last, ¬ NamesNumbers t first last)
      (hline : (Source.ofContent content).lines[offset]? = some line)
      (hcontent : line.isDelimiter = false) (hopen : OpenAt (Source.classified content) offset o)
      (hname : o.name = String.ofList t) : Covers content line t

/-- Some item of the selector covers the line, unless there are no items, which covers them all. -/
def CoveredBy (content : String) (selector : Option String) (line : Line) : Prop :=
  itemTexts (selector.getD "") = [] ∨ ∃ t ∈ itemTexts (selector.getD ""), Covers content line t

/-- Whether the options hide the line at an offset of a sample. -/
def RenderOptions.Hides (options : RenderOptions) (line : Line) (offset : Nat) : Prop :=
  options.skip.contains offset = true ∨ options.skipDelimiters = true ∧ line.isDelimiter = true

/-! ## Lines that are covered -/

theorem covers_iff_of_numbers {first last : Nat} (h : NamesNumbers t first last) :
    Covers content line t ↔
      Offset.clamp first ≤ line.number ∧ line.number ≤ Offset.clamp last := by
  constructor
  · intro hcovers
    cases hcovers with
    | numbers h' hfirst hlast =>
      have hsame := (Item.numbers?_eq_some_iff.2 h).symm.trans (Item.numbers?_eq_some_iff.2 h')
      obtain ⟨rfl, rfl⟩ := Prod.mk.inj (Option.some.inj hsame)
      exact ⟨hfirst, hlast⟩
    | region h' => exact absurd h (h' first last)
  · rintro ⟨hfirst, hlast⟩
    exact .numbers h hfirst hlast

theorem covers_iff_of_name (h : ∀ first last, ¬ NamesNumbers t first last) :
    Covers content line t ↔ line ∈ (Source.ofContent content).region (String.ofList t) := by
  rw [Source.mem_region_iff]
  constructor
  · intro hcovers
    cases hcovers with
    | numbers h' => exact absurd h' (h _ _)
    | region _ hline hcontent hopen hname => exact ⟨_, hline, hcontent, _, hopen, hname⟩
  · rintro ⟨offset, hline, hcontent, o, hopen, hname⟩
    exact .region h hline hcontent hopen hname

theorem mem_select_iff : line ∈ (Item.ofTrimmed t).select (Source.ofContent content) ↔
    line ∈ (Source.ofContent content).lines ∧ Covers content line t := by
  cases hn : Item.numbers? t with
  | some pair =>
    have hnumbers := Item.numbers?_eq_some_iff.1 hn
    rw [Item.ofTrimmed_of_numbers hnumbers, covers_iff_of_numbers hnumbers, select_lines_eq_filter
      content (Offset.clamp_le_limit _) (Offset.clamp_le_limit _), List.mem_filter]
    refine and_congr_right fun hline => ?_
    have hpos : 0 < line.number := (Source.numberedFrom_lines content).lt_number hline
    rw [decide_eq_true_eq]
    omega
  | none =>
    have hname := Item.numbers?_eq_none_iff.1 hn
    rw [Item.ofTrimmed_of_name hname, covers_iff_of_name hname]
    exact (and_iff_right_of_imp mem_lines_of_mem_select).symm

/-- In a file that offsets can count, numbers cover what they say. -/
theorem covers_iff_of_lineCount_lt {first last : Nat}
    (hcount : (Source.ofContent content).lineCount < Offset.limit)
    (hline : line ∈ (Source.ofContent content).lines) (h : NamesNumbers t first last) :
    Covers content line t ↔ first ≤ line.number ∧ line.number ≤ last := by
  have hnumber : line.number ≤ 0 + (Source.ofContent content).lineCount :=
    (Source.numberedFrom_lines content).number_le hline
  rw [covers_iff_of_numbers h]
  unfold Offset.clamp
  omega

theorem mem_lines_ofSelector_iff :
    line ∈ (Sample.ofSelector (Source.ofContent content) selector).lines ↔
      line ∈ (Source.ofContent content).lines ∧ CoveredBy content selector line ∧
        hasSkipTag line.text = false := by
  have hlines : (Sample.ofSelector (Source.ofContent content) selector).lines =
      (Sample.ofSelector (Source.ofContent content) (some (selector.getD ""))).lines := by
    cases selector <;> rfl
  rw [hlines, CoveredBy]
  by_cases hitems : itemTexts (selector.getD "") = []
  · rw [lines_ofSelector_of_no_items hitems, mem_withoutSkipped]
    simp [hitems]
  · rw [lines_ofSelector_of_items hitems, mem_withoutSkipped, List.mem_flatMap, or_iff_right hitems]
    simp only [mem_select_iff]
    constructor
    · rintro ⟨⟨t, ht, hline, hcovers⟩, htag⟩
      exact ⟨hline, ⟨t, ht, hcovers⟩, htag⟩
    · rintro ⟨hline, ⟨t, ht, hcovers⟩, htag⟩
      exact ⟨⟨t, ht, hline, hcovers⟩, htag⟩

theorem lines_ofSelector_eq_nil_iff :
    (Sample.ofSelector (Source.ofContent content) selector).lines = [] ↔
      ¬ ∃ line ∈ (Source.ofContent content).lines, CoveredBy content selector line ∧
        hasSkipTag line.text = false := by
  rw [List.eq_nil_iff_forall_not_mem, not_exists]
  exact forall_congr' fun line => not_congr mem_lines_ofSelector_iff

/-! ## Lines that are hidden -/

theorem keeps_eq_false_iff {options : RenderOptions} :
    options.keeps line k = false ↔ options.Hides line k := by
  rw [RenderOptions.keeps, RenderOptions.Hides]
  cases options.skip.contains k <;> cases options.skipDelimiters <;> cases line.isDelimiter <;> simp

theorem render_eq_nil_iff {sample : Sample} {options : RenderOptions} :
    sample.render options = [] ↔
      ∀ k line, sample.lines[k]? = some line → options.Hides line k := by
  have hsurvivors : sample.render options = [] ↔ sample.survivors options = [] := by
    rw [← List.length_eq_zero_iff, Sample.length_render, ← Sample.length_survivors,
      List.length_eq_zero_iff]
  rw [hsurvivors, Sample.survivors, List.filter_eq_nil_iff, Prod.forall, forall_comm]
  refine forall_congr' fun k => forall_congr' fun line => ?_
  rw [List.mem_zipIdx_iff_getElem?, Bool.not_eq_true, keeps_eq_false_iff]

/-! ## When a request fails -/

theorem Request.render_eq_error_iff {request : Request} {defaults : Defaults}
    {failure : SampleFailure} :
    request.render (Source.ofContent content) defaults = .error failure ↔
      (Sample.ofSelector (Source.ofContent content) request.selector).lines = [] ∧
        failure = .empty request.file request.selector := by
  rw [Request.render_eq]
  by_cases hlines : (Sample.ofSelector (Source.ofContent content) request.selector).lines = []
  · rw [if_pos hlines, Except.error.injEq, eq_comm (b := failure), and_iff_right hlines]
  · rw [if_neg hlines]
    simp [hlines]

/-- A request fails just if no line of its file is both covered and free of the skip tag. The
failure names its file and its selector as they were asked for, and is the same for all attributes
and defaults. A request that does not fail displays no line just if its options hide every line of
its sample. In a file that offsets can count, numbers past the largest offset cover what they
say. -/
theorem sample_fails_iff (content slug : String) (attributes : Attributes) (defaults : Defaults) :
    let source := Source.ofContent content
    let request := Request.ofSlug slug attributes
    let sample := Sample.ofSelector source request.selector
    let options := RenderOptions.resolve defaults attributes
    ((∃ failure, request.render source defaults = .error failure) ↔
      ¬ ∃ line ∈ source.lines, CoveredBy content request.selector line ∧
        hasSkipTag line.text = false) ∧
    (∀ failure, request.render source defaults = .error failure →
      failure = ⟨.emptySample, request.file, request.selector⟩) ∧
    (∀ attributes' defaults' failure,
      (Request.ofSlug slug attributes').render source defaults' = .error failure ↔
        request.render source defaults = .error failure) ∧
    (∀ shown, request.render source defaults = .ok shown →
      (shown.lines = [] ↔ ∀ k line, sample.lines[k]? = some line → options.Hides line k)) ∧
    (∀ line ∈ source.lines, CoveredBy content request.selector line → hasSkipTag line.text = false →
      (∀ k line, sample.lines[k]? = some line → options.Hides line k) →
        request.render source defaults = .ok ⟨[], request.contentType?⟩) ∧
    (source.lineCount < Offset.limit → ∀ line ∈ source.lines, ∀ t first last,
      NamesNumbers t first last →
        (Covers content line t ↔ first ≤ line.number ∧ line.number ≤ last)) := by
  intro source request sample options
  refine ⟨?_, fun failure hfailure => (Request.render_eq_error_iff.1 hfailure).2,
    fun attributes' defaults' failure => ?_, fun shown hshown => ?_,
    fun line hline hcovered htag hhidden => ?_,
    fun hcount line hline t first last => covers_iff_of_lineCount_lt hcount hline⟩
  · rw [← lines_ofSelector_eq_nil_iff]
    constructor
    · rintro ⟨failure, hfailure⟩
      exact (Request.render_eq_error_iff.1 hfailure).1
    · intro hlines
      exact ⟨_, Request.render_eq_error_iff.2 ⟨hlines, rfl⟩⟩
  · -- neither the file nor the selector of a slug depends on the attributes
    rw [Request.render_eq_error_iff, Request.render_eq_error_iff]
    rfl
  · rw [Request.render_eq] at hshown
    split at hshown
    · cases hshown
    · obtain rfl := Except.ok.inj hshown
      exact render_eq_nil_iff
  · have hne : sample.lines ≠ [] :=
      List.ne_nil_of_mem (mem_lines_ofSelector_iff.2 ⟨hline, hcovered, htag⟩)
    have hempty : sample.render options = [] := render_eq_nil_iff.2 hhidden
    have hrender : request.render source defaults =
        .ok ⟨sample.render options, request.contentType?⟩ := by
      rw [Request.render_eq, if_neg hne]
      rfl
    rw [hrender, hempty]

/-- A region whose only line is skipped, a reversed range, a range past the file and an unknown name
together fail. A single line that the options hide does not. -/
theorem sample_fails_iff_of_mixed :
    let content := "// sample(a)\nx // skip-sample\n// end-sample(a)\ny\n"
    let source := Source.ofContent content
    let failing := Request.ofSlug "f.js#a,4-1, 9 ,b" {}
    let hidden := Request.ofSlug "f.js#4" { skip := some "1" }
    let line := Line.content 4 "y"
    failing.render source {} = .error ⟨.emptySample, "f.js", some "a,4-1, 9 ,b"⟩ ∧
      (¬ ∃ line ∈ source.lines, CoveredBy content failing.selector line ∧
        hasSkipTag line.text = false) ∧
      line ∈ source.lines ∧ CoveredBy content hidden.selector line ∧
      hasSkipTag line.text = false ∧ hidden.render source {} = .ok ⟨[], some "js"⟩ := by
  intro content source failing hidden line
  have hfailure : failing.render source {} = .error ⟨.emptySample, "f.js", some "a,4-1, 9 ,b"⟩ := by
    decide
  have hline : line ∈ source.lines := by decide
  have htag : hasSkipTag line.text = false := by decide
  have hnumbers : NamesNumbers ['4'] 4 4 := Item.numbers?_eq_some_iff.1 (by decide)
  have hsample : (Sample.ofSelector source hidden.selector).lines = [line] := by decide
  obtain ⟨hfails, -⟩ := sample_fails_iff content "f.js#a,4-1, 9 ,b" {} {}
  obtain ⟨-, -, -, -, hhides, hcovers⟩ := sample_fails_iff content "f.js#4" { skip := some "1" } {}
  have hcovers' : Covers content line ['4'] :=
    (hcovers (by decide) line hline ['4'] 4 4 hnumbers).2 ⟨by decide, by decide⟩
  have hcovered : CoveredBy content hidden.selector line := .inr ⟨['4'], by decide, hcovers'⟩
  refine ⟨hfailure, hfails.1 ⟨_, hfailure⟩, hline, hcovered, htag,
    hhides line hline hcovered htag ?_⟩
  intro k other hother
  rw [hsample] at hother
  obtain ⟨rfl, -⟩ : k = 0 ∧ line = other := by simpa [List.getElem?_singleton] using hother
  exact .inl (by decide)

end Excerpt
