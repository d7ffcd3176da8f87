import Excerpt.Proofs.Region.Openings
import Excerpt.Proofs.Source.Layout
import Mathlib.Data.List.Forall2

/-!
# Regions counted apart

All regions of a file share one stack, and an end without a name closes whichever stands on top.
Where every end gives a name, no region has a say in another one: the stack holds a name as often
as a counter says that goes by the delimiters of this name alone. So a content line belongs to a
region just when the counter of the region is above zero there.
-/

namespace Excerpt

/-- How often a region is open after a delimiter, from how often it was open before. An end that
finds it closed leaves it so. -/
def Delimiter.depthAfter (name : String) (depth : Nat) : Delimiter → Nat
  | start other => if other = name then depth + 1 else depth
  | endNamed other => if other = name then depth - 1 else depth
  | endLast => depth

def depthAfter (name : String) (depth : Nat) : List Char × Option Delimiter → Nat
  | (_, some d) => d.depthAfter name depth
  | (_, none) => depth

/-- How often a region is open at each line of a file, and after the last. -/
def Source.depths (content name : String) : List Nat :=
  (classified content).scanl (depthAfter name) 0

/-- Whether every end in a file gives a name. -/
def Source.EndsNamed (content : String) : Prop :=
  ∀ line ∈ (ofContent content).lines, line.kind ≠ .regionEnd

instance (content : String) : Decidable (Source.EndsNamed content) :=
  inferInstanceAs (Decidable (∀ line ∈ _, _))

/-- Two lines that are the same to a region: content with the same text, the same delimiter of its
own, or any two delimiters of others. -/
inductive AlikeFor (name : String) :
    List Char × Option Delimiter → List Char × Option Delimiter → Prop
  | content (text : List Char) : AlikeFor name (text, none) (text, none)
  | own {d : Delimiter} (h : d.name? = some name) (text text' : List Char) :
      AlikeFor name (text, some d) (text', some d)
  | other {d d' : Delimiter} (h : d.name? ≠ some name) (h' : d'.name? ≠ some name)
      (text text' : List Char) : AlikeFor name (text, some d) (text', some d')

section

variable {name : String} {d : Delimiter} {lines lines' : List (List Char × Option Delimiter)}

theorem Source.EndsNamed.ne_endLast {content : String} (h : EndsNamed content) :
    ∀ line ∈ classified content, line.2 ≠ some .endLast := by
  intro line hl hd
  have hkind : LineKind.ofDelimiter line.2 ∈ (ofContent content).lines.map Line.kind := by
    rw [map_kind_lines]
    exact List.mem_map_of_mem hl
  obtain ⟨kept, hkept, he⟩ := List.mem_map.1 hkind
  refine h kept hkept ?_
  rw [he, hd]
  rfl

/-! ## The stack and the counter -/

theorem count_apply (name : String) (opened : List String) (h : d ≠ .endLast) :
    (d.apply opened).count name = d.depthAfter name (opened.count name) := by
  cases d with
  | start other => by_cases ho : other = name <;> simp [Delimiter.depthAfter, ho]
  | endNamed other =>
    by_cases ho : other = name <;> simp [Delimiter.depthAfter, List.count_erase, ho]
  | endLast => exact absurd rfl h

theorem depthAfter_of_name?_ne (h : d.name? ≠ some name) (depth : Nat) :
    d.depthAfter name depth = depth := by
  cases d with
  | start other => exact if_neg fun ho => h (congrArg some ho)
  | endNamed other => exact if_neg fun ho => h (congrArg some ho)
  | endLast => rfl

/-- The induction is over the lines with any regions open before them. All that the counter knows
of these is how many have the name, and every delimiter keeps it so. -/
theorem map_covered (h : ∀ line ∈ lines, line.2 ≠ some .endLast) (name : String)
    (opened : List String) (start : Nat) :
    (covered name opened start lines).map Source.contentLine =
      (((Source.numberedAt start lines).zip
          (lines.scanl (depthAfter name) (opened.count name))).filter
        fun (line, depth) => !line.isDelimiter && 0 < depth).map Prod.fst := by
  induction lines generalizing opened start with
  | nil => rfl
  | cons line lines ih =>
    obtain ⟨hline, hlines⟩ := List.forall_mem_cons.1 h
    obtain ⟨text, _ | d⟩ := line
    · rw [covered, List.map_append, ih hlines, Source.numberedAt_cons, List.scanl_cons,
        List.zip_cons_cons]
      by_cases hn : name ∈ opened
      · rw [if_pos hn, List.filter_cons_of_pos
          (by simp [hn, Line.isDelimiter, LineKind.isDelimiter_ofDelimiter])]
        rfl
      · have hzero : opened.count name = 0 := List.count_eq_zero.2 hn
        rw [if_neg hn, List.filter_cons_of_neg (by simp [hzero])]
        rfl
    · have hd : d ≠ .endLast := fun he => hline (congrArg some he)
      rw [covered, ih hlines, Source.numberedAt_cons, List.scanl_cons, List.zip_cons_cons,
        List.filter_cons_of_neg (by simp [Line.isDelimiter, LineKind.isDelimiter_ofDelimiter]),
        count_apply name opened hd]
      rfl

/-- Files that are alike for a region need not have the same stack, as long as both hold its name
equally often. -/
theorem covered_eq_of_alike (hl : List.Forall₂ (AlikeFor name) lines lines')
    (h : ∀ line ∈ lines, line.2 ≠ some .endLast) (h' : ∀ line ∈ lines', line.2 ≠ some .endLast)
    {opened opened' : List String} (hc : opened.count name = opened'.count name) (start : Nat) :
    covered name opened start lines = covered name opened' start lines' := by
  induction hl generalizing opened opened' start with
  | nil => rfl
  | cons hline _ ih =>
    obtain ⟨hline₁, hlines₁⟩ := List.forall_mem_cons.1 h
    obtain ⟨hline₂, hlines₂⟩ := List.forall_mem_cons.1 h'
    cases hline with
    | content text =>
      have hmem : name ∈ opened ↔ name ∈ opened' := by
        rw [← List.count_pos_iff, ← List.count_pos_iff, hc]
      simp only [covered, hmem, ih hlines₁ hlines₂ hc]
    | @own d hname text text' =>
      have hd : d ≠ .endLast := fun he => hline₁ (congrArg some he)
      refine ih hlines₁ hlines₂ ?_ (start + 1)
      rw [count_apply name opened hd, count_apply name opened' hd, hc]
    | @other d d' hname hname' text text' =>
      have hd : d ≠ .endLast := fun he => hline₁ (congrArg some he)
      have hd' : d' ≠ .endLast := fun he => hline₂ (congrArg some he)
      refine ih hlines₁ hlines₂ ?_ (start + 1)
      rw [count_apply name opened hd, count_apply name opened' hd', depthAfter_of_name?_ne hname,
        depthAfter_of_name?_ne hname', hc]

end

/-- Where every end gives a name, the lines of a region are the content lines at which the counter
of its own delimiters is above zero. The delimiters of other regions may be exchanged for any
others, so that it does not matter how these lie to it or when they are closed. -/
theorem region_counted (content name : String) (h : Source.EndsNamed content) :
    (Source.ofContent content).region name =
      (((Source.ofContent content).lines.zip (Source.depths content name)).filter
        fun (line, depth) => !line.isDelimiter && 0 < depth).map Prod.fst ∧
    ∀ other, Source.EndsNamed other →
      List.Forall₂ (AlikeFor name) (Source.classified content) (Source.classified other) →
      (Source.ofContent other).region name = (Source.ofContent content).region name := by
  refine ⟨?_, fun other h' halike => ?_⟩
  · rw [Source.region_ofContent, Source.coveredLines, map_covered h.ne_endLast]
    rfl
  · rw [Source.region_ofContent, Source.region_ofContent, Source.coveredLines,
      Source.coveredLines, covered_eq_of_alike halike h.ne_endLast h'.ne_endLast rfl]

/-- Two regions of which the one opened first is closed first, and a file with delimiters of other
regions in their places. -/
theorem region_counted_of_overlap :
    let content := "sample(a)\nsample(b)\nx\nend-sample(a)\ny\nend-sample(b)\nz"
    let other := "end-sample(c)\n# sample(b)\nx\nsample(d)\ny\nend-sample(b)\nz"
    Source.EndsNamed content ∧ Source.EndsNamed other ∧
      List.Forall₂ (AlikeFor "b") (Source.classified content) (Source.classified other) ∧
      (Source.ofContent content).region "b" = [.content 3 "x", .content 5 "y"] ∧
      (Source.ofContent other).region "b" = [.content 3 "x", .content 5 "y"] := by
  intro content other
  have h : Source.EndsNamed content := by decide
  have h' : Source.EndsNamed other := by decide
  have hlines : Source.classified content =
      [("sample(a)".toList, some (.start "a")), ("sample(b)".toList, some (.start "b")),
        (['x'], none), ("end-sample(a)".toList, some (.endNamed "a")), (['y'], none),
        ("end-sample(b)".toList, some (.endNamed "b")), (['z'], none)] := by decide
  have hlines' : Source.classified other =
      [("end-sample(c)".toList, some (.endNamed "c")), ("# sample(b)".toList, some (.start "b")),
        (['x'], none), ("sample(d)".toList, some (.start "d")), (['y'], none),
        ("end-sample(b)".toList, some (.endNamed "b")), (['z'], none)] := by decide
  have halike : List.Forall₂ (AlikeFor "b") (Source.classified content)
      (Source.classified other) := by
    rw [hlines, hlines']
    exact .cons (.other (by decide) (by decide) _ _) <| .cons (.own rfl _ _) <|
      .cons (.content _) <| .cons (.other (by decide) (by decide) _ _) <|
      .cons (.content _) <| .cons (.own rfl _ _) <| .cons (.content _) .nil
  obtain ⟨hcounted, hsame⟩ := region_counted content "b" h
  have hregion : (Source.ofContent content).region "b" = [.content 3 "x", .content 5 "y"] := by
    rw [hcounted]
    decide
  exact ⟨h, h', halike, hregion, (hsame other h' halike).trans hregion⟩

end Excerpt
