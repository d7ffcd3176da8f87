import Excerpt.Proofs.Region.Recording

/-!
# Which lines belong to a region

Each start of a region opens an instance of its own, known by the offset of its line. An end
closes one instance at most: of those still open, or of those with the name it gives, the one
opened last. The lines of a region are the content lines at which an instance with its name
is open, however the regions of the file lie to one another.
-/

namespace Excerpt

/-- An instance of a region, with the offset of the line that opens it. -/
structure Opening where
  name : String
  offset : Nat
deriving DecidableEq, Repr

/-- Of the openings with a property, the one whose line comes last. -/
def Latest (P : Opening → Prop) (o : Opening) : Prop := P o ∧ ∀ o', P o' → o'.offset ≤ o.offset

/-- Whether a delimiter closes an opening when those with the property are open. -/
def Delimiter.Closes (P : Opening → Prop) (o : Opening) : Delimiter → Prop
  | start _ => False
  | endNamed name => Latest (fun o' => P o' ∧ o'.name = name) o
  | endLast => Latest P o

def delimiterAt (lines : List (List Char × Option Delimiter)) (offset : Nat) : Option Delimiter :=
  lines[offset]?.bind Prod.snd

/-- Whether an opening is open at the line with the given offset: the line before opened it, or
found it open and did not close it. -/
def OpenAt (lines : List (List Char × Option Delimiter)) : Nat → Opening → Prop
  | 0, _ => False
  | k + 1, o => (o.offset = k ∧ delimiterAt lines k = some (.start o.name)) ∨
      (OpenAt lines k o ∧ ∀ d, delimiterAt lines k = some d → ¬ d.Closes (OpenAt lines k) o)

section

variable {lines : List (List Char × Option Delimiter)} {stack : List Opening} {o : Opening}
  {k : Nat} {d : Delimiter}

theorem OpenAt.offset_lt (h : OpenAt lines k o) : o.offset < k := by
  induction k with
  | zero => exact h.elim
  | succ k ih =>
    rcases h with ⟨rfl, -⟩ | ⟨h, -⟩
    · exact Nat.lt_succ_self o.offset
    · exact Nat.lt_succ_of_lt (ih h)

theorem openAt_succ_of_none (h : delimiterAt lines k = none) :
    OpenAt lines (k + 1) o ↔ OpenAt lines k o := by simp [OpenAt, h]

theorem openAt_succ_of_some (h : delimiterAt lines k = some d) :
    OpenAt lines (k + 1) o ↔ (o.offset = k ∧ d = .start o.name) ∨
      (OpenAt lines k o ∧ ¬ d.Closes (OpenAt lines k) o) := by simp [OpenAt, h]

/-! ## Open instances as a stack -/

/-- The latest openings come first. -/
def LatestFirst (stack : List Opening) : Prop := stack.Pairwise fun a b => b.offset < a.offset

/-- Taking away the first opening of some kind takes away the latest of them. -/
theorem mem_eraseP_iff (h : LatestFirst stack) (p : Opening → Bool) :
    o ∈ stack.eraseP p ↔ o ∈ stack ∧ ¬ Latest (fun o' => o' ∈ stack ∧ p o' = true) o := by
  induction stack with
  | nil => simp
  | cons a stack ih =>
    obtain ⟨hlt, h⟩ := List.pairwise_cons.1 h
    by_cases ha : p a = true
    -- `a` is the one taken away, and the latest of its kind since all others come before it
    · rw [List.eraseP_cons_of_pos ha]
      constructor
      · intro ho
        refine ⟨List.mem_cons_of_mem a ho, fun hl => ?_⟩
        exact absurd (hl.2 a ⟨List.mem_cons_self, ha⟩) (Nat.not_le_of_lt (hlt o ho))
      · rintro ⟨ho, hl⟩
        rcases List.mem_cons.1 ho with rfl | ho
        · refine absurd ⟨⟨ho, ha⟩, ?_⟩ hl
          rintro o' ⟨ho', -⟩
          rcases List.mem_cons.1 ho' with rfl | ho'
          · exact Nat.le_refl _
          · exact Nat.le_of_lt (hlt o' ho')
        · exact ho
    -- `a` is not of the kind, so that the latest of it is the same with `a` and without
    · rw [List.eraseP_cons_of_neg ha, List.mem_cons, ih h, List.mem_cons]
      have hsame : (fun o' => o' ∈ a :: stack ∧ p o' = true) =
          fun o' => o' ∈ stack ∧ p o' = true := by
        funext o'
        refine propext ⟨fun ⟨ho', hp⟩ => ⟨?_, hp⟩,
          fun ⟨ho', hp⟩ => ⟨List.mem_cons_of_mem a ho', hp⟩⟩
        rcases List.mem_cons.1 ho' with rfl | ho'
        · exact absurd hp ha
        · exact ho'
      rw [hsame]
      constructor
      · rintro (rfl | ⟨ho, hl⟩)
        · exact ⟨Or.inl rfl, fun hl => ha hl.1.2⟩
        · exact ⟨Or.inr ho, hl⟩
      · rintro ⟨rfl | ho, hl⟩
        · exact Or.inl rfl
        · exact Or.inr ⟨ho, hl⟩

theorem LatestFirst.eraseP (h : LatestFirst stack) (p : Opening → Bool) :
    LatestFirst (stack.eraseP p) := List.Pairwise.sublist List.eraseP_sublist h

theorem erase_map_name (stack : List Opening) (name : String) :
    (stack.map Opening.name).erase name =
      (stack.eraseP fun o => o.name == name).map Opening.name := by
  rw [List.erase_eq_eraseP', List.eraseP_map]
  rfl

theorem tail_eq_eraseP (stack : List Opening) : stack.tail = stack.eraseP fun _ => true := by
  cases stack <;> rfl

/-- The instances open at a line, the latest first. The order is what lets an end that takes the
first match off close the latest instance. -/
structure Tracks (lines : List (List Char × Option Delimiter)) (k : Nat)
    (stack : List Opening) : Prop where
  latestFirst : LatestFirst stack
  openAt_iff : ∀ o, OpenAt lines k o ↔ o ∈ stack

theorem Tracks.openAt_eq (h : Tracks lines k stack) : OpenAt lines k = fun o => o ∈ stack :=
  funext fun o => propext (h.openAt_iff o)

theorem Tracks.content (h : Tracks lines k stack) (hd : delimiterAt lines k = none) :
    Tracks lines (k + 1) stack :=
  ⟨h.latestFirst, fun o => (openAt_succ_of_none hd).trans (h.openAt_iff o)⟩

theorem Tracks.delimiter (h : Tracks lines k stack) (hd : delimiterAt lines k = some d) :
    ∃ stack' : List Opening, stack'.map Opening.name = d.apply (stack.map Opening.name) ∧
      Tracks lines (k + 1) stack' := by
  cases d with
  | start name =>
    refine ⟨⟨name, k⟩ :: stack, rfl, List.pairwise_cons.2 ⟨fun o ho => ?_, h.latestFirst⟩,
      fun o => ?_⟩
    · exact ((h.openAt_iff o).2 ho).offset_lt
    · rw [openAt_succ_of_some hd, h.openAt_iff, List.mem_cons]
      refine or_congr ⟨?_, ?_⟩ (and_iff_left id)
      · rintro ⟨rfl, hstart⟩
        rw [Delimiter.start.inj hstart]
      · rintro rfl
        exact ⟨rfl, rfl⟩
  | endNamed name =>
    refine ⟨_, (erase_map_name stack name).symm, h.latestFirst.eraseP _, fun o => ?_⟩
    rw [openAt_succ_of_some hd, mem_eraseP_iff h.latestFirst, h.openAt_eq]
    simp [Delimiter.Closes]
  | endLast =>
    refine ⟨stack.tail, by rw [List.map_tail]; rfl, h.latestFirst.tail, fun o => ?_⟩
    rw [openAt_succ_of_some hd, tail_eq_eraseP, mem_eraseP_iff h.latestFirst, h.openAt_eq]
    simp [Delimiter.Closes]

/-- The names open at a line are those of the open instances, the latest first. -/
theorem exists_stack (lines : List (List Char × Option Delimiter)) (k : Nat) :
    ∃ stack : List Opening, stack.map Opening.name = openedAfter [] (lines.take k) ∧
      Tracks lines k stack := by
  induction k with
  | zero => exact ⟨[], by simp [openedAfter], List.Pairwise.nil, by simp [OpenAt]⟩
  | succ k ih =>
    obtain ⟨stack, hname, h⟩ := ih
    rw [List.take_add_one, openedAfter_append, ← hname]
    rcases hl : lines[k]? with _ | ⟨text, _ | d⟩
    · exact ⟨stack, rfl, h.content (by simp [delimiterAt, hl])⟩
    · exact ⟨stack, rfl, h.content (by simp [delimiterAt, hl])⟩
    · exact h.delimiter (by simp [delimiterAt, hl])

theorem mem_openedAfter_iff (lines : List (List Char × Option Delimiter)) (k : Nat)
    (name : String) : name ∈ openedAfter [] (lines.take k) ↔
      ∃ o, OpenAt lines k o ∧ o.name = name := by
  obtain ⟨stack, hname, h⟩ := exists_stack lines k
  simp only [← hname, List.mem_map, h.openAt_iff]

end

theorem LineKind.isDelimiter_ofDelimiter (d : Option Delimiter) :
    (LineKind.ofDelimiter d).isDelimiter = d.isSome := by
  rcases d with _ | ⟨_⟩ | ⟨_⟩ | _ <;> rfl

/-- The lines of a region stand at the offsets where the file has a content line and an instance
of the region is open, each once and in the order of the file. -/
theorem region_open_lines (content name : String) :
    let source := Source.ofContent content
    let offsets := source.regions.offsets name
    offsets.Pairwise (· < ·) ∧
    (∀ offset, offset ∈ offsets ↔
      ∃ line, source.lines[offset]? = some line ∧ line.isDelimiter = false ∧
        ∃ o, OpenAt (Source.classified content) offset o ∧ o.name = name) ∧
    (source.region name).map some = offsets.map (source.lines[·]?) ∧
    (∀ e ∈ source.regions, ∀ offset ∈ e.2, offset < source.lineCount) ∧
    (source.hasRegion name = true ↔ source.region name ≠ []) ∧
    (name ∈ source.regionNames ↔ source.region name ≠ []) := by
  intro source offsets
  have hoffsets : offsets = (Source.coveredLines content name).map Prod.snd :=
    Source.offsets_ofContent content name
  refine ⟨?_, fun offset => ?_, ?_, fun e he offset ho =>
    (Source.sound_ofContent content).lt_of_mem he ho, Source.hasRegion_iff content name,
    Source.mem_regionNames_iff content name⟩
  · rw [hoffsets]
    exact List.pairwise_map.2 (pairwise_covered name [] 0 (Source.classified content))
  · simp only [hoffsets, List.mem_map, Source.coveredLines, mem_covered, Nat.zero_add,
      mem_openedAfter_iff, source, Source.getElem?_lines, Option.map_eq_some_iff]
    constructor
    · rintro ⟨line, ⟨k, hk, rfl, ho⟩, rfl⟩
      exact ⟨_, ⟨_, hk, rfl⟩, rfl, ho⟩
    · rintro ⟨line, ⟨⟨text, d⟩, hk, rfl⟩, hd, ho⟩
      have hnone : d = none := by
        simpa [Line.isDelimiter, LineKind.isDelimiter_ofDelimiter] using hd
      subst hnone
      exact ⟨(text, offset), ⟨offset, hk, rfl, ho⟩, rfl⟩
  · rw [hoffsets, Source.region_ofContent, List.map_map, List.map_map]
    exact List.map_congr_left fun line h => (Source.getElem?_of_mem_coveredLines h).symm

/-- A line within two instances of a region is recorded once, and one stays open after the first
end. -/
theorem region_open_lines_of_nested :
    let content := "sample(a)\nsample(a)\nx\nend-sample\ny\n"
    let source := Source.ofContent content
    ("a", [4, 2]) ∈ source.regions ∧ 4 < source.lineCount ∧
      source.regions.offsets "a" = [2, 4] ∧
      ∃ o, OpenAt (Source.classified content) 4 o ∧ o.name = "a" := by
  intro content source
  have hentry : ("a", [4, 2]) ∈ source.regions := by decide
  have hoffsets : source.regions.offsets "a" = [2, 4] := by decide
  obtain ⟨-, hopen, -, hbound, -⟩ := region_open_lines content "a"
  obtain ⟨line, -, -, ho⟩ := (hopen 4).1 (by decide)
  exact ⟨hentry, hbound _ hentry 4 (by simp), hoffsets, ho⟩

end Excerpt
