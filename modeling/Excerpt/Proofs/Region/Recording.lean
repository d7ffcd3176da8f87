import Excerpt.Keyed
import Excerpt.Source
import Mathlib.Data.List.Basic

/-!
# What scanning records

Scanning goes through the lines of a file with the regions open so far and the table of the
lines recorded so far. Which regions are open at a line depends on the delimiters before it
alone. A content line is recorded once under each of their names, so that the table lists,
for every name, the content lines at which it is open.
-/

namespace Excerpt

namespace RegionTable

variable {table : RegionTable} {name key : String} {offset bound : Nat} {offsets : List Nat}

theorem lookup_cons (k : String) (v : List Nat) (table : RegionTable) (key : String) :
    List.lookup key ((k, v) :: table) = if k = key then some v else table.lookup key :=
  Keyed.get?_cons k v table key

/-- The names ascend, so that a name is absent once a greater one comes. -/
def Ordered (table : RegionTable) : Prop := table.names.Pairwise (· < ·)

theorem ordered_cons {k : String} {v : List Nat} :
    Ordered ((k, v) :: table) ↔ (∀ key ∈ table.names, k < key) ∧ Ordered table :=
  List.pairwise_cons

theorem contains_iff_mem_names : table.contains name = true ↔ name ∈ table.names := by
  simp only [contains, names, List.lookup_isSome_iff, List.mem_map, beq_iff_eq]
  exact ⟨fun ⟨e, he, hn⟩ => ⟨e, he, hn.symm⟩, fun ⟨e, he, hn⟩ => ⟨e, he, hn.symm⟩⟩

theorem lookup_eq_none (h : key ∉ table.names) : table.lookup key = none := by
  rw [← contains_iff_mem_names] at h
  exact Option.not_isSome_iff_eq_none.1 h

theorem lookup_of_mem (h : table.Ordered) (he : (key, offsets) ∈ table) :
    table.lookup key = some offsets := by
  induction table with
  | nil => cases he
  | cons e table ih =>
    obtain ⟨hlt, ho⟩ := ordered_cons.1 h
    rw [lookup_cons]
    rcases List.mem_cons.1 he with rfl | he
    · rw [if_pos rfl]
    · have hkey : key ∈ names table := List.mem_map_of_mem he
      rw [if_neg fun heq => String.lt_irrefl _ (heq ▸ hlt key hkey), ih ho he]

/-! ## Recording one name -/

@[simp] theorem push_nil (offset : Nat) : push offset [] = [offset] := rfl

@[simp] theorem push_push (offset : Nat) (offsets : List Nat) :
    push offset (push offset offsets) = push offset offsets := by
  by_cases h : offsets.head? = some offset <;> simp [push, h]

theorem push_of_forall_lt (h : ∀ o ∈ offsets, o < offset) :
    push offset offsets = offset :: offsets := by
  refine if_neg fun hh => ?_
  have hlt := h offset (List.mem_of_head? hh)
  omega

theorem push_ne_nil (offset : Nat) (offsets : List Nat) : push offset offsets ≠ [] := by
  unfold push
  split
  · rename_i h
    rintro rfl
    cases h
  · simp

theorem eq_or_mem_of_mem_push {o : Nat} (h : o ∈ push offset offsets) :
    o = offset ∨ o ∈ offsets := by
  unfold push at h
  split at h
  · exact Or.inr h
  · exact List.mem_cons.1 h

theorem mem_names_record : key ∈ names (record name offset table) ↔
    key = name ∨ key ∈ names table := by
  induction table with
  | nil => simp [record, names]
  | cons e table ih =>
    obtain ⟨k, v⟩ := e
    simp only [record]
    split
    · rename_i h
      subst h
      simp [names]
    · split
      · simp [names]
      · simp only [names, List.map_cons, List.mem_cons] at ih ⊢
        rw [ih]
        exact or_left_comm

theorem ordered_record (h : table.Ordered) (name : String) (offset : Nat) :
    Ordered (record name offset table) := by
  induction table with
  | nil => simp [record, Ordered, names]
  | cons e table ih =>
    obtain ⟨k, v⟩ := e
    obtain ⟨hlt, ho⟩ := ordered_cons.1 h
    simp only [record]
    split
    · exact ordered_cons.2 ⟨hlt, ho⟩
    · rename_i hne
      split
      · rename_i hnk
        refine ordered_cons.2 ⟨fun key hkey => ?_, h⟩
        rcases List.mem_cons.1 hkey with rfl | hkey
        · exact hnk
        · exact String.lt_trans hnk (hlt key hkey)
      · rename_i hnk
        refine ordered_cons.2 ⟨fun key hkey => ?_, ih ho⟩
        rcases mem_names_record.1 hkey with rfl | hkey
        · exact Std.lt_of_le_of_ne (String.not_lt.1 hnk) (Ne.symm hne)
        · exact hlt key hkey

theorem lookup_record (h : table.Ordered) (name key : String) (offset : Nat) :
    (record name offset table).lookup key =
      if name = key then some (push offset ((table.lookup name).getD []))
      else table.lookup key := by
  induction table with
  | nil => simp [record, lookup_cons]
  | cons e table ih =>
    obtain ⟨k, v⟩ := e
    obtain ⟨hlt, ho⟩ := ordered_cons.1 h
    simp only [record]
    split
    · rename_i hk
      subst hk
      by_cases hkey : name = key <;> simp [lookup_cons, hkey]
    · rename_i hne
      split
      · rename_i hnk
        have habsent : name ∉ names table := fun hm => String.lt_asymm hnk (hlt name hm)
        simp [lookup_cons, Ne.symm hne, lookup_eq_none habsent]
      · rw [lookup_cons, lookup_cons, lookup_cons, ih ho, if_neg (Ne.symm hne)]
        by_cases hk : k = key
        · subst hk
          simp [hne]
        · simp [hk]

/-! ## Recording a line -/

/-- Records an offset under all of the given names. -/
def recordAll (opened : List String) (offset : Nat) (table : RegionTable) : RegionTable :=
  opened.foldr (fun name table => table.record name offset) table

theorem ordered_recordAll (h : table.Ordered) (opened : List String) (offset : Nat) :
    Ordered (recordAll opened offset table) := by
  induction opened with
  | nil => exact h
  | cons name opened ih => exact ordered_record ih name offset

/-- A name that is open more than once is recorded once. -/
theorem lookup_recordAll (h : table.Ordered) (opened : List String) (offset : Nat)
    (key : String) : (recordAll opened offset table).lookup key =
      if key ∈ opened then some (push offset ((table.lookup key).getD []))
      else table.lookup key := by
  induction opened with
  | nil => rfl
  | cons name opened ih =>
    change (record name offset (recordAll opened offset table)).lookup key = _
    rw [lookup_record (ordered_recordAll h opened offset)]
    by_cases hk : name = key
    · subst hk
      rw [if_pos rfl, ih, if_pos List.mem_cons_self]
      by_cases hm : name ∈ opened <;> simp [hm]
    · rw [if_neg hk, ih]
      simp [Ne.symm hk]

/-- A table of the lines before `bound`, as scanning builds it. -/
structure Sound (table : RegionTable) (bound : Nat) : Prop where
  ordered : table.Ordered
  entry : ∀ name offsets, table.lookup name = some offsets →
    offsets ≠ [] ∧ ∀ offset ∈ offsets, offset < bound

theorem sound_nil (bound : Nat) : Sound [] bound := ⟨List.Pairwise.nil, by simp⟩

theorem Sound.mono (h : table.Sound bound) {bound' : Nat} (hb : bound ≤ bound') :
    table.Sound bound' := by
  refine ⟨h.ordered, fun name offsets hl => ⟨(h.entry name offsets hl).1, fun o ho => ?_⟩⟩
  exact Nat.lt_of_lt_of_le ((h.entry name offsets hl).2 o ho) hb

theorem Sound.lt_of_mem (h : table.Sound bound) {e : String × List Nat} (he : e ∈ table)
    (ho : offset ∈ e.2) : offset < bound :=
  (h.entry e.1 e.2 (lookup_of_mem h.ordered he)).2 offset ho

theorem Sound.lt_of_mem_getD (h : table.Sound bound) {o : Nat}
    (ho : o ∈ (table.lookup key).getD []) : o < bound := by
  cases hl : table.lookup key with
  | none => simp [hl] at ho
  | some offsets => exact (h.entry key offsets hl).2 o (by simpa [hl] using ho)

theorem Sound.recordAll (h : table.Sound offset) (opened : List String) :
    (recordAll opened offset table).Sound (offset + 1) := by
  refine ⟨ordered_recordAll h.ordered opened offset, fun name offsets hl => ?_⟩
  rw [lookup_recordAll h.ordered] at hl
  split at hl
  · obtain rfl := Option.some.inj hl
    refine ⟨push_ne_nil offset _, fun o ho => ?_⟩
    rcases eq_or_mem_of_mem_push ho with rfl | ho
    · exact Nat.lt_succ_self o
    · exact Nat.lt_succ_of_lt (h.lt_of_mem_getD ho)
  · exact (h.mono (Nat.le_succ offset)).entry name offsets hl

theorem Sound.offsets_recordAll (h : table.Sound offset) (opened : List String) (key : String) :
    (RegionTable.recordAll opened offset table).offsets key =
      table.offsets key ++ if key ∈ opened then [offset] else [] := by
  unfold offsets
  rw [lookup_recordAll h.ordered]
  by_cases hk : key ∈ opened
  · rw [if_pos hk, if_pos hk, Option.getD_some,
      push_of_forall_lt fun o ho => h.lt_of_mem_getD ho, List.reverse_cons]
  · rw [if_neg hk, if_neg hk, List.append_nil]

/-- A name is in the table just when a line is recorded under it. -/
theorem Sound.contains_iff (h : table.Sound bound) :
    table.contains name = true ↔ table.offsets name ≠ [] := by
  unfold contains offsets
  cases hl : table.lookup name with
  | none => simp
  | some offsets => simpa using (h.entry name offsets hl).1

end RegionTable

/-! ## Recording a file -/

section Lines

variable {opened : List String} {start : Nat} {name : String}
  {lines rest : List (List Char × Option Delimiter)}

/-- The regions open after some lines, from those open before them. -/
def openedAfter (opened : List String) : List (List Char × Option Delimiter) → List String
  | [] => opened
  | (_, some d) :: lines => openedAfter (d.apply opened) lines
  | (_, none) :: lines => openedAfter opened lines

/-- The content lines at which a region of the given name is open, each with its offset, from
the regions open before them and the offset of the first line. -/
def covered (name : String) : List String → Nat → List (List Char × Option Delimiter) →
    List (List Char × Nat)
  | _, _, [] => []
  | opened, start, (_, some d) :: lines => covered name (d.apply opened) (start + 1) lines
  | opened, start, (text, none) :: lines =>
    (if name ∈ opened then [(text, start)] else []) ++ covered name opened (start + 1) lines

theorem openedAfter_append (opened : List String)
    (lines rest : List (List Char × Option Delimiter)) :
    openedAfter opened (lines ++ rest) = openedAfter (openedAfter opened lines) rest := by
  induction lines generalizing opened with
  | nil => rfl
  | cons line lines ih =>
    obtain ⟨text, _ | d⟩ := line
    · exact ih opened
    · exact ih (d.apply opened)

theorem covered_append (name : String) (opened : List String) (start : Nat)
    (lines rest : List (List Char × Option Delimiter)) :
    covered name opened start (lines ++ rest) = covered name opened start lines ++
      covered name (openedAfter opened lines) (start + lines.length) rest := by
  induction lines generalizing opened start with
  | nil => rfl
  | cons line lines ih =>
    have hlen : start + (line :: lines).length = start + 1 + lines.length := by
      rw [List.length_cons]
      omega
    obtain ⟨text, _ | d⟩ := line
    · simp only [List.cons_append, covered, openedAfter, hlen, ih, List.append_assoc]
    · simp only [List.cons_append, covered, openedAfter, hlen, ih]

theorem mem_covered {line : List Char × Nat} : line ∈ covered name opened start lines ↔
    ∃ k, lines[k]? = some (line.1, none) ∧ line.2 = start + k ∧
      name ∈ openedAfter opened (lines.take k) := by
  induction lines generalizing opened start with
  | nil => simp [covered]
  | cons l lines ih =>
    -- the first line is the one at `k = 0`, and the hypothesis speaks of the others
    obtain ⟨text, _ | d⟩ := l
    · simp only [covered, List.mem_append, ih]
      constructor
      · rintro (h | ⟨k, hk, hs, hn⟩)
        · by_cases hn : name ∈ opened
          · obtain rfl := List.mem_singleton.1 (by simpa [hn] using h)
            exact ⟨0, rfl, rfl, hn⟩
          · simp [hn] at h
        · exact ⟨k + 1, hk, by omega, hn⟩
      · rintro ⟨k, hk, hs, hn⟩
        cases k with
        | zero =>
          obtain ⟨rfl, -⟩ := Prod.mk.inj (Option.some.inj hk)
          have hn' : name ∈ opened := hn
          left
          rw [if_pos hn']
          exact List.mem_singleton.2 (Prod.ext rfl hs)
        | succ k => exact Or.inr ⟨k, hk, by omega, hn⟩
    · simp only [covered, ih]
      constructor
      · rintro ⟨k, hk, hs, hn⟩
        exact ⟨k + 1, hk, by omega, hn⟩
      · rintro ⟨k, hk, hs, hn⟩
        cases k with
        | zero => simp at hk
        | succ k => exact ⟨k, hk, by omega, hn⟩

theorem le_of_mem_covered {line : List Char × Nat} (h : line ∈ covered name opened start lines) :
    start ≤ line.2 := by
  obtain ⟨k, -, hs, -⟩ := mem_covered.1 h
  omega

theorem pairwise_covered (name : String) (opened : List String) (start : Nat)
    (lines : List (List Char × Option Delimiter)) :
    (covered name opened start lines).Pairwise fun a b => a.2 < b.2 := by
  induction lines generalizing opened start with
  | nil => exact List.Pairwise.nil
  | cons line lines ih =>
    obtain ⟨text, _ | d⟩ := line
    · refine List.pairwise_append.2 ⟨?_, ih opened (start + 1), fun a ha b hb => ?_⟩
      · split <;> simp
      · split at ha
        · obtain rfl := List.mem_singleton.1 ha
          exact le_of_mem_covered hb
        · cases ha
    · exact ih (d.apply opened) (start + 1)

/-- The log after some lines, the first of which stands at the given offset. -/
def RegionLog.run (log : RegionLog) (start : Nat)
    (lines : List (List Char × Option Delimiter)) : RegionLog :=
  (lines.zipIdx start).foldl (fun log ((_, d), offset) => log.step offset d) log

theorem RegionLog.opened_step (log : RegionLog) (start : Nat)
    (line : List Char × Option Delimiter) :
    (log.step start line.2).opened = openedAfter log.opened [line] := by
  obtain ⟨text, _ | d⟩ := line <;> rfl

/-- A delimiter leaves the table as it is, and a content line is recorded as it comes. -/
theorem RegionLog.sound_step (log : RegionLog) (h : log.table.Sound start)
    (line : List Char × Option Delimiter) :
    (log.step start line.2).table.Sound (start + 1) ∧
    ∀ name, (log.step start line.2).table.offsets name = log.table.offsets name ++
      (covered name log.opened start [line]).map Prod.snd := by
  obtain ⟨text, _ | d⟩ := line
  · refine ⟨h.recordAll log.opened, fun name => (h.offsets_recordAll log.opened name).trans ?_⟩
    by_cases hn : name ∈ log.opened <;> simp [covered, hn]
  · exact ⟨h.mono (Nat.le_succ start), fun name => (List.append_nil _).symm⟩

theorem RegionLog.opened_run (log : RegionLog) (start : Nat)
    (lines : List (List Char × Option Delimiter)) :
    (log.run start lines).opened = openedAfter log.opened lines := by
  induction lines generalizing log start with
  | nil => rfl
  | cons line lines ih =>
    have hrest := ih (log.step start line.2) (start + 1)
    rwa [opened_step, ← openedAfter_append] at hrest

/-- A log takes in one line after another, and its table is sound after each. -/
theorem RegionLog.sound_run (log : RegionLog) (h : log.table.Sound start)
    (lines : List (List Char × Option Delimiter)) :
    (log.run start lines).table.Sound (start + lines.length) ∧
    ∀ name, (log.run start lines).table.offsets name = log.table.offsets name ++
      (covered name log.opened start lines).map Prod.snd := by
  induction lines generalizing log start with
  | nil => exact ⟨h, fun name => by simp [run, covered]⟩
  | cons line lines ih =>
    have hlen : start + (line :: lines).length = start + 1 + lines.length := by
      rw [List.length_cons]
      omega
    obtain ⟨hs, ho⟩ := log.sound_step h line
    obtain ⟨hs', ho'⟩ := ih (log.step start line.2) hs
    refine ⟨hlen ▸ hs', fun name => ?_⟩
    have hcovered := covered_append name log.opened start [line] lines
    have hrest := ho' name
    rw [ho name, opened_step, List.append_assoc, ← List.map_append] at hrest
    exact hrest.trans (congrArg (fun l => log.table.offsets name ++ l.map Prod.snd) hcovered.symm)

end Lines

/-! ## The regions of a source -/

namespace Source

/-- The lines recorded for a name when the lines are those of a whole file. -/
def coveredLines (content name : String) : List (List Char × Nat) :=
  covered name [] 0 (classified content)

theorem regions_ofContent (content : String) :
    (ofContent content).regions = (RegionLog.run {} 0 (classified content)).table := rfl

theorem lineCount_ofContent (content : String) :
    (ofContent content).lineCount = (classified content).length := by
  simp [ofContent, lineCount, numbered]

theorem sound_ofContent (content : String) :
    (ofContent content).regions.Sound (ofContent content).lineCount := by
  have h := (RegionLog.sound_run {} (RegionTable.sound_nil 0) (classified content)).1
  rwa [Nat.zero_add, ← lineCount_ofContent] at h

theorem offsets_ofContent (content name : String) :
    (ofContent content).regions.offsets name = (coveredLines content name).map Prod.snd := by
  have h := (RegionLog.sound_run {} (RegionTable.sound_nil 0) (classified content)).2 name
  simpa [regions_ofContent, coveredLines] using h

theorem getElem?_lines (content : String) (k : Nat) :
    (ofContent content).lines[k]? = (classified content)[k]?.map fun line =>
      ⟨k + 1, String.ofList line.1, LineKind.ofDelimiter line.2⟩ := by
  simp only [ofContent, numbered, List.getElem?_map, List.getElem?_zipIdx, Option.map_map,
    Function.comp_def, Nat.zero_add]

/-- A content line as it is kept, from its text and its offset. -/
def contentLine (line : List Char × Nat) : Line := .content (line.2 + 1) (String.ofList line.1)

theorem getElem?_of_mem_coveredLines {content name : String} {line : List Char × Nat}
    (h : line ∈ coveredLines content name) :
    (ofContent content).lines[line.2]? = some (contentLine line) := by
  obtain ⟨k, hk, hs, -⟩ := mem_covered.1 h
  obtain rfl : line.2 = k := hs.trans (Nat.zero_add k)
  rw [getElem?_lines, hk]
  rfl

/-- Every recorded offset is that of a line, so that looking the lines up loses none. -/
theorem region_ofContent (content name : String) :
    (ofContent content).region name = (coveredLines content name).map contentLine := by
  rw [region, offsets_ofContent, List.filterMap_map]
  exact List.filterMap_eq_map_iff_forall_eq_some.2 fun line h => getElem?_of_mem_coveredLines h

theorem hasRegion_iff (content name : String) :
    (ofContent content).hasRegion name = true ↔ (ofContent content).region name ≠ [] := by
  rw [region_ofContent, hasRegion, (sound_ofContent content).contains_iff, offsets_ofContent]
  simp

theorem mem_regionNames_iff (content name : String) :
    name ∈ (ofContent content).regionNames ↔ (ofContent content).region name ≠ [] := by
  rw [← hasRegion_iff]
  exact RegionTable.contains_iff_mem_names.symm

end Source

end Excerpt
