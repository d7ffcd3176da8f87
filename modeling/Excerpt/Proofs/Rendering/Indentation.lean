import Excerpt.Proofs.Rendering.MarkTags
import Excerpt.Rendering
import Mathlib.Data.List.TakeWhile

/-!
# What removing indentation takes away

The indentation that lines have in common is as short as that of any of them that is more than
blanks. So what is removed from a line is blank, whether the line itself is blank or not, and no
mark tag is lost or found with it.
-/

namespace Excerpt

variable {line : Line} {lines : List Line} {c : Char} {k : Nat}

theorem Text.isBlank_of_isSpace (h : Text.isSpace c = true) : Text.isBlank c = true := by
  have hc : c = ' ' ∨ c = '\t' := by simpa [Text.isSpace] using h
  rcases hc with rfl | rfl <;> decide

theorem indentation_mem (hl : line ∈ lines) (hb : line.isBlank = false) :
    line.indentation ∈ (lines.filter fun line => !line.isBlank).map Line.indentation :=
  List.mem_map_of_mem (List.mem_filter.2 ⟨hl, by simp [hb]⟩)

theorem commonIndentation_le (hl : line ∈ lines) (hb : line.isBlank = false) :
    commonIndentation lines ≤ line.indentation := by
  have hmem := indentation_mem hl hb
  unfold commonIndentation
  cases hm : ((lines.filter fun line => !line.isBlank).map Line.indentation).min? with
  | none => exact Nat.zero_le _
  | some m => exact (List.min?_eq_some_iff.1 hm).2 _ hmem

theorem isSpace_of_mem_take (hk : k ≤ line.indentation) (hc : c ∈ line.text.toList.take k) :
    Text.isSpace c = true := by
  have hspaces := List.takeWhile_prefix Text.isSpace (l := line.text.toList)
  have hfront : line.text.toList.take k <+: line.text.toList.takeWhile Text.isSpace := by
    refine List.prefix_of_prefix_length_le (List.take_prefix k _) hspaces ?_
    exact Nat.le_trans (List.length_take_le k _) hk
  exact List.mem_takeWhile_imp (hfront.subset hc)

/-- Removing the indentation of some lines takes nothing but blanks from any of them. -/
theorem isBlank_of_mem_take (options : RenderOptions) (hl : line ∈ lines)
    (hc : c ∈ line.text.toList.take (options.indentation lines)) : Text.isBlank c = true := by
  unfold RenderOptions.indentation at hc
  split at hc
  · cases hb : line.isBlank with
    | true => exact List.all_eq_true.1 hb c (List.mem_of_mem_take hc)
    | false =>
      have hle := commonIndentation_le hl hb
      exact Text.isBlank_of_isSpace (isSpace_of_mem_take hle hc)
  · simp at hc

/-- A line carries a tag after its indentation is removed just when it carried one before. -/
theorem isSome_stripMarkTag?_iff (options : RenderOptions) (hl : line ∈ lines) :
    (stripMarkTag? (dropChars (options.indentation lines) line.text)).isSome = true ↔
      MarkTag.Occurs line.text.toList := by
  have hblank := fun c hc => isBlank_of_mem_take (c := c) options hl hc
  rw [← MarkTag.occurs_drop_iff hblank, ← MarkTag.isSome_strip?_iff]
  simp [stripMarkTag?, dropChars]

end Excerpt
