import Excerpt.OutputFormat
import Excerpt.Proofs.Json.RoundTrip
import Mathlib.Data.List.Forall2

/-!
# Reading JSON output back

The JSON output of a display is an object whose members say all of it. They say it to any reader
of the format, since no name stands twice in an object. Two displays of which the same object says
all are the same, so that no two displays have the same output.
-/

namespace Excerpt

/-- The members of an object that says what a displayed line is. -/
structure RenderedLine.Recorded (line : RenderedLine) (members : List (String × Json)) :
    Prop where
  names_nodup : (members.map Prod.fst).Nodup
  marked : Json.member? "marked" members = some (.bool line.marked)
  text : Json.member? "text" members = some (.string line.text)
  number : Json.member? "number" members = line.number.map .string

/-- An object that says what a displayed line is. -/
def RenderedLine.RecordedBy (line : RenderedLine) (item : Json) : Prop :=
  ∃ members, item = .object members ∧ line.Recorded members

/-- The members of an object that says what a display is, each line in its place. -/
structure RenderedSample.Recorded (sample : RenderedSample) (members : List (String × Json)) :
    Prop where
  names_nodup : (members.map Prod.fst).Nodup
  lines : ∃ items, Json.member? "lines" members = some (.array items) ∧
    List.Forall₂ RenderedLine.RecordedBy sample.lines items
  contentType : Json.member? "content_type" members = sample.contentType.map .string

namespace RenderedLine

theorem recordedBy_toJson (line : RenderedLine) : line.RecordedBy line.toJson := by
  obtain ⟨number, marked, text⟩ := line
  cases number with
  | none => exact ⟨_, rfl, by simp, rfl, rfl, rfl⟩
  | some number => exact ⟨_, rfl, by simp, rfl, rfl, rfl⟩

theorem Recorded.unique {line other : RenderedLine} {members : List (String × Json)}
    (h : line.Recorded members) (h' : other.Recorded members) : line = other := by
  have hmarked : Json.bool line.marked = .bool other.marked :=
    Option.some.inj (h.marked.symm.trans h'.marked)
  have htext : Json.string line.text = .string other.text :=
    Option.some.inj (h.text.symm.trans h'.text)
  have hnumber : line.number.map Json.string = other.number.map .string :=
    h.number.symm.trans h'.number
  obtain ⟨number, marked, text⟩ := line
  obtain ⟨number', marked', text'⟩ := other
  cases hmarked
  cases htext
  cases Option.map_injective (fun _ _ => Json.string.inj) hnumber
  rfl

theorem RecordedBy.unique {line other : RenderedLine} {item : Json} (h : line.RecordedBy item)
    (h' : other.RecordedBy item) : line = other := by
  obtain ⟨members, rfl, h⟩ := h
  obtain ⟨members', he, h'⟩ := h'
  cases he
  exact h.unique h'

end RenderedLine

namespace RenderedSample

theorem exists_toJson_eq (sample : RenderedSample) :
    ∃ members, sample.toJson = .object members ∧ sample.Recorded members := by
  have hlines : List.Forall₂ RenderedLine.RecordedBy sample.lines
      (sample.lines.map RenderedLine.toJson) := by
    rw [List.forall₂_map_right_iff]
    exact List.forall₂_same.2 fun line _ => line.recordedBy_toJson
  obtain ⟨lines, contentType⟩ := sample
  cases contentType with
  | none => exact ⟨_, rfl, by simp, ⟨_, rfl, hlines⟩, rfl⟩
  | some contentType => exact ⟨_, rfl, by simp, ⟨_, rfl, hlines⟩, rfl⟩

theorem Recorded.unique {sample other : RenderedSample} {members : List (String × Json)}
    (h : sample.Recorded members) (h' : other.Recorded members) : sample = other := by
  obtain ⟨items, hitems, hlines⟩ := h.lines
  obtain ⟨items', hitems', hlines'⟩ := h'.lines
  have hsame : sample.contentType.map Json.string = other.contentType.map .string :=
    h.contentType.symm.trans h'.contentType
  obtain ⟨lines, contentType⟩ := sample
  obtain ⟨lines', contentType'⟩ := other
  cases hitems.symm.trans hitems'
  cases Option.map_injective (fun _ _ => Json.string.inj) hsame
  cases List.left_unique_forall₂' (fun _ _ _ h h' => h.unique h') hlines hlines'
  rfl

theorem exists_read_eq (sample : RenderedSample) :
    ∃ members, Json.read (sample.write .json) = some (.object members) ∧
      sample.Recorded members := by
  obtain ⟨members, hjson, hrecorded⟩ := sample.exists_toJson_eq
  exact ⟨members, by rw [write, Json.read_text, hjson], hrecorded⟩

/-- The JSON output of a display is read back as an object that says all of it, and no other
display has the same output. -/
theorem read_write_json :
    (∀ sample : RenderedSample, ∃ members,
      Json.read (sample.write .json) = some (.object members) ∧ sample.Recorded members) ∧
    ∀ sample other : RenderedSample, other.write .json = sample.write .json ↔ other = sample := by
  refine ⟨exists_read_eq, fun sample other => ⟨fun h => ?_, fun h => by rw [h]⟩⟩
  obtain ⟨members, hread, hrecorded⟩ := sample.exists_read_eq
  obtain ⟨members', hread', hrecorded'⟩ := other.exists_read_eq
  rw [h, hread] at hread'
  cases hread'
  exact hrecorded'.unique hrecorded

/-- A control character without a short escape, between characters that have one. -/
example : write ⟨[⟨none, true, "\"\x01\t"⟩], none⟩ .json =
    "\x7b\n  \"lines\": [\n    \x7b\n      \"marked\": true,\n" ++
      "      \"text\": \"\\\"\\u0001\\t\"\n    \x7d\n  ]\n\x7d" := by decide

end RenderedSample

end Excerpt
