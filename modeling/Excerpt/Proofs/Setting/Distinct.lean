import Excerpt.Setting.Basic

/-!
# Tables without repeated keys

Putting a value under a key and merging settings leave every table with distinct keys. The order of
the entries then has no say in a merge: under each key that comes in, its value is merged with what
is there, and every other key keeps its value.
-/

namespace Excerpt

namespace Keyed

variable {α : Type} {entries : Keyed α} {k key : String} {v : α} {e : String × α}

theorem mem_put (h : e ∈ put k v entries) : e = (k, v) ∨ e ∈ entries := by
  induction entries with
  | nil => exact .inl (List.mem_singleton.1 h)
  | cons entry entries ih =>
    rw [put] at h
    split at h
    · exact (List.mem_cons.1 h).imp_right (List.mem_cons_of_mem entry)
    · rcases List.mem_cons.1 h with rfl | h
      · exact .inr List.mem_cons_self
      · exact (ih h).imp_right (List.mem_cons_of_mem entry)

theorem nodup_keys_put (h : entries.keys.Nodup) : (put k v entries).keys.Nodup := by
  induction entries with
  | nil => simp [put, keys]
  | cons entry entries ih =>
    obtain ⟨hnot, hrest⟩ := List.nodup_cons.1 h
    rw [put]
    split
    · rename_i hk
      exact List.nodup_cons.2 ⟨hk ▸ hnot, hrest⟩
    · rename_i hk
      refine List.nodup_cons.2 ⟨fun hmem => ?_, ih hrest⟩
      obtain ⟨other, hother, hkey⟩ := List.mem_map.1 hmem
      rcases mem_put hother with rfl | hother
      · exact hk hkey.symm
      · exact hnot (List.mem_map.2 ⟨other, hother, hkey⟩)

theorem mem_of_get? (h : entries.get? key = some v) : (key, v) ∈ entries := by
  induction entries with
  | nil => cases h
  | cons entry entries ih =>
    obtain ⟨k, w⟩ := entry
    rw [get?_cons] at h
    split at h
    · rename_i hk
      obtain rfl := Option.some.inj h
      exact hk ▸ List.mem_cons_self
    · exact List.mem_cons_of_mem _ (ih h)

theorem get?_eq_none_iff : entries.get? key = none ↔ key ∉ entries.keys := by
  induction entries with
  | nil => simp [keys]
  | cons entry entries ih =>
    obtain ⟨k, w⟩ := entry
    have hkeys : keys ((k, w) :: entries) = k :: keys entries := rfl
    rw [get?_cons, hkeys, List.mem_cons, not_or, ← ih, eq_comm (a := key)]
    by_cases hk : k = key <;> simp [hk]

end Keyed

namespace Setting

variable {setting old value : Setting} {entries : Keyed Setting} {key : String}

/-- No table of the setting has a key twice, however deep it lies. -/
inductive Distinct : Setting → Prop
  | nothing : Distinct nothing
  | scalar (value : Scalar) : Distinct (scalar value)
  | list {items : List Setting} (h : ∀ item ∈ items, Distinct item) : Distinct (list items)
  | table {entries : Keyed Setting} (hkeys : entries.keys.Nodup)
      (h : ∀ e ∈ entries, Distinct e.2) : Distinct (table entries)

theorem distinct_empty : Distinct empty := .table List.nodup_nil (by simp)

namespace Distinct

theorem nodup_keys (h : setting.Distinct) : setting.entries.keys.Nodup := by
  cases h with
  | table hkeys => exact hkeys
  | _ => exact List.nodup_nil

theorem of_mem (h : setting.Distinct) : ∀ e ∈ setting.entries, e.2.Distinct := by
  cases h with
  | table _ h => exact h
  | _ => exact nofun

theorem of_get? (h : setting.Distinct) (hget : setting.get? key = some value) : value.Distinct :=
  h.of_mem _ (Keyed.mem_of_get? hget)

theorem getD_get? (h : setting.Distinct) (key : String) :
    ((setting.get? key).getD empty).Distinct := by
  cases hget : setting.get? key with
  | none => exact distinct_empty
  | some inner => exact h.of_get? hget

theorem put (h : setting.Distinct) (hvalue : value.Distinct) :
    (Setting.table (setting.entries.put key value)).Distinct := by
  refine .table (Keyed.nodup_keys_put h.nodup_keys) fun e he => ?_
  rcases Keyed.mem_put he with rfl | he
  · exact hvalue
  · exact h.of_mem e he

/-! ## Merging -/

theorem mergeEntries (h : ∀ e ∈ entries, ∀ old : Option Setting, (∀ s ∈ old, s.Distinct) →
    (merge e.2 old).Distinct) (hold : old.Distinct) : (mergeEntries entries old).Distinct := by
  induction entries generalizing old with
  | nil => simpa using hold
  | cons e entries ih =>
    rw [mergeEntries_cons]
    refine ih (fun e' he' => h e' (List.mem_cons_of_mem e he')) (hold.put ?_)
    exact h e List.mem_cons_self _ fun s hs => hold.of_get? hs

theorem merge (h : setting.Distinct) :
    ∀ old : Option Setting, (∀ s ∈ old, s.Distinct) → (merge setting old).Distinct := by
  induction h with
  | nothing => exact fun old _ => by simpa [Setting.merge] using Distinct.nothing
  | scalar value => exact fun old _ => by simpa using Distinct.scalar value
  | list h => exact fun old _ => by simpa [Setting.merge] using Distinct.list h
  | table hkeys h ih =>
    intro old hold
    rw [Setting.merge]
    refine mergeEntries ih ?_
    cases old with
    | none => exact distinct_empty
    | some s => exact hold s rfl

end Distinct

/-- What stands under a key after a merge of entries with distinct keys in lower case. -/
theorem get?_mergeEntries (hkeys : entries.keys.Nodup) (hlower : ∀ k ∈ entries.keys, lowerKey k = k)
    (old : Setting) (key : String) : (mergeEntries entries old).get? key =
      ((entries.get? key).map fun value => merge value (old.get? key)).or (old.get? key) := by
  induction entries generalizing old with
  | nil => simp
  | cons e entries ih =>
    obtain ⟨k, value⟩ := e
    obtain ⟨hnot, hrest⟩ := List.nodup_cons.1 hkeys
    have hk : lowerKey k = k := hlower k List.mem_cons_self
    rw [mergeEntries_cons, ih hrest fun k' hk' => hlower k' (List.mem_cons_of_mem k hk'),
      Keyed.get?_cons, get?_update, hk]
    by_cases hkey : k = key
    · have hnone : Keyed.get? entries key = none := Keyed.get?_eq_none_iff.2 (hkey ▸ hnot)
      simp [hkey, hnone]
    · simp [hkey]

end Setting

end Excerpt
