/-!
# Values under keys

A finite map from texts to values is a list of pairs, in the order in which its keys first
came. Putting a value under a key that is there replaces the old value in its place. A map
built from the empty one by these operations has every key once.
-/

namespace Excerpt

abbrev Keyed (α : Type) := List (String × α)

namespace Keyed

variable {α : Type}

def get? (entries : Keyed α) (key : String) : Option α := entries.lookup key

def put (key : String) (value : α) : Keyed α → Keyed α
  | [] => [(key, value)]
  | (k, v) :: entries => if k = key then (key, value) :: entries else (k, v) :: put key value entries

def erase (entries : Keyed α) (key : String) : Keyed α := entries.filter (·.1 != key)

def keys (entries : Keyed α) : List String := entries.map Prod.fst

@[simp] theorem get?_nil (key : String) : get? ([] : Keyed α) key = none := rfl

theorem get?_cons (k : String) (v : α) (entries : Keyed α) (key : String) :
    get? ((k, v) :: entries) key = if k = key then some v else get? entries key := by
  by_cases h : k = key
  · simp [get?, h]
  · have h' : (key == k) = false := by simpa using Ne.symm h
    simp [get?, h, List.lookup_cons, h']

theorem get?_put (entries : Keyed α) (k : String) (v : α) (key : String) :
    get? (put k v entries) key = if k = key then some v else get? entries key := by
  induction entries with
  | nil => simp [put, get?_cons]
  | cons e entries ih =>
    obtain ⟨k', v'⟩ := e
    by_cases h : k' = k
    · subst h
      by_cases hk : k' = key <;> simp [put, get?_cons, hk]
    · by_cases hk : k' = key
      · subst hk
        simp [put, h, get?_cons, Ne.symm h]
      · simp [put, h, get?_cons, hk, ih]

@[simp] theorem get?_put_self (entries : Keyed α) (k : String) (v : α) :
    get? (put k v entries) k = some v := by simp [get?_put]

theorem get?_erase (entries : Keyed α) (k key : String) :
    get? (erase entries k) key = if k = key then none else get? entries key := by
  induction entries with
  | nil => simp [erase]
  | cons e entries ih =>
    obtain ⟨k', v'⟩ := e
    by_cases h : k' = k
    · subst h
      by_cases hk : k' = key <;> simp_all [erase, get?_cons]
    · by_cases hk : k' = key
      · subst hk
        simp [erase, h, get?_cons, Ne.symm h]
      · simpa [erase, List.filter_cons, h, get?_cons, hk] using ih

end Keyed

end Excerpt
