import Excerpt.Keyed

/-!
# Trees of settings

Settings form a tree of tables and lists with scalars at its leaves, and a place in a list may
hold nothing. The keys of tables are in lower case. A table goes into what is there key by key,
while every other value replaces it.
-/

namespace Excerpt

inductive Scalar where
  | text (text : String)
  | flag (flag : Bool)
  | integer (n : Int)
  /-- A binary floating-point number, by the shortest decimal text that means it. -/
  | float (text : String)
deriving DecidableEq, Repr

/-- The only character beyond ASCII that has an ASCII letter as its lower case. -/
def kelvinSign : Char := '\u212a'

def lowerChar (c : Char) : Char := if c = kelvinSign then 'k' else c.toLower

def lowerKey (key : String) : String := String.ofList (key.toList.map lowerChar)

inductive Setting where
  | nothing
  | scalar (value : Scalar)
  | list (items : List Setting)
  | table (entries : List (String × Setting))
deriving Repr

namespace Setting

def empty : Setting := table []

/-- Only a table has entries. -/
def entries : Setting → Keyed Setting
  | table entries => entries
  | _ => []

/-- Only a list has items. -/
def items : Setting → List Setting
  | list items => items
  | _ => []

def get? (setting : Setting) (key : String) : Option Setting := setting.entries.get? key

/-- What stands under lower case keys, each below the one before. -/
def find? (setting : Setting) : List String → Option Setting
  | [] => some setting
  | key :: keys => (setting.get? key).bind fun inner => inner.find? keys

@[simp] theorem entries_table (entries : List (String × Setting)) :
    (table entries).entries = entries := rfl

@[simp] theorem items_list (items : List Setting) : (list items).items = items := rfl

@[simp] theorem find?_nil (setting : Setting) : setting.find? [] = some setting := by
  cases setting <;> rfl

/-- Changes what is under a key, which may be none. -/
def update (key : String) (change : Option Setting → Setting) (setting : Setting) : Setting :=
  .table (setting.entries.put (lowerKey key) (change (setting.get? (lowerKey key))))

theorem get?_update (key : String) (change : Option Setting → Setting) (setting : Setting)
    (k : String) : (setting.update key change).get? k =
      if lowerKey key = k then some (change (setting.get? k)) else setting.get? k := by
  by_cases h : lowerKey key = k <;> simp [update, get?, Keyed.get?_put, h]

/-- The place that an index means in a list. Negative indices count from the end. -/
def place? (index : Int) (length : Nat) : Option Nat :=
  if 0 ≤ index then some index.toNat
  else if index.natAbs ≤ length then some (length - index.natAbs)
  else none

/-- Changes the item at an index. A list that is too short is filled up with nothing. -/
def updateItem (index : Int) (change : Setting → Setting) (setting : Setting) : Setting :=
  let items := setting.items
  match place? index items.length with
  | some n => .list ((items ++ List.replicate (n + 1 - items.length) nothing).modify n change)
  | none => .list items

mutual

/-- The value with which an old one comes out of a merge. -/
def merge : Setting → Option Setting → Setting
  | table entries, old => mergeEntries entries (old.getD empty)
  | nothing, _ => nothing
  | scalar value, _ => scalar value
  | list items, _ => list items

/-- Puts entries into a table one after the other. -/
def mergeEntries : List (String × Setting) → Setting → Setting
  | [], old => old
  | (key, value) :: entries, old => mergeEntries entries (old.update key (merge value))

end

@[simp] theorem merge_scalar (value : Scalar) (old : Option Setting) :
    merge (scalar value) old = scalar value := by simp [merge]

@[simp] theorem mergeEntries_nil (old : Setting) : mergeEntries [] old = old := by
  simp [mergeEntries]

theorem mergeEntries_cons (key : String) (value : Setting) (entries : List (String × Setting))
    (old : Setting) : mergeEntries ((key, value) :: entries) old =
      mergeEntries entries (old.update key (merge value)) := by simp [mergeEntries]

end Setting

end Excerpt
