import Excerpt.Delimiter

/-!
# Regions

While the lines of a file go by, the regions opened and not yet closed form a stack. A
named end closes the innermost open region of that name and an anonymous end the
innermost of all. A content line belongs to every region open around it, once for each name.
-/

namespace Excerpt

namespace Delimiter

/-- The open regions after a delimiter; `opened` lists them innermost first. -/
def apply (opened : List String) : Delimiter → List String
  | start name => name :: opened
  | endNamed name => opened.erase name
  | endLast => opened.tail

@[simp] theorem apply_start (opened : List String) (name : String) :
    apply opened (start name) = name :: opened := rfl

@[simp] theorem apply_endNamed (opened : List String) (name : String) :
    apply opened (endNamed name) = opened.erase name := rfl

@[simp] theorem apply_endLast (opened : List String) :
    apply opened endLast = opened.tail := rfl

end Delimiter

/-- The lines of every region, by name in ascending order; the lines of one region are
listed by their offset in the file, the last one first. -/
abbrev RegionTable := List (String × List Nat)

namespace RegionTable

/-- Puts an offset in front unless it is there already. -/
def push (offset : Nat) (offsets : List Nat) : List Nat :=
  if offsets.head? = some offset then offsets else offset :: offsets

def record (name : String) (offset : Nat) : RegionTable → RegionTable
  | [] => [(name, [offset])]
  | (key, offsets) :: table =>
    if name = key then (key, push offset offsets) :: table
    else if name < key then (name, [offset]) :: (key, offsets) :: table
    else (key, offsets) :: record name offset table

/-- The offsets recorded for a name, in ascending order. -/
def offsets (table : RegionTable) (name : String) : List Nat :=
  ((table.lookup name).getD []).reverse

def names (table : RegionTable) : List String := table.map Prod.fst

def contains (table : RegionTable) (name : String) : Bool := (table.lookup name).isSome

@[simp] theorem offsets_nil (name : String) : offsets [] name = [] := rfl

@[simp] theorem names_nil : names [] = [] := rfl

end RegionTable

/-- The open regions and the table of the lines seen so far. -/
structure RegionLog where
  opened : List String := []
  table : RegionTable := []
deriving DecidableEq, Repr

namespace RegionLog

def apply (log : RegionLog) (d : Delimiter) : RegionLog :=
  { log with opened := d.apply log.opened }

def record (log : RegionLog) (offset : Nat) : RegionLog :=
  { log with table := log.opened.foldr (fun name table => table.record name offset) log.table }

/-- One line of the file: a delimiter, or a content line at the given offset. -/
def step (log : RegionLog) (offset : Nat) : Option Delimiter → RegionLog
  | some d => log.apply d
  | none => log.record offset

@[simp] theorem opened_record (log : RegionLog) (offset : Nat) :
    (log.record offset).opened = log.opened := rfl

@[simp] theorem table_apply (log : RegionLog) (d : Delimiter) :
    (log.apply d).table = log.table := rfl

end RegionLog

end Excerpt
