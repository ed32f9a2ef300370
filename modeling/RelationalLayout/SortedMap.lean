/-
Finite maps whose entries are listed in strictly increasing key order.

The order is part of the type, so two maps with the same entries are equal and
a listing never depends on the order of insertion. Substitutions, typing
environments, diagrams and search results are such maps.
-/

namespace RelationalLayout

class OrderedKey (κ : Type) [LT κ] : Prop where
  lt_trans {first second third : κ} : first < second → second < third → first < third

instance : OrderedKey String := ⟨String.lt_trans⟩

instance : OrderedKey (List String) := ⟨List.lt_trans⟩

structure SortedMap (κ α : Type) [LT κ] where
  entries : List (κ × α)
  increasing : entries.Pairwise (fun left right => left.1 < right.1)

namespace SortedMap

variable {κ α : Type} [LT κ]

theorem ext {left right : SortedMap κ α} (same : left.entries = right.entries) : left = right := by
  cases left
  cases right
  cases same
  rfl

instance [DecidableEq κ] [DecidableEq α] : DecidableEq (SortedMap κ α) := fun left right =>
  if same : left.entries = right.entries then
    isTrue (ext same)
  else
    isFalse (fun equal => same (congrArg entries equal))

def empty : SortedMap κ α :=
  { entries := [], increasing := List.Pairwise.nil }

instance : Inhabited (SortedMap κ α) := ⟨empty⟩

def size (map : SortedMap κ α) : Nat := map.entries.length

def isEmpty (map : SortedMap κ α) : Bool := map.entries.isEmpty

def keys (map : SortedMap κ α) : List κ := map.entries.map Prod.fst

def values (map : SortedMap κ α) : List α := map.entries.map Prod.snd

def find? [BEq κ] (map : SortedMap κ α) (key : κ) : Option α := map.entries.lookup key

def contains [BEq κ] (map : SortedMap κ α) (key : κ) : Bool := (map.find? key).isSome

section Insert

variable [DecidableLT κ]

/-- A key that is already present gets the new value. -/
def insertEntry (key : κ) (value : α) : List (κ × α) → List (κ × α)
  | [] => [(key, value)]
  | entry :: rest =>
      if key < entry.1 then
        (key, value) :: entry :: rest
      else if entry.1 < key then
        entry :: insertEntry key value rest
      else
        (entry.1, value) :: rest

theorem key_of_mem_insertEntry {key : κ} {value : α} {entries : List (κ × α)} {item : κ × α}
    (member : item ∈ insertEntry key value entries) :
    item.1 = key ∨ ∃ entry ∈ entries, item.1 = entry.1 := by
  induction entries with
  | nil =>
      rw [insertEntry, List.mem_singleton] at member
      exact Or.inl (congrArg Prod.fst member)
  | cons entry rest ih =>
      rw [insertEntry] at member
      split at member
      · rcases List.mem_cons.mp member with here | later
        · exact Or.inl (congrArg Prod.fst here)
        · exact Or.inr ⟨item, later, rfl⟩
      · split at member
        · rcases List.mem_cons.mp member with here | later
          · exact Or.inr ⟨entry, List.mem_cons_self, congrArg Prod.fst here⟩
          · rcases ih later with same | ⟨other, inRest, same⟩
            · exact Or.inl same
            · exact Or.inr ⟨other, List.mem_cons_of_mem _ inRest, same⟩
        · rcases List.mem_cons.mp member with here | later
          · exact Or.inr ⟨entry, List.mem_cons_self, by rw [here]⟩
          · exact Or.inr ⟨item, List.mem_cons_of_mem _ later, rfl⟩

theorem increasing_insertEntry [OrderedKey κ] (key : κ) (value : α)
    {entries : List (κ × α)}
    (increasing : entries.Pairwise (fun left right => left.1 < right.1)) :
    (insertEntry key value entries).Pairwise (fun left right => left.1 < right.1) := by
  induction entries with
  | nil => exact List.pairwise_singleton _ _
  | cons entry rest ih =>
      obtain ⟨below, restIncreasing⟩ := List.pairwise_cons.mp increasing
      rw [insertEntry]
      split
      · rename_i before
        refine List.pairwise_cons.mpr ⟨?_, increasing⟩
        intro item member
        rcases List.mem_cons.mp member with here | later
        · exact here ▸ before
        · exact OrderedKey.lt_trans before (below item later)
      · split
        · rename_i after
          refine List.pairwise_cons.mpr ⟨?_, ih restIncreasing⟩
          intro item member
          rcases key_of_mem_insertEntry member with same | ⟨other, inRest, same⟩
          · exact same ▸ after
          · exact same ▸ below other inRest
        · exact List.pairwise_cons.mpr ⟨below, restIncreasing⟩

variable [OrderedKey κ]

def insert (map : SortedMap κ α) (key : κ) (value : α) : SortedMap κ α :=
  { entries := insertEntry key value map.entries
    increasing := increasing_insertEntry key value map.increasing }

/-- Of two pairs with one key the later wins. -/
def ofList (pairs : List (κ × α)) : SortedMap κ α :=
  pairs.foldl (fun map pair => map.insert pair.1 pair.2) empty

end Insert

def erase [DecidableEq κ] (map : SortedMap κ α) (key : κ) : SortedMap κ α :=
  { entries := map.entries.filter (fun entry => entry.1 ≠ key)
    increasing := map.increasing.filter _ }

end SortedMap

end RelationalLayout
