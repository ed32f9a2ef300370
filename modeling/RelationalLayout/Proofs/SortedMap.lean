/-
Looking things up in sorted maps.

A map is determined by what its keys lead to, and inserting an entry changes
what one key leads to. Both need keys of which two different ones are always in
order, one way or the other.
-/

import Mathlib.Data.List.Forall2
import RelationalLayout.SortedMap

namespace RelationalLayout

class TotalKey (κ : Type) [LT κ] : Prop extends OrderedKey κ where
  lt_irrefl (key : κ) : ¬key < key
  eq_of_not_lt {left right : κ} : ¬left < right → ¬right < left → left = right

instance : TotalKey String where
  lt_irrefl := String.lt_irrefl
  eq_of_not_lt notBefore notAfter :=
    String.le_antisymm (String.not_lt.mp notAfter) (String.not_lt.mp notBefore)

instance : TotalKey (List String) where
  lt_irrefl := List.lt_irrefl
  eq_of_not_lt notBefore notAfter :=
    List.le_antisymm (List.not_lt.mp notAfter) (List.not_lt.mp notBefore)

namespace SortedMap

variable {κ α : Type}

/-! ### Entries -/

section Lookup

variable [BEq κ] [LawfulBEq κ] [DecidableEq κ]

theorem lookup_cons_eq_ite (key : κ) (entry : κ × α) (rest : List (κ × α)) :
    (entry :: rest).lookup key = if key = entry.1 then some entry.2 else rest.lookup key := by
  rw [List.lookup_cons]
  by_cases same : key = entry.1
  · rw [if_pos same, beq_iff_eq.mpr same]
  · rw [if_neg same, beq_eq_false_iff_ne.mpr same]

theorem lookup_insertEntry [LT κ] [DecidableLT κ] [TotalKey κ] (key other : κ) (value : α)
    (entries : List (κ × α)) :
    (insertEntry key value entries).lookup other =
      if other = key then some value else entries.lookup other := by
  induction entries with
  | nil => rw [insertEntry, lookup_cons_eq_ite]
  | cons entry rest ih =>
      rw [insertEntry]
      split
      · rw [lookup_cons_eq_ite]
      · rename_i notBefore
        split
        · rename_i after
          have different : entry.1 ≠ key :=
            fun same => TotalKey.lt_irrefl key (same ▸ after)
          rw [lookup_cons_eq_ite, lookup_cons_eq_ite, ih]
          by_cases atEntry : other = entry.1
          · rw [if_pos atEntry, if_pos atEntry, if_neg (atEntry ▸ different)]
          · rw [if_neg atEntry, if_neg atEntry]
        · rename_i notAfter
          have same : entry.1 = key := TotalKey.eq_of_not_lt notAfter notBefore
          rw [lookup_cons_eq_ite, lookup_cons_eq_ite, same]
          split <;> rfl

theorem lookup_eq_some_of_mem [LT κ] [TotalKey κ] {entries : List (κ × α)} {key : κ} {value : α}
    (increasing : entries.Pairwise (fun left right => left.1 < right.1))
    (member : (key, value) ∈ entries) : entries.lookup key = some value := by
  induction entries with
  | nil => cases member
  | cons entry rest ih =>
      obtain ⟨below, restIncreasing⟩ := List.pairwise_cons.mp increasing
      rw [lookup_cons_eq_ite]
      rcases List.mem_cons.mp member with here | later
      · subst here
        rw [if_pos rfl]
      · have before : entry.1 < key := below (key, value) later
        have different : key ≠ entry.1 :=
          fun same => TotalKey.lt_irrefl entry.1 (same ▸ before)
        rw [if_neg different]
        exact ih restIncreasing later

end Lookup

theorem mem_of_lookup_eq_some [BEq κ] [LawfulBEq κ] {entries : List (κ × α)} {key : κ} {value : α}
    (found : entries.lookup key = some value) : (key, value) ∈ entries := by
  obtain ⟨before, after, split, _⟩ := List.lookup_eq_some_iff.mp found
  rw [split]
  exact List.mem_append_right before List.mem_cons_self

variable [LT κ]

theorem eq_of_increasing [TotalKey κ] {left right : List (κ × α)}
    (leftIncreasing : left.Pairwise (fun earlier later => earlier.1 < later.1))
    (rightIncreasing : right.Pairwise (fun earlier later => earlier.1 < later.1))
    (same : ∀ entry, entry ∈ left ↔ entry ∈ right) : left = right := by
  induction left generalizing right with
  | nil =>
      cases right with
      | nil => rfl
      | cons entry _ => cases (same entry).mpr List.mem_cons_self
  | cons first rest ih =>
      cases right with
      | nil => cases (same first).mp List.mem_cons_self
      | cons other others =>
          obtain ⟨belowRest, restIncreasing⟩ := List.pairwise_cons.mp leftIncreasing
          obtain ⟨belowOthers, othersIncreasing⟩ := List.pairwise_cons.mp rightIncreasing
          have heads : first = other := by
            rcases List.mem_cons.mp ((same first).mp List.mem_cons_self) with equal | inOthers
            · exact equal
            · rcases List.mem_cons.mp ((same other).mpr List.mem_cons_self) with equal | inRest
              · exact equal.symm
              · have around := OrderedKey.lt_trans (belowRest other inRest)
                  (belowOthers first inOthers)
                exact absurd around (TotalKey.lt_irrefl first.1)
          subst heads
          have tails : ∀ entry, entry ∈ rest ↔ entry ∈ others := by
            intro entry
            have throughout := same entry
            simp only [List.mem_cons] at throughout
            constructor
            · intro inRest
              refine (throughout.mp (Or.inr inRest)).resolve_left ?_
              intro equal
              exact TotalKey.lt_irrefl first.1 (equal ▸ belowRest entry inRest)
            · intro inOthers
              refine (throughout.mpr (Or.inr inOthers)).resolve_left ?_
              intro equal
              exact TotalKey.lt_irrefl first.1 (equal ▸ belowOthers entry inOthers)
          rw [ih restIncreasing othersIncreasing tails]

/-! ### Maps -/

theorem ofList_append_singleton [DecidableLT κ] [OrderedKey κ] (pairs : List (κ × α)) (pair : κ × α) :
    ofList (pairs ++ [pair]) = (ofList pairs).insert pair.1 pair.2 := by
  rw [ofList, List.foldl_append]
  rfl

section Find

variable [BEq κ]

@[simp] theorem find?_empty (key : κ) : (empty : SortedMap κ α).find? key = none := rfl

variable [LawfulBEq κ] [DecidableEq κ]

theorem find?_insert [DecidableLT κ] [TotalKey κ] (map : SortedMap κ α)
    (key other : κ) (value : α) :
    (map.insert key value).find? other = if other = key then some value else map.find? other :=
  lookup_insertEntry key other value map.entries

theorem mem_entries_iff [TotalKey κ] {map : SortedMap κ α} {key : κ} {value : α} :
    (key, value) ∈ map.entries ↔ map.find? key = some value :=
  ⟨lookup_eq_some_of_mem map.increasing, mem_of_lookup_eq_some⟩

theorem mem_keys_iff [TotalKey κ] {map : SortedMap κ α} {key : κ} :
    key ∈ map.keys ↔ ∃ value, map.find? key = some value := by
  constructor
  · intro member
    obtain ⟨entry, inEntries, same⟩ := List.mem_map.mp member
    subst same
    exact ⟨entry.2, mem_entries_iff.mp inEntries⟩
  · intro given
    obtain ⟨value, found⟩ := given
    exact List.mem_map.mpr ⟨(key, value), mem_entries_iff.mpr found, rfl⟩

theorem contains_iff [TotalKey κ] {map : SortedMap κ α} {key : κ} :
    map.contains key = true ↔ key ∈ map.keys := by
  rw [contains, Option.isSome_iff_exists, mem_keys_iff]

theorem mem_keys_insert [DecidableLT κ] [TotalKey κ] {map : SortedMap κ α} {key other : κ}
    {value : α} : other ∈ (map.insert key value).keys ↔ other = key ∨ other ∈ map.keys := by
  simp only [mem_keys_iff, find?_insert]
  by_cases same : other = key
  · simp only [same, if_true, true_or, Option.some.injEq, exists_eq']
  · simp only [same, if_false, false_or]

theorem ext_find? [TotalKey κ] {left right : SortedMap κ α}
    (same : ∀ key, left.find? key = right.find? key) : left = right := by
  refine ext (eq_of_increasing left.increasing right.increasing ?_)
  intro given
  obtain ⟨key, value⟩ := given
  rw [mem_entries_iff, mem_entries_iff, same key]

/-! ### Maps from lists -/

section OfList

variable [DecidableLT κ] [TotalKey κ]

theorem find?_foldl_insert {pairs : List (κ × α)} (map : SortedMap κ α)
    (distinct : (pairs.map Prod.fst).Nodup) {key : κ} {value : α} :
    (pairs.foldl (fun map pair => map.insert pair.1 pair.2) map).find? key = some value ↔
      (key, value) ∈ pairs ∨ key ∉ pairs.map Prod.fst ∧ map.find? key = some value := by
  induction pairs generalizing map with
  | nil => simp only [List.foldl_nil, List.not_mem_nil, List.map_nil, not_false_eq_true, true_and,
      false_or]
  | cons pair pairs ih =>
      obtain ⟨fresh, distinctRest⟩ := List.nodup_cons.mp distinct
      rw [List.foldl_cons, ih (map.insert pair.1 pair.2) distinctRest, find?_insert, List.mem_cons,
        List.map_cons, List.mem_cons]
      by_cases here : key = pair.1
      · subst here
        have notLater : (pair.1, value) ∉ pairs :=
          fun member => fresh (List.mem_map.mpr ⟨(pair.1, value), member, rfl⟩)
        simp only [notLater, fresh, if_true, Option.some.injEq, not_false_eq_true, true_and,
          false_or, or_false, not_true_eq_false, false_and]
        constructor
        · intro same
          rw [← same]
        · intro same
          exact (congrArg Prod.snd same).symm
      · have different : (key, value) ≠ pair := fun same => here (congrArg Prod.fst same)
        simp only [here, different, if_false, false_or]

theorem find?_ofList {pairs : List (κ × α)} (distinct : (pairs.map Prod.fst).Nodup) {key : κ}
    {value : α} : (ofList pairs).find? key = some value ↔ (key, value) ∈ pairs := by
  rw [ofList, find?_foldl_insert empty distinct, find?_empty]
  simp only [reduceCtorEq, and_false, or_false]

theorem mem_keys_ofList {pairs : List (κ × α)} (distinct : (pairs.map Prod.fst).Nodup) {key : κ} :
    key ∈ (ofList pairs).keys ↔ key ∈ pairs.map Prod.fst := by
  simp only [mem_keys_iff, find?_ofList distinct, List.mem_map, Prod.exists, exists_and_right,
    exists_eq_right]

omit [BEq κ] [LawfulBEq κ] [DecidableEq κ] [DecidableLT κ] in
theorem nodup_keys (map : SortedMap κ α) : (map.entries.map Prod.fst).Nodup := by
  rw [List.Nodup, List.pairwise_map]
  refine map.increasing.imp fun before same => ?_
  rw [same] at before
  exact TotalKey.lt_irrefl _ before

theorem ofList_entries (map : SortedMap κ α) : ofList map.entries = map := by
  apply ext_find?
  intro key
  ext value
  rw [find?_ofList map.nodup_keys, mem_entries_iff]

end OfList

/-! ### Erased keys -/

theorem find?_erase [TotalKey κ] (map : SortedMap κ α) (key other : κ) :
    (map.erase key).find? other = if other = key then none else map.find? other := by
  ext value
  have kept : (other, value) ∈ (map.erase key).entries ↔
      (other, value) ∈ map.entries ∧ other ≠ key := by
    rw [erase, List.mem_filter, decide_eq_true_eq]
  rw [← mem_entries_iff, kept, mem_entries_iff]
  by_cases same : other = key
  · simp [same]
  · simp [same]

theorem find?_foldl_erase [TotalKey κ] (map : SortedMap κ α) (keys : List κ) (other : κ) :
    (keys.foldl erase map).find? other = if other ∈ keys then none else map.find? other := by
  induction keys generalizing map with
  | nil => rw [List.foldl_nil, if_neg List.not_mem_nil]
  | cons key keys ih =>
      rw [List.foldl_cons, ih, find?_erase]
      by_cases same : other = key
      · simp [same]
      · simp [same]

end Find

/-! ### Related maps -/

/-- Maps with the same keys, each of which leads to related values. -/
def Related {β : Type} (relation : α → β → Prop) (left : SortedMap κ α) (right : SortedMap κ β) :
    Prop :=
  List.Forall₂ (fun entry other => entry.1 = other.1 ∧ relation entry.2 other.2)
    left.entries right.entries

namespace Related

variable {β : Type} {relation : α → β → Prop} {left : SortedMap κ α} {right : SortedMap κ β}

theorem empty : Related relation (empty : SortedMap κ α) (.empty : SortedMap κ β) :=
  List.Forall₂.nil

theorem values (related : Related relation left right) :
    List.Forall₂ relation left.values right.values := by
  rw [SortedMap.values, SortedMap.values, List.forall₂_map_left_iff, List.forall₂_map_right_iff]
  exact related.imp fun _ _ both => both.2

theorem find? [BEq κ] (related : Related relation left right) (key : κ) :
    Option.Rel relation (left.find? key) (right.find? key) := by
  rw [SortedMap.find?, SortedMap.find?]
  rw [Related] at related
  generalize left.entries = entries, right.entries = others at related ⊢
  induction related with
  | nil => exact .none
  | @cons entry other _ _ both _ ih =>
      rw [List.lookup_cons, List.lookup_cons, both.1]
      cases key == other.1 with
      | true => exact .some both.2
      | false => exact ih

theorem insert [DecidableLT κ] [OrderedKey κ] (related : Related relation left right) (key : κ)
    {value : α} {other : β} (values : relation value other) :
    Related relation (left.insert key value) (right.insert key other) := by
  change List.Forall₂ _ (insertEntry key value left.entries) (insertEntry key other right.entries)
  rw [Related] at related
  generalize left.entries = entries, right.entries = others at related ⊢
  induction related with
  | nil => exact .cons ⟨rfl, values⟩ .nil
  | @cons entry known _ _ both rest ih =>
      rw [insertEntry, insertEntry, both.1]
      split
      · exact .cons ⟨rfl, values⟩ (.cons both rest)
      · split
        · exact .cons both ih
        · exact .cons ⟨rfl, values⟩ rest

end Related

end SortedMap

end RelationalLayout
