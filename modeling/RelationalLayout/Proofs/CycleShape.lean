/-
Rings and lines, and the graphs that edges make.

A ring leads from each of its atoms to the next one and from the last to the first; a
line leads from each of its atoms to the next one. Walking around a ring ends where it
began, so the edges of a ring are those of one line that is longer by an atom.
-/

import Mathlib.Data.List.Perm.Subperm
import Mathlib.Data.List.Rotate
import RelationalLayout.CycleGraph
import RelationalLayout.Proofs.SortedMap

namespace RelationalLayout

/-! ### Rings and lines -/

/-- One directed ring over distinct atoms; one atom may lead to itself. -/
def IsRing (leads : String → String → Prop) : Prop :=
  ∃ atoms : List String, atoms ≠ [] ∧ atoms.Nodup ∧ ∀ source target, leads source target ↔
    ∃ index, atoms[index]? = some source ∧ atoms[(index + 1) % atoms.length]? = some target

/-- One directed path through distinct atoms, at least two. -/
def IsLine (leads : String → String → Prop) : Prop :=
  ∃ atoms : List String, 2 ≤ atoms.length ∧ atoms.Nodup ∧ ∀ source target, leads source target ↔
    ∃ index, atoms[index]? = some source ∧ atoms[index + 1]? = some target

section Edges

variable {atoms : List String} {source target : String}

theorem mem_lineEdges_iff :
    (source, target) ∈ lineEdges atoms ↔
      ∃ index, atoms[index]? = some source ∧ atoms[index + 1]? = some target := by
  simp only [lineEdges, List.mem_iff_getElem?, List.getElem?_zip_eq_some, List.getElem?_tail]

theorem ringEdges_eq_zip_rotate (atoms : List String) :
    ringEdges atoms = atoms.zip (atoms.rotate 1) := by
  cases atoms with
  | nil => rfl
  | cons first rest =>
      rw [ringEdges, List.rotate_cons_succ, List.rotate_zero]

theorem mem_ringEdges_iff :
    (source, target) ∈ ringEdges atoms ↔
      ∃ index, atoms[index]? = some source ∧
        atoms[(index + 1) % atoms.length]? = some target := by
  simp only [ringEdges_eq_zip_rotate, List.mem_iff_getElem?, List.getElem?_zip_eq_some]
  apply exists_congr
  intro index
  apply and_congr_right
  intro present
  have inside : index < atoms.length := (List.getElem?_eq_some_iff.mp present).1
  rw [List.getElem?_rotate inside]

theorem mem_ringEdges_append_comm {edge : String × String} (left right : List String) :
    edge ∈ ringEdges (left ++ right) ↔ edge ∈ ringEdges (right ++ left) := by
  have rotated : ringEdges (right ++ left) = (ringEdges (left ++ right)).rotate left.length := by
    rw [← List.rotate_append_length_eq, ringEdges_eq_zip_rotate, ringEdges_eq_zip_rotate,
      List.rotate_rotate, Nat.add_comm left.length 1, ← List.rotate_rotate]
    exact (List.zipWith_rotate_distrib Prod.mk _ _ _ (List.length_rotate _ _).symm).symm
  rw [rotated, List.mem_rotate]

theorem map_fst_ringEdges (atoms : List String) : (ringEdges atoms).map Prod.fst = atoms := by
  rw [ringEdges_eq_zip_rotate]
  apply List.map_fst_zip
  rw [List.length_rotate]

theorem map_snd_ringEdges (atoms : List String) :
    (ringEdges atoms).map Prod.snd = atoms.rotate 1 := by
  rw [ringEdges_eq_zip_rotate]
  apply List.map_snd_zip
  rw [List.length_rotate]

theorem nodup_ringEdges (distinct : atoms.Nodup) : (ringEdges atoms).Nodup := by
  apply List.Nodup.of_map Prod.fst
  rw [map_fst_ringEdges]
  exact distinct

theorem map_snd_lineEdges (atoms : List String) : (lineEdges atoms).map Prod.snd = atoms.tail := by
  apply List.map_snd_zip
  rw [List.length_tail]
  omega

theorem nodup_lineEdges (distinct : atoms.Nodup) : (lineEdges atoms).Nodup := by
  apply List.Nodup.of_map Prod.snd
  rw [map_snd_lineEdges]
  exact distinct.tail

theorem map_fst_lineEdges (atoms : List String) :
    (lineEdges atoms).map Prod.fst = atoms.dropLast := by
  induction atoms with
  | nil => rfl
  | cons first rest ih =>
      cases rest with
      | nil => rfl
      | cons next rest => exact congrArg (List.cons first) ih

theorem mem_lineEdges_cons {first : String} :
    (source, target) ∈ lineEdges (first :: atoms) ↔
      (source = first ∧ atoms.head? = some target) ∨ (source, target) ∈ lineEdges atoms := by
  cases atoms with
  | nil => simp [lineEdges]
  | cons next rest => simp [lineEdges, eq_comm]

theorem mem_lineEdges_concat {last : String} :
    (source, target) ∈ lineEdges (atoms ++ [last]) ↔
      (source, target) ∈ lineEdges atoms ∨ (atoms.getLast? = some source ∧ target = last) := by
  induction atoms with
  | nil => simp [lineEdges]
  | cons first rest ih =>
      rw [List.cons_append, mem_lineEdges_cons, ih, mem_lineEdges_cons, ← or_assoc]
      cases rest with
      | nil => simp [lineEdges, eq_comm]
      | cons next rest => simp

theorem ringEdges_cons (first : String) (rest : List String) :
    ringEdges (first :: rest) = lineEdges (first :: (rest ++ [first])) := by
  have sameLength : (first :: rest).length = (rest ++ [first]).length := by simp
  have truncated : ((first :: rest) ++ [first]).zip ((rest ++ [first]) ++ []) =
      (first :: rest).zip (rest ++ [first]) ++ [first].zip [] := List.zip_append sameLength
  rw [List.append_nil, List.zip_nil_right, List.append_nil] at truncated
  exact truncated.symm

theorem mem_ringEdges_iff_lineEdges :
    (source, target) ∈ ringEdges atoms ↔
      (source, target) ∈ lineEdges atoms ∨
        (atoms.getLast? = some source ∧ atoms.head? = some target) := by
  cases atoms with
  | nil => simp [ringEdges, lineEdges]
  | cons first rest =>
      rw [ringEdges_cons, ← List.cons_append, mem_lineEdges_concat, List.head?_cons,
        Option.some_inj, eq_comm (a := first)]

theorem lineEdges_subset_ringEdges (atoms : List String) : lineEdges atoms ⊆ ringEdges atoms :=
  fun _ member => mem_ringEdges_iff_lineEdges.mpr (Or.inl member)

theorem mem_iff_of_ringEdges {atom : String} :
    (∃ edge ∈ ringEdges atoms, atom = edge.1 ∨ atom = edge.2) ↔ atom ∈ atoms := by
  constructor
  · intro given
    obtain ⟨edge, member, atEnd⟩ := given
    rw [ringEdges_eq_zip_rotate] at member
    obtain ⟨isSource, isTarget⟩ := List.of_mem_zip member
    rcases atEnd with same | same
    · rw [same]
      exact isSource
    · rw [same]
      exact List.mem_rotate.mp isTarget
  · intro member
    rw [← map_fst_ringEdges atoms] at member
    obtain ⟨edge, inRing, same⟩ := List.mem_map.mp member
    exact ⟨edge, inRing, Or.inl same.symm⟩

theorem mem_iff_of_lineEdges {atom : String} (several : 2 ≤ atoms.length) :
    (∃ edge ∈ lineEdges atoms, atom = edge.1 ∨ atom = edge.2) ↔ atom ∈ atoms := by
  constructor
  · intro given
    obtain ⟨edge, member, atEnd⟩ := given
    obtain ⟨isSource, isTarget⟩ := List.of_mem_zip member
    rcases atEnd with same | same
    · rw [same]
      exact isSource
    · rw [same]
      exact List.mem_of_mem_tail isTarget
  · intro member
    match atoms, several with
    | first :: next :: rest, _ =>
        rcases List.mem_cons.mp member with same | later
        · exact ⟨(first, next), List.mem_cons_self, Or.inl same⟩
        · have isTarget : atom ∈ (lineEdges (first :: next :: rest)).map Prod.snd := by
            rw [map_snd_lineEdges]
            exact later
          obtain ⟨edge, inLine, same⟩ := List.mem_map.mp isTarget
          exact ⟨edge, inLine, Or.inr same.symm⟩

end Edges

namespace CycleGraph

variable {graph : CycleGraph}

/-! ### Graphs made of edges -/

/-- The atoms are the ends of the edges, and nothing is listed twice. -/
structure WellFormed (graph : CycleGraph) : Prop where
  atomsDistinct : graph.atoms.Nodup
  edgesDistinct : graph.edges.Nodup
  mem_atoms : ∀ atom, atom ∈ graph.atoms ↔ ∃ edge ∈ graph.edges, atom = edge.1 ∨ atom = edge.2

theorem mem_addOnce {α : Type} [DecidableEq α] {items : List α} {item other : α} :
    other ∈ addOnce items item ↔ other ∈ items ∨ other = item := by
  unfold addOnce
  by_cases present : item ∈ items
  · rw [if_pos present]
    constructor
    · exact Or.inl
    · intro given
      rcases given with known | same
      · exact known
      · rw [same]
        exact present
  · rw [if_neg present, List.mem_append, List.mem_singleton]

theorem mem_foldl_addOnce {α : Type} [DecidableEq α] {items later : List α} {other : α} :
    other ∈ later.foldl addOnce items ↔ other ∈ items ∨ other ∈ later := by
  induction later generalizing items with
  | nil => simp only [List.foldl_nil, List.not_mem_nil, or_false]
  | cons item later ih => rw [List.foldl_cons, ih, mem_addOnce, List.mem_cons, or_assoc]

theorem nodup_addOnce {α : Type} [DecidableEq α] {items : List α} (distinct : items.Nodup)
    (item : α) : (addOnce items item).Nodup := by
  unfold addOnce
  by_cases present : item ∈ items
  · rw [if_pos present]
    exact distinct
  · rw [if_neg present, ← List.concat_eq_append]
    exact distinct.concat present

theorem wellFormed_empty : WellFormed empty where
  atomsDistinct := List.nodup_nil
  edgesDistinct := List.nodup_nil
  mem_atoms := by simp [empty]

theorem mem_edges_addEdge {source target : String} {edge : String × String} :
    edge ∈ (graph.addEdge source target).edges ↔ edge ∈ graph.edges ∨ edge = (source, target) :=
  mem_addOnce

theorem wellFormed_addEdge (wellFormed : graph.WellFormed) (source target : String) :
    (graph.addEdge source target).WellFormed where
  atomsDistinct := nodup_addOnce (nodup_addOnce wellFormed.atomsDistinct source) target
  edgesDistinct := nodup_addOnce wellFormed.edgesDistinct (source, target)
  mem_atoms := by
    intro atom
    have ends : atom ∈ (graph.addEdge source target).atoms ↔
        (atom ∈ graph.atoms ∨ atom = source) ∨ atom = target := by
      rw [addEdge, mem_addOnce, mem_addOnce]
    simp only [ends, mem_edges_addEdge, wellFormed.mem_atoms, or_and_right, exists_or,
      exists_eq_left, or_assoc]

def ofEdges (edges : List (String × String)) : CycleGraph :=
  edges.foldl (fun graph edge => graph.addEdge edge.1 edge.2) empty

theorem ofEdges_append_singleton (edges : List (String × String)) (edge : String × String) :
    ofEdges (edges ++ [edge]) = (ofEdges edges).addEdge edge.1 edge.2 := by
  rw [ofEdges, List.foldl_append]
  rfl

theorem wellFormed_ofEdges (edges : List (String × String)) : (ofEdges edges).WellFormed := by
  induction edges using List.reverseRecOn with
  | nil => exact wellFormed_empty
  | append_singleton edges edge ih =>
      rw [ofEdges_append_singleton]
      exact wellFormed_addEdge ih edge.1 edge.2

theorem mem_edges_ofEdges {edges : List (String × String)} {edge : String × String} :
    edge ∈ (ofEdges edges).edges ↔ edge ∈ edges := by
  induction edges using List.reverseRecOn with
  | nil => rfl
  | append_singleton edges other ih =>
      rw [ofEdges_append_singleton, mem_edges_addEdge, ih, List.mem_append, List.mem_singleton]

end CycleGraph

end RelationalLayout
