/-
The order of a ring or of a line.

A path has one topological order only, the path itself. A line is a path, and a ring becomes
one when the edge that leaves its first atom is taken away. So the order of a graph is the same
by whatever topological sort it is found, and it depends on the set of edges alone, up to where a
ring is entered.
-/

import Mathlib.Data.Fintype.EquivFin
import Mathlib.Data.List.Chain
import Mathlib.Order.WellFounded
import RelationalLayout.Proofs.CycleDegree

namespace RelationalLayout.CycleGraph

variable {graph : CycleGraph}

/-! ### Topological orders -/

def Acyclic (edges : List (String × String)) : Prop :=
  ∀ atom, ¬Relation.TransGen (fun source target => (source, target) ∈ edges) atom atom

/-- All atoms, each one before those that it leads to. -/
structure IsTopological (graph : CycleGraph) (order : List String) : Prop where
  lists : order.Perm graph.atoms
  forward : ∀ edge ∈ graph.edges, order.idxOf edge.1 < order.idxOf edge.2

/-- A topological sort has an order for every graph without cycles, isolated atoms included. -/
def SortsTopologically (sort : CycleGraph → Option (List String)) : Prop :=
  ∀ graph : CycleGraph, graph.atoms.Nodup →
    (∀ edge ∈ graph.edges, edge.1 ∈ graph.atoms ∧ edge.2 ∈ graph.atoms) → Acyclic graph.edges →
    ∃ order, sort graph = some order ∧ graph.IsTopological order

theorem exists_source {edges : List (String × String)} (acyclic : Acyclic edges)
    {remaining : List String} (inhabited : remaining ≠ []) :
    ∃ atom ∈ remaining, ∀ other ∈ remaining, (other, atom) ∉ edges := by
  let Before (left right : {atom // atom ∈ remaining}) : Prop :=
    Relation.TransGen (fun source target => (source, target) ∈ edges) left.val right.val
  have transitive : IsTrans {atom // atom ∈ remaining} Before := ⟨fun _ _ _ => .trans⟩
  have irreflexive : Std.Irrefl Before := ⟨fun atom => acyclic atom.val⟩
  have wellFounded : WellFounded Before := Finite.wellFounded_of_trans_of_irrefl Before
  obtain ⟨some, isSome⟩ := List.exists_mem_of_ne_nil remaining inhabited
  obtain ⟨⟨first, isFirst⟩, _, least⟩ := wellFounded.has_min Set.univ ⟨⟨some, isSome⟩, trivial⟩
  exact ⟨first, isFirst, fun other isOther leads =>
    least ⟨other, isOther⟩ trivial (.single leads)⟩

theorem exists_sortAtoms {edges : List (String × String)} (acyclic : Acyclic edges)
    {count : Nat} {remaining : List String} (distinct : remaining.Nodup)
    (counted : remaining.length = count) :
    ∃ order, sortAtoms edges count remaining = some order ∧ order.Perm remaining ∧
      ∀ edge ∈ edges, edge.1 ∈ remaining → edge.2 ∈ remaining →
        order.idxOf edge.1 < order.idxOf edge.2 := by
  induction count generalizing remaining with
  | zero =>
      cases List.length_eq_zero_iff.mp counted
      exact ⟨[], rfl, List.Perm.refl [], fun _ _ impossible => by cases impossible⟩
  | succ count ih =>
      have inhabited : remaining ≠ [] := List.ne_nil_of_length_eq_add_one counted
      cases found : remaining.find? (fun atom =>
          remaining.all (fun other => (other, atom) ∉ edges)) with
      | none =>
          obtain ⟨atom, member, unled⟩ := exists_source acyclic inhabited
          have led := List.find?_eq_none.mp found atom member
          simp only [List.all_eq_true, decide_eq_true_eq] at led
          exact absurd unled led
      | some atom =>
          have member := List.mem_of_find?_eq_some found
          have unled := List.find?_some found
          simp only [List.all_eq_true, decide_eq_true_eq] at unled
          have fewer : (remaining.erase atom).length = count := by
            rw [List.length_erase_of_mem member, counted, Nat.add_sub_cancel]
          obtain ⟨order, sorted, permuted, forward⟩ := ih (distinct.erase atom) fewer
          refine ⟨atom :: order, ?_, ?_, ?_⟩
          · rw [sortAtoms, found]
            simp only [sorted, Option.map_some]
          · exact (permuted.cons atom).trans (List.perm_cons_erase member).symm
          · intro edge isEdge sourceRemains targetRemains
            have targetIsLater : edge.2 ≠ atom := by
              rintro rfl
              exact unled edge.1 sourceRemains isEdge
            rw [List.idxOf_cons_ne order (Ne.symm targetIsLater)]
            by_cases sourceIsFirst : edge.1 = atom
            · rw [sourceIsFirst, List.idxOf_cons_self]
              exact Nat.succ_pos _
            · rw [List.idxOf_cons_ne order (Ne.symm sourceIsFirst)]
              exact Nat.succ_lt_succ (forward edge isEdge
                ((List.mem_erase_of_ne sourceIsFirst).mpr sourceRemains)
                ((List.mem_erase_of_ne targetIsLater).mpr targetRemains))

theorem sortsTopologically_topologicalOrder? : SortsTopologically topologicalOrder? := by
  intro graph distinct within acyclic
  obtain ⟨order, sorted, permuted, forward⟩ := exists_sortAtoms acyclic distinct rfl
  refine ⟨order, sorted, permuted, fun edge isEdge => ?_⟩
  obtain ⟨sourceIsAtom, targetIsAtom⟩ := within edge isEdge
  exact forward edge isEdge sourceIsAtom targetIsAtom

/-! ### The order of a path -/

section Path

variable {path : List String}

theorem isChain_iff_lineEdges {leads : String → String → Prop} :
    path.IsChain leads ↔ ∀ edge ∈ lineEdges path, leads edge.1 edge.2 := by
  induction path with
  | nil => exact iff_of_true .nil (List.forall_mem_nil _)
  | cons first rest ih =>
      cases rest with
      | nil => exact iff_of_true (.singleton first) (List.forall_mem_nil _)
      | cons next rest =>
          change _ ↔ ∀ edge ∈ (first, next) :: lineEdges (next :: rest), leads edge.1 edge.2
          rw [List.isChain_cons_cons, List.forall_mem_cons, ih]

theorem idxOf_lt_of_lineEdges (distinct : path.Nodup) :
    ∀ edge ∈ lineEdges path, path.idxOf edge.1 < path.idxOf edge.2 := by
  intro edge member
  obtain ⟨index, here, next⟩ := mem_lineEdges_iff.mp member
  obtain ⟨inside, isSource⟩ := List.getElem?_eq_some_iff.mp here
  obtain ⟨nextInside, isTarget⟩ := List.getElem?_eq_some_iff.mp next
  rw [← isSource, ← isTarget, distinct.idxOf_getElem index inside,
    distinct.idxOf_getElem (index + 1) nextInside]
  exact Nat.lt_succ_self index

theorem acyclic_of_lineEdges {edges : List (String × String)} (distinct : path.Nodup)
    (same : ∀ edge, edge ∈ edges ↔ edge ∈ lineEdges path) : Acyclic edges := by
  have forward {source target : String}
      (leads : Relation.TransGen (fun source target => (source, target) ∈ edges) source target) :
      path.idxOf source < path.idxOf target := by
    induction leads with
    | single leads => exact idxOf_lt_of_lineEdges distinct _ ((same _).mp leads)
    | tail _ leads ih => exact ih.trans (idxOf_lt_of_lineEdges distinct _ ((same _).mp leads))
  exact fun atom leads => Nat.lt_irrefl _ (forward leads)

theorem eq_of_perm_of_forward {order : List String} (distinct : path.Nodup)
    (permuted : order.Perm path)
    (forward : ∀ edge ∈ lineEdges path, order.idxOf edge.1 < order.idxOf edge.2) :
    order = path := by
  have orderDistinct : order.Nodup := permuted.nodup_iff.mpr distinct
  have pathAscends : path.Pairwise (fun left right => order.idxOf left < order.idxOf right) := by
    rw [← List.pairwise_map, ← List.isChain_iff_pairwise, List.isChain_map]
    exact isChain_iff_lineEdges.mpr forward
  have orderAscends : order.Pairwise (fun left right => order.idxOf left < order.idxOf right) := by
    rw [List.pairwise_iff_getElem]
    intro left right leftInside rightInside before
    rw [orderDistinct.idxOf_getElem left leftInside, orderDistinct.idxOf_getElem right rightInside]
    exact before
  refine List.Perm.eq_of_pairwise ?_ orderAscends pathAscends permuted
  intro left right _ _ before after
  exact absurd before after.asymm

variable {sort : CycleGraph → Option (List String)}

theorem sort_of_lineEdges (sorts : SortsTopologically sort) (atomsDistinct : graph.atoms.Nodup)
    (distinct : path.Nodup) (whole : ∀ atom, atom ∈ graph.atoms ↔ atom ∈ path)
    (edges : ∀ edge, edge ∈ graph.edges ↔ edge ∈ lineEdges path) : sort graph = some path := by
  have within : ∀ edge ∈ graph.edges, edge.1 ∈ graph.atoms ∧ edge.2 ∈ graph.atoms := by
    intro edge isEdge
    obtain ⟨isSource, isTarget⟩ := List.of_mem_zip ((edges edge).mp isEdge)
    exact ⟨(whole edge.1).mpr isSource, (whole edge.2).mpr (List.mem_of_mem_tail isTarget)⟩
  obtain ⟨order, sorted, topological⟩ :=
    sorts graph atomsDistinct within (acyclic_of_lineEdges distinct edges)
  have permuted := topological.lists.trans
    ((List.perm_ext_iff_of_nodup atomsDistinct distinct).mpr whole)
  rw [sorted, eq_of_perm_of_forward distinct permuted
    (fun edge inLine => topological.forward edge ((edges edge).mpr inLine))]

end Path

/-! ### Rings and lines -/

variable {sort : CycleGraph → Option (List String)}

theorem orderBy_of_lineEdges (sorts : SortsTopologically sort) (wellFormed : graph.WellFormed)
    (line : graph.shape = .line) {path : List String} (distinct : path.Nodup)
    (whole : ∀ atom, atom ∈ graph.atoms ↔ atom ∈ path)
    (edges : ∀ edge, edge ∈ graph.edges ↔ edge ∈ lineEdges path) :
    graph.orderBy sort = some path := by
  rw [orderBy, opened?, line]
  exact sort_of_lineEdges sorts wellFormed.atomsDistinct distinct whole edges

theorem exists_ring_from_head (wellFormed : graph.WellFormed) (ring : graph.shape = .ring) :
    ∃ first rest, graph.atoms.head? = some first ∧ (first :: rest).Nodup ∧
      (∀ atom, atom ∈ graph.atoms ↔ atom ∈ first :: rest) ∧
      ∀ edge, edge ∈ graph.edges ↔ edge ∈ ringEdges (first :: rest) := by
  obtain ⟨path, inhabited, distinct, whole, edges⟩ :=
    exists_path_of_isRing wellFormed ((shape_eq_ring_iff wellFormed).mp ring)
  cases starts : graph.atoms.head? with
  | none =>
      obtain ⟨atom, member⟩ := List.exists_mem_of_ne_nil path inhabited
      have isAtom := (whole atom).mpr member
      rw [List.head?_eq_none_iff.mp starts] at isAtom
      cases isAtom
  | some first =>
      have inRing := (whole first).mp (List.mem_of_mem_head? starts)
      obtain ⟨before, after, rfl⟩ := List.append_of_mem inRing
      have turned : (before ++ first :: after).Perm (first :: (after ++ before)) :=
        List.perm_append_comm
      refine ⟨first, after ++ before, rfl, turned.nodup_iff.mp distinct,
        fun atom => (whole atom).trans turned.mem_iff, fun edge => ?_⟩
      rw [edges, mem_ringEdges_append_comm, List.cons_append]

theorem mem_erase_ringEdges {first next : String} {rest : List String}
    (distinct : (first :: rest).Nodup) {edges : List (String × String)} (once : edges.Nodup)
    (same : ∀ edge, edge ∈ edges ↔ edge ∈ ringEdges (first :: rest))
    (leaves : (first, next) ∈ edges) (edge : String × String) :
    edge ∈ edges.erase (first, next) ↔ edge ∈ lineEdges (rest ++ [first]) := by
  obtain ⟨source, target⟩ := edge
  have isLater : first ∉ rest := (List.nodup_cons.mp distinct).1
  have mem_edges (edge : String × String) : edge ∈ edges ↔
      (edge.1 = first ∧ (rest ++ [first]).head? = some edge.2) ∨
        edge ∈ lineEdges (rest ++ [first]) := by
    rw [same, ringEdges_cons]
    exact mem_lineEdges_cons
  -- The first atom is a source just once, as it ends the path.
  have notInPath (target : String) : (first, target) ∉ lineEdges (rest ++ [first]) := by
    intro member
    have isSource := List.mem_map_of_mem (f := Prod.fst) member
    rw [map_fst_lineEdges, List.dropLast_concat] at isSource
    exact isLater isSource
  have starts := ((mem_edges (first, next)).mp leaves).resolve_right (notInPath next)
  rw [once.mem_erase_iff, mem_edges]
  constructor
  · rintro ⟨different, ⟨rfl, alsoStarts⟩ | inPath⟩
    · rw [starts.2, Option.some_inj] at alsoStarts
      exact absurd (congrArg (Prod.mk source) alsoStarts.symm) different
    · exact inPath
  · intro inPath
    refine ⟨?_, Or.inr inPath⟩
    rintro ⟨⟩
    exact notInPath next inPath

theorem orderBy_of_ringEdges (sorts : SortsTopologically sort) (wellFormed : graph.WellFormed)
    (ring : graph.shape = .ring) {first : String} {rest : List String}
    (starts : graph.atoms.head? = some first) (distinct : (first :: rest).Nodup)
    (whole : ∀ atom, atom ∈ graph.atoms ↔ atom ∈ first :: rest)
    (edges : ∀ edge, edge ∈ graph.edges ↔ edge ∈ ringEdges (first :: rest)) :
    graph.orderBy sort = some (rest ++ [first]) := by
  have turned : (rest ++ [first]).Perm (first :: rest) := List.perm_append_singleton first rest
  cases found : graph.edges.find? (fun edge => edge.1 = first) with
  | none =>
      -- Every atom of a ring leads to another one.
      have isSource : first ∈ (ringEdges (first :: rest)).map Prod.fst := by
        rw [map_fst_ringEdges]
        exact List.mem_cons_self
      obtain ⟨edge, inRing, same⟩ := List.mem_map.mp isSource
      have absent := List.find?_eq_none.mp found edge ((edges edge).mpr inRing)
      rw [decide_eq_true_eq] at absent
      exact absurd same absent
  | some edge =>
      obtain ⟨source, next⟩ := edge
      have leaves := List.mem_of_find?_eq_some found
      have isFirst := List.find?_some found
      rw [decide_eq_true_eq] at isFirst
      subst isFirst
      have opened : graph.opened? = some { graph with edges := graph.edges.erase (source, next) } := by
        rw [opened?, ring]
        simp only [starts, found, bind, Option.bind]
      rw [orderBy, opened]
      exact sort_of_lineEdges sorts wellFormed.atomsDistinct (turned.nodup_iff.mpr distinct)
        (fun atom => (whole atom).trans turned.mem_iff.symm)
        (mem_erase_ringEdges distinct wellFormed.edgesDistinct edges leaves)

theorem orderBy_eq_none_iff (sorts : SortsTopologically sort) (wellFormed : graph.WellFormed) :
    graph.orderBy sort = none ↔ graph.shape = .malformed := by
  cases kind : graph.shape with
  | ring =>
      obtain ⟨first, rest, starts, distinct, whole, edges⟩ := exists_ring_from_head wellFormed kind
      rw [orderBy_of_ringEdges sorts wellFormed kind starts distinct whole edges]
      exact iff_of_false nofun nofun
  | line =>
      obtain ⟨first, middle, last, distinct, whole, edges⟩ :=
        exists_path_of_isLine wellFormed ((shape_eq_line_iff wellFormed).mp kind)
      rw [orderBy_of_lineEdges sorts wellFormed kind distinct whole edges]
      exact iff_of_false nofun nofun
  | malformed =>
      rw [orderBy, opened?, kind]
      exact iff_of_true rfl rfl

theorem orderBy_congr_sort (sorts : SortsTopologically sort)
    {otherSort : CycleGraph → Option (List String)} (otherSorts : SortsTopologically otherSort)
    (wellFormed : graph.WellFormed) : graph.orderBy sort = graph.orderBy otherSort := by
  cases kind : graph.shape with
  | ring =>
      obtain ⟨first, rest, starts, distinct, whole, edges⟩ := exists_ring_from_head wellFormed kind
      rw [orderBy_of_ringEdges sorts wellFormed kind starts distinct whole edges,
        orderBy_of_ringEdges otherSorts wellFormed kind starts distinct whole edges]
  | line =>
      obtain ⟨first, middle, last, distinct, whole, edges⟩ :=
        exists_path_of_isLine wellFormed ((shape_eq_line_iff wellFormed).mp kind)
      rw [orderBy_of_lineEdges sorts wellFormed kind distinct whole edges,
        orderBy_of_lineEdges otherSorts wellFormed kind distinct whole edges]
  | malformed => rw [orderBy, orderBy, opened?, kind, Option.bind_none, Option.bind_none]

theorem orderBy_runs (sorts : SortsTopologically sort) (wellFormed : graph.WellFormed)
    {order : List String} (ordered : graph.orderBy sort = some order) :
    order.Nodup ∧ (∀ atom, atom ∈ order ↔ atom ∈ graph.atoms) ∧
      order.IsChain (fun source target => (source, target) ∈ graph.edges) ∧
      (graph.shape = .ring →
        ∃ first last, order.head? = some first ∧ order.getLast? = some last ∧
          (last, first) ∈ graph.edges ∧ graph.atoms.head? = some last) := by
  cases kind : graph.shape with
  | malformed =>
      rw [(orderBy_eq_none_iff sorts wellFormed).mpr kind] at ordered
      cases ordered
  | line =>
      obtain ⟨first, middle, last, distinct, whole, edges⟩ :=
        exists_path_of_isLine wellFormed ((shape_eq_line_iff wellFormed).mp kind)
      rw [orderBy_of_lineEdges sorts wellFormed kind distinct whole edges] at ordered
      cases ordered
      refine ⟨distinct, fun atom => (whole atom).symm, ?_, nofun⟩
      exact isChain_iff_lineEdges.mpr fun edge => (edges edge).mpr
  | ring =>
      obtain ⟨last, rest, starts, distinct, whole, edges⟩ := exists_ring_from_head wellFormed kind
      rw [orderBy_of_ringEdges sorts wellFormed kind starts distinct whole edges] at ordered
      cases ordered
      have turned : (rest ++ [last]).Perm (last :: rest) := List.perm_append_singleton last rest
      have mem_edges (source target : String) : (source, target) ∈ graph.edges ↔
          (source = last ∧ (rest ++ [last]).head? = some target) ∨
            (source, target) ∈ lineEdges (rest ++ [last]) := by
        rw [edges, ringEdges_cons]
        exact mem_lineEdges_cons
      refine ⟨turned.nodup_iff.mpr distinct,
        fun atom => turned.mem_iff.trans (whole atom).symm, ?_, fun _ => ?_⟩
      · exact isChain_iff_lineEdges.mpr fun edge inLine =>
          (mem_edges edge.1 edge.2).mpr (Or.inr inLine)
      · have entered := List.head?_eq_some_head (List.concat_ne_nil last rest)
        exact ⟨_, last, entered, List.getLast?_concat, (mem_edges last _).mpr (Or.inl ⟨rfl, entered⟩),
          starts⟩

section Congruence

variable {other : CycleGraph}

theorem orderBy_congr_of_line (sorts : SortsTopologically sort) (wellFormed : graph.WellFormed)
    (otherWellFormed : other.WellFormed) (line : graph.shape = .line)
    (otherLine : other.shape = .line) (same : ∀ edge, edge ∈ other.edges ↔ edge ∈ graph.edges) :
    other.orderBy sort = graph.orderBy sort := by
  obtain ⟨first, middle, last, distinct, whole, edges⟩ :=
    exists_path_of_isLine wellFormed ((shape_eq_line_iff wellFormed).mp line)
  have otherWhole (atom : String) : atom ∈ other.atoms ↔ atom ∈ first :: (middle ++ [last]) := by
    rw [← whole, wellFormed.mem_atoms, otherWellFormed.mem_atoms]
    simp only [same]
  rw [orderBy_of_lineEdges sorts wellFormed line distinct whole edges,
    orderBy_of_lineEdges sorts otherWellFormed otherLine distinct otherWhole
      (fun edge => (same edge).trans (edges edge))]

theorem orderBy_isRotated_of_ring (sorts : SortsTopologically sort)
    (wellFormed : graph.WellFormed) (otherWellFormed : other.WellFormed)
    (ring : graph.shape = .ring) (otherRing : other.shape = .ring)
    (same : ∀ edge, edge ∈ other.edges ↔ edge ∈ graph.edges) :
    ∃ order turned, graph.orderBy sort = some order ∧ other.orderBy sort = some turned ∧
      order.IsRotated turned := by
  obtain ⟨first, rest, starts, distinct, whole, edges⟩ := exists_ring_from_head wellFormed ring
  obtain ⟨entry, _, otherStarts, _⟩ := exists_ring_from_head otherWellFormed otherRing
  have otherWhole (atom : String) : atom ∈ other.atoms ↔ atom ∈ first :: rest := by
    rw [← whole, wellFormed.mem_atoms, otherWellFormed.mem_atoms]
    simp only [same]
  have inRing := (otherWhole entry).mp (List.mem_of_mem_head? otherStarts)
  obtain ⟨before, after, split⟩ := List.append_of_mem inRing
  rw [split] at otherWhole
  have turned : (before ++ entry :: after).Perm (entry :: (after ++ before)) :=
    List.perm_append_comm
  refine ⟨_, _, orderBy_of_ringEdges sorts wellFormed ring starts distinct whole edges,
    orderBy_of_ringEdges sorts otherWellFormed otherRing otherStarts
      (turned.nodup_iff.mp (split ▸ distinct)) (fun atom => (otherWhole atom).trans turned.mem_iff)
      (fun edge => ?_), ?_⟩
  · rw [same, edges, split, mem_ringEdges_append_comm, List.cons_append]
  · have opened : (first :: rest).IsRotated (rest ++ [first]) := ⟨1, by simp⟩
    have cut : (before ++ entry :: after).IsRotated (entry :: after ++ before) :=
      List.isRotated_append
    have openedToo : (entry :: after ++ before).IsRotated (after ++ before ++ [entry]) :=
      ⟨1, by simp⟩
    rw [split] at opened
    exact opened.symm.trans (cut.trans openedToo)

end Congruence

theorem order?_eq_none_iff (wellFormed : graph.WellFormed) :
    graph.order? = none ↔
      ¬IsRing (fun source target => (source, target) ∈ graph.edges) ∧
        ¬IsLine (fun source target => (source, target) ∈ graph.edges) := by
  rw [order?, orderBy_eq_none_iff sortsTopologically_topologicalOrder? wellFormed,
    ← shape_eq_ring_iff wellFormed, ← shape_eq_line_iff wellFormed]
  cases graph.shape <;> simp

/-! ### Edges that are added one after the other -/

theorem head?_addOnce {items : List String} (item : String) :
    (addOnce items item).head? = some (items.head?.getD item) := by
  unfold addOnce
  cases items with
  | nil => simp
  | cons first rest => split <;> rfl

theorem head?_atoms_ofEdges (edges : List (String × String)) :
    (ofEdges edges).atoms.head? = edges.head?.map Prod.fst := by
  induction edges using List.reverseRecOn with
  | nil => rfl
  | append_singleton edges edge ih =>
      rw [ofEdges_append_singleton, addEdge, head?_addOnce, head?_addOnce, ih]
      cases edges <;> rfl

theorem shape_ofEdges_congr {edges others : List (String × String)}
    (same : ∀ edge, edge ∈ others ↔ edge ∈ edges) :
    (ofEdges others).shape = (ofEdges edges).shape := by
  have ring : (ofEdges others).shape = .ring ↔ (ofEdges edges).shape = .ring := by
    simp only [shape_eq_ring_iff (wellFormed_ofEdges _), mem_edges_ofEdges, same]
  have line : (ofEdges others).shape = .line ↔ (ofEdges edges).shape = .line := by
    simp only [shape_eq_line_iff (wellFormed_ofEdges _), mem_edges_ofEdges, same]
  cases here : (ofEdges edges).shape <;> cases there : (ofEdges others).shape <;>
    simp_all

/-- The order of a graph lists its atoms along its edges, once each. A ring is entered behind the
atom that was added first. Any topological sort gives the same order, and the order in which
the edges were added shows only in where a ring is entered. -/
theorem orderBy_exact (sorts : SortsTopologically sort) (edges : List (String × String)) :
    ((ofEdges edges).orderBy sort = none ↔ (ofEdges edges).shape = .malformed) ∧
      (∀ order, (ofEdges edges).orderBy sort = some order →
        order.Nodup ∧
        (∀ atom, atom ∈ order ↔ ∃ edge ∈ edges, atom = edge.1 ∨ atom = edge.2) ∧
        order.IsChain (fun source target => (source, target) ∈ edges) ∧
        ((ofEdges edges).shape = .ring →
          ∃ first last, order.head? = some first ∧ order.getLast? = some last ∧
            (last, first) ∈ edges ∧ edges.head?.map Prod.fst = some last)) ∧
      (ofEdges edges).orderBy sort = (ofEdges edges).order? ∧
      ∀ others, (∀ edge, edge ∈ others ↔ edge ∈ edges) →
        (ofEdges others).shape = (ofEdges edges).shape ∧
        ((ofEdges edges).shape = .line →
          (ofEdges others).orderBy sort = (ofEdges edges).orderBy sort) ∧
        ((ofEdges edges).shape = .ring →
          ∃ order turned, (ofEdges edges).orderBy sort = some order ∧
            (ofEdges others).orderBy sort = some turned ∧ order.IsRotated turned) := by
  have wellFormed := wellFormed_ofEdges edges
  refine ⟨orderBy_eq_none_iff sorts wellFormed, fun order ordered => ?_, ?_, fun others same => ?_⟩
  · obtain ⟨distinct, whole, along, around⟩ := orderBy_runs sorts wellFormed ordered
    simp only [mem_edges_ofEdges, head?_atoms_ofEdges] at along around
    refine ⟨distinct, fun atom => ?_, along, around⟩
    simp only [whole, wellFormed.mem_atoms, mem_edges_ofEdges]
  · exact orderBy_congr_sort sorts sortsTopologically_topologicalOrder? wellFormed
  · have otherWellFormed := wellFormed_ofEdges others
    have alike := shape_ofEdges_congr same
    have sameEdges (edge : String × String) :
        edge ∈ (ofEdges others).edges ↔ edge ∈ (ofEdges edges).edges := by
      simp only [mem_edges_ofEdges, same]
    exact ⟨alike,
      fun line => orderBy_congr_of_line sorts wellFormed otherWellFormed line (alike.trans line)
        sameEdges,
      fun ring => orderBy_isRotated_of_ring sorts wellFormed otherWellFormed ring
        (alike.trans ring) sameEdges⟩

/-- A ring whose edges are added out of order, and the same ring entered at another atom. -/
theorem orderBy_exact_triangle :
    let edges := [("b", "c"), ("a", "b"), ("c", "a")]
    let others := [("a", "b"), ("b", "c"), ("c", "a"), ("a", "b")]
    SortsTopologically topologicalOrder? ∧
      (ofEdges edges).orderBy topologicalOrder? = some ["c", "a", "b"] ∧
      (ofEdges others).orderBy topologicalOrder? = some ["b", "c", "a"] ∧
      (∃ first last, ["c", "a", "b"].head? = some first ∧ ["c", "a", "b"].getLast? = some last ∧
        (last, first) ∈ edges ∧ edges.head?.map Prod.fst = some last) ∧
      ∃ order turned, (ofEdges edges).orderBy topologicalOrder? = some order ∧
        (ofEdges others).orderBy topologicalOrder? = some turned ∧ order.IsRotated turned := by
  intro edges others
  have ring : (ofEdges edges).shape = .ring := by decide +kernel
  have ordered : (ofEdges edges).orderBy topologicalOrder? = some ["c", "a", "b"] := by
    decide +kernel
  have same : ∀ edge, edge ∈ others ↔ edge ∈ edges := by
    intro edge
    simp only [edges, others, List.mem_cons, List.not_mem_nil]
    tauto
  obtain ⟨_, runs, _, independent⟩ := orderBy_exact sortsTopologically_topologicalOrder? edges
  obtain ⟨_, _, _, around⟩ := runs _ ordered
  obtain ⟨_, _, rotated⟩ := independent others same
  exact ⟨sortsTopologically_topologicalOrder?, ordered, by decide +kernel, around ring,
    rotated ring⟩

end RelationalLayout.CycleGraph
