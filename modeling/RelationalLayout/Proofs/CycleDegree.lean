/-
Components and degrees tell rings and lines from all other graphs.

Where at most one edge leads to an atom and at most one leads away from it, a longest path
can only be left by closing it to a ring. In a connected graph it therefore passes all atoms,
and the edges are those of the path, with or without the one that closes it.
-/

import Mathlib.Data.List.Pairwise
import Mathlib.Data.Nat.Find
import RelationalLayout.Proofs.CycleShape

namespace RelationalLayout.CycleGraph

variable {graph : CycleGraph}

/-! ### Components -/

/-- What holds of one atom and passes along edges in both directions holds of all atoms. -/
structure Connected (graph : CycleGraph) : Prop where
  inhabited : graph.atoms ≠ []
  spreads : ∀ inside : String → Prop, (∀ edge ∈ graph.edges, inside edge.1 ↔ inside edge.2) →
    ∀ atom ∈ graph.atoms, ∀ other ∈ graph.atoms, inside atom → inside other

/-- Components divide the atoms among them, and atoms are in one component exactly if edges
hold them together. -/
structure Divides (atoms : List String) (edges : List (String × String))
    (components : List (List String)) : Prop where
  mem_atoms : ∀ atom, atom ∈ atoms ↔ ∃ component ∈ components, atom ∈ component
  inhabited : ∀ component ∈ components, component ≠ []
  disjoint : components.Pairwise List.Disjoint
  closed : ∀ edge ∈ edges, ∀ component ∈ components, edge.1 ∈ component ↔ edge.2 ∈ component
  linked : ∀ inside : String → Prop, (∀ edge ∈ edges, inside edge.1 ↔ inside edge.2) →
    ∀ component ∈ components, ∀ atom ∈ component, ∀ other ∈ component,
      inside atom → inside other

theorem divides_singletons {atoms : List String} (distinct : atoms.Nodup) :
    Divides atoms [] (atoms.map (fun atom => [atom])) where
  mem_atoms := by simp
  inhabited := by simp
  disjoint := by
    refine List.Pairwise.map _ ?_ distinct
    intro atom other different
    exact List.disjoint_singleton.mpr (List.mem_singleton.not.mpr (Ne.symm different))
  closed := by simp
  linked := by
    intro inside _ component member atom inComponent other otherInComponent holds
    obtain ⟨single, _, rfl⟩ := List.mem_map.mp member
    rw [List.mem_singleton.mp inComponent] at holds
    rw [List.mem_singleton.mp otherInComponent]
    exact holds

theorem mem_touched {components : List (List String)} {edge : String × String} {atom : String} :
    atom ∈ (components.filter (fun component =>
        edge.1 ∈ component || edge.2 ∈ component)).flatten ↔
      ∃ component ∈ components, (edge.1 ∈ component ∨ edge.2 ∈ component) ∧ atom ∈ component := by
  simp only [List.mem_flatten, List.mem_filter, Bool.or_eq_true, decide_eq_true_eq, and_assoc]

theorem mem_connect {components : List (List String)} {edge : String × String}
    {component : List String} :
    component ∈ connect components edge ↔
      component = (components.filter (fun component =>
        edge.1 ∈ component || edge.2 ∈ component)).flatten ∨
      component ∈ components ∧ edge.1 ∉ component ∧ edge.2 ∉ component := by
  simp [connect]

section Connect

variable {atoms : List String} {edges : List (String × String)} {components : List (List String)}
  {edge : String × String}

theorem Divides.eq_of_mem (divides : Divides atoms edges components)
    {component other : List String} (member : component ∈ components)
    (otherMember : other ∈ components) {atom : String} (inside : atom ∈ component)
    (inOther : atom ∈ other) : component = other := by
  have symmetric : Std.Symm (@List.Disjoint String) := ⟨fun _ _ => List.disjoint_symm⟩
  by_contra different
  exact divides.disjoint.forall member otherMember different inside inOther

theorem Divides.mem_atoms_connect (divides : Divides atoms edges components) (atom : String) :
    atom ∈ atoms ↔ ∃ component ∈ connect components edge, atom ∈ component := by
  rw [divides.mem_atoms]
  constructor
  · intro given
    obtain ⟨component, member, inside⟩ := given
    by_cases touched : edge.1 ∈ component ∨ edge.2 ∈ component
    · exact ⟨_, mem_connect.mpr (Or.inl rfl), mem_touched.mpr ⟨component, member, touched, inside⟩⟩
    · exact ⟨component, mem_connect.mpr (Or.inr ⟨member, not_or.mp touched⟩), inside⟩
  · intro given
    obtain ⟨component, member, inside⟩ := given
    rcases mem_connect.mp member with rfl | ⟨earlier, _⟩
    · obtain ⟨part, isPart, _, inPart⟩ := mem_touched.mp inside
      exact ⟨part, isPart, inPart⟩
    · exact ⟨component, earlier, inside⟩

theorem Divides.linked_connect (divides : Divides atoms edges components)
    {inside : String → Prop} (closed : ∀ other ∈ edges, inside other.1 ↔ inside other.2)
    (passes : inside edge.1 ↔ inside edge.2) {component : List String}
    (member : component ∈ connect components edge) {atom other : String}
    (inComponent : atom ∈ component) (otherInComponent : other ∈ component) :
    inside atom → inside other := by
  rcases mem_connect.mp member with rfl | ⟨earlier, _⟩
  · -- All atoms of the new component are told by one end of the edge.
    have told {name : String} (touched : name ∈ (components.filter (fun component =>
        edge.1 ∈ component || edge.2 ∈ component)).flatten) : inside name ↔ inside edge.1 := by
      obtain ⟨part, isPart, hasEnd, inPart⟩ := mem_touched.mp touched
      have linked := divides.linked inside closed part isPart
      rcases hasEnd with hasSource | hasTarget
      · exact ⟨linked name inPart edge.1 hasSource, linked edge.1 hasSource name inPart⟩
      · exact Iff.trans ⟨linked name inPart edge.2 hasTarget, linked edge.2 hasTarget name inPart⟩
          passes.symm
    exact ((told inComponent).trans (told otherInComponent).symm).mp
  · exact divides.linked inside closed component earlier atom inComponent other otherInComponent

theorem divides_connect (divides : Divides atoms edges components) (sourceIsAtom : edge.1 ∈ atoms)
    (targetIsAtom : edge.2 ∈ atoms) :
    Divides atoms (edges ++ [edge]) (connect components edge) where
  mem_atoms := divides.mem_atoms_connect
  inhabited := by
    intro component member
    rcases mem_connect.mp member with rfl | ⟨earlier, _⟩
    · obtain ⟨part, isPart, inPart⟩ := (divides.mem_atoms edge.1).mp sourceIsAtom
      exact List.ne_nil_of_mem (mem_touched.mpr ⟨part, isPart, Or.inl inPart, inPart⟩)
    · exact divides.inhabited component earlier
  disjoint := by
    refine List.pairwise_cons.mpr ⟨?_, divides.disjoint.sublist List.filter_sublist⟩
    intro other otherMember atom inNew inOther
    obtain ⟨part, isPart, touched, inPart⟩ := mem_touched.mp inNew
    obtain ⟨earlier, untouched⟩ := List.mem_filter.mp otherMember
    rw [divides.eq_of_mem earlier isPart inOther inPart] at untouched
    simp only [Bool.not_eq_true', Bool.or_eq_false_iff, decide_eq_false_iff_not] at untouched
    exact touched.elim untouched.1 untouched.2
  closed := by
    intro other given component member
    rcases mem_connect.mp member with rfl | ⟨earlier, noSource, noTarget⟩
    · rcases List.mem_append.mp given with known | new
      · simp only [mem_touched]
        apply exists_congr
        intro part
        apply and_congr_right
        intro isPart
        rw [divides.closed other known part isPart]
      · rw [List.mem_singleton.mp new]
        obtain ⟨first, isFirst, inFirst⟩ := (divides.mem_atoms edge.1).mp sourceIsAtom
        obtain ⟨second, isSecond, inSecond⟩ := (divides.mem_atoms edge.2).mp targetIsAtom
        exact iff_of_true (mem_touched.mpr ⟨first, isFirst, Or.inl inFirst, inFirst⟩)
          (mem_touched.mpr ⟨second, isSecond, Or.inr inSecond, inSecond⟩)
    · rcases List.mem_append.mp given with known | new
      · exact divides.closed other known component earlier
      · rw [List.mem_singleton.mp new]
        exact iff_of_false noSource noTarget
  linked := by
    intro inside closed component member atom inComponent other otherInComponent
    obtain ⟨known, new⟩ := List.forall_mem_append.mp closed
    exact divides.linked_connect known (new edge (List.mem_singleton_self edge)) member
      inComponent otherInComponent

theorem divides_foldl_connect {earlier later : List (String × String)}
    (divides : Divides atoms earlier components)
    (within : ∀ edge ∈ later, edge.1 ∈ atoms ∧ edge.2 ∈ atoms) :
    Divides atoms (earlier ++ later) (later.foldl connect components) := by
  induction later generalizing earlier components with
  | nil =>
      rw [List.append_nil]
      exact divides
  | cons edge later ih =>
      obtain ⟨⟨sourceIsAtom, targetIsAtom⟩, rest⟩ := List.forall_mem_cons.mp within
      have connected := ih (divides_connect divides sourceIsAtom targetIsAtom) rest
      rw [List.append_assoc, List.singleton_append] at connected
      exact connected

end Connect

theorem WellFormed.ends_mem_atoms (wellFormed : graph.WellFormed) :
    ∀ edge ∈ graph.edges, edge.1 ∈ graph.atoms ∧ edge.2 ∈ graph.atoms := by
  intro edge member
  exact ⟨(wellFormed.mem_atoms edge.1).mpr ⟨edge, member, Or.inl rfl⟩,
    (wellFormed.mem_atoms edge.2).mpr ⟨edge, member, Or.inr rfl⟩⟩

theorem divides_components (wellFormed : graph.WellFormed) :
    Divides graph.atoms graph.edges graph.components :=
  divides_foldl_connect (divides_singletons wellFormed.atomsDistinct) wellFormed.ends_mem_atoms

theorem length_components_eq_one_iff (wellFormed : graph.WellFormed) :
    graph.components.length = 1 ↔ graph.Connected := by
  have divides := divides_components wellFormed
  constructor
  · intro single
    obtain ⟨component, listed⟩ := List.length_eq_one_iff.mp single
    rw [listed] at divides
    have inside {atom : String} : atom ∈ graph.atoms ↔ atom ∈ component := by
      simp only [divides.mem_atoms, List.mem_singleton, exists_eq_left]
    constructor
    · obtain ⟨atom, member⟩ := List.exists_mem_of_ne_nil component
        (divides.inhabited component (List.mem_singleton_self component))
      exact List.ne_nil_of_mem (inside.mpr member)
    · intro holds closed atom isAtom other otherIsAtom
      exact divides.linked holds closed component (List.mem_singleton_self component) atom
        (inside.mp isAtom) other (inside.mp otherIsAtom)
  · intro connected
    obtain ⟨atom, isAtom⟩ := List.exists_mem_of_ne_nil _ connected.inhabited
    obtain ⟨component, member, inComponent⟩ := (divides.mem_atoms atom).mp isAtom
    cases listed : graph.components with
    | nil =>
        rw [listed] at member
        cases member
    | cons first rest =>
        cases rest with
        | nil => rfl
        | cons second rest =>
            -- The atoms of the first component are closed under edges, so they are all atoms.
            exfalso
            rw [listed] at divides
            have isFirst : first ∈ first :: second :: rest := List.mem_cons_self
            have isSecond : second ∈ first :: second :: rest :=
              List.mem_cons_of_mem first List.mem_cons_self
            obtain ⟨left, inFirst⟩ := List.exists_mem_of_ne_nil _ (divides.inhabited first isFirst)
            obtain ⟨right, inSecond⟩ :=
              List.exists_mem_of_ne_nil _ (divides.inhabited second isSecond)
            have alsoInFirst : right ∈ first :=
              connected.spreads (· ∈ first)
                (fun edge given => divides.closed edge given first isFirst)
                left ((divides.mem_atoms left).mpr ⟨first, isFirst, inFirst⟩)
                right ((divides.mem_atoms right).mpr ⟨second, isSecond, inSecond⟩) inFirst
            exact (List.pairwise_cons.mp divides.disjoint).1 second List.mem_cons_self
              alsoInFirst inSecond

/-! ### Paths -/

structure IsPath (graph : CycleGraph) (path : List String) : Prop where
  inhabited : path ≠ []
  inside : ∀ atom ∈ path, atom ∈ graph.atoms
  distinct : path.Nodup
  leads : ∀ edge ∈ lineEdges path, edge ∈ graph.edges

theorem IsPath.length_le {path : List String} (isPath : graph.IsPath path) :
    path.length ≤ graph.atoms.length :=
  (List.subperm_of_subset isPath.distinct isPath.inside).length_le

theorem exists_longest_path (inhabited : graph.atoms ≠ []) :
    ∃ path, graph.IsPath path ∧ ∀ other, graph.IsPath other → other.length ≤ path.length := by
  classical
  obtain ⟨atom, isAtom⟩ := List.exists_mem_of_ne_nil _ inhabited
  have single : graph.IsPath [atom] :=
    { inhabited := List.cons_ne_nil atom []
      inside := List.forall_mem_singleton.mpr isAtom
      distinct := List.nodup_singleton atom
      leads := List.forall_mem_nil _ }
  let length := Nat.findGreatest (fun length => ∃ path, graph.IsPath path ∧ path.length = length)
    graph.atoms.length
  have reached : ∃ path, graph.IsPath path ∧ path.length = length :=
    Nat.findGreatest_spec (P := fun length => ∃ path, graph.IsPath path ∧ path.length = length)
      single.length_le ⟨[atom], single, rfl⟩
  obtain ⟨path, isPath, sameLength⟩ := reached
  refine ⟨path, isPath, ?_⟩
  intro other otherIsPath
  rw [sameLength]
  exact Nat.le_findGreatest otherIsPath.length_le ⟨other, otherIsPath, rfl⟩

section Degrees

variable {path : List String}

theorem eq_of_mem_of_sources (sources : (graph.edges.map Prod.fst).Nodup)
    {source target other : String} (leads : (source, target) ∈ graph.edges)
    (alsoLeads : (source, other) ∈ graph.edges) : target = other :=
  congrArg Prod.snd (List.inj_on_of_nodup_map sources leads alsoLeads rfl)

theorem eq_of_mem_of_targets (targets : (graph.edges.map Prod.snd).Nodup)
    {source other target : String} (leads : (source, target) ∈ graph.edges)
    (alsoLeads : (other, target) ∈ graph.edges) : source = other :=
  congrArg Prod.fst (List.inj_on_of_nodup_map targets leads alsoLeads rfl)

theorem IsPath.concat (isPath : graph.IsPath path) {source target : String}
    (leads : (source, target) ∈ graph.edges) (isAtom : target ∈ graph.atoms)
    (ending : path.getLast? = some source) (fresh : target ∉ path) :
    graph.IsPath (path ++ [target]) where
  inhabited := List.append_ne_nil_of_left_ne_nil isPath.inhabited _
  inside := List.forall_mem_append.mpr ⟨isPath.inside, List.forall_mem_singleton.mpr isAtom⟩
  distinct := by
    rw [← List.concat_eq_append]
    exact isPath.distinct.concat fresh
  leads := by
    intro edge member
    rcases mem_lineEdges_concat.mp member with inPath | ⟨last, new⟩
    · exact isPath.leads edge inPath
    · rw [ending, Option.some_inj] at last
      rw [← new, last] at leads
      exact leads

theorem IsPath.cons (isPath : graph.IsPath path) {source target : String}
    (leads : (source, target) ∈ graph.edges) (isAtom : source ∈ graph.atoms)
    (beginning : path.head? = some target) (fresh : source ∉ path) :
    graph.IsPath (source :: path) where
  inhabited := List.cons_ne_nil source path
  inside := List.forall_mem_cons.mpr ⟨isAtom, isPath.inside⟩
  distinct := List.nodup_cons.mpr ⟨fresh, isPath.distinct⟩
  leads := by
    intro edge member
    rcases mem_lineEdges_cons.mp member with ⟨new, first⟩ | inPath
    · rw [beginning, Option.some_inj] at first
      rw [← new, first] at leads
      exact leads
    · exact isPath.leads edge inPath

/-- A path that cannot be made longer is left by no edge but the one that closes it. -/
theorem mem_ringEdges_of_longest (wellFormed : graph.WellFormed)
    (sources : (graph.edges.map Prod.fst).Nodup) (targets : (graph.edges.map Prod.snd).Nodup)
    (isPath : graph.IsPath path)
    (longest : ∀ other, graph.IsPath other → other.length ≤ path.length)
    {source target : String} (leads : (source, target) ∈ graph.edges)
    (touches : source ∈ path ∨ target ∈ path) : (source, target) ∈ ringEdges path := by
  rw [mem_ringEdges_iff_lineEdges]
  obtain ⟨sourceIsAtom, targetIsAtom⟩ := wellFormed.ends_mem_atoms _ leads
  by_cases earlier : source ∈ path.dropLast
  · -- The path goes on from the source, and it can only go on to the target.
    rw [← map_fst_lineEdges] at earlier
    obtain ⟨⟨_, next⟩, inPath, rfl⟩ := List.mem_map.mp earlier
    rw [eq_of_mem_of_sources sources leads (isPath.leads _ inPath)]
    exact Or.inl inPath
  by_cases later : target ∈ path.tail
  · rw [← map_snd_lineEdges] at later
    obtain ⟨⟨previous, _⟩, inPath, rfl⟩ := List.mem_map.mp later
    rw [eq_of_mem_of_targets targets leads (isPath.leads _ inPath)]
    exact Or.inl inPath
  right
  have atEnd (inside : source ∈ path) : path.getLast? = some source := by
    rw [← List.dropLast_append_getLast isPath.inhabited] at inside
    rw [List.getLast?_eq_some_getLast isPath.inhabited,
      List.mem_singleton.mp ((List.mem_append.mp inside).resolve_left earlier)]
  have atStart (inside : target ∈ path) : path.head? = some target := by
    rw [← List.cons_head_tail isPath.inhabited] at inside
    rw [List.head?_eq_some_head isPath.inhabited,
      (List.mem_cons.mp inside).resolve_right later]
  by_cases hasSource : source ∈ path
  · by_cases hasTarget : target ∈ path
    · exact ⟨atEnd hasSource, atStart hasTarget⟩
    · -- The path could go on to the target.
      have bound := longest _ (isPath.concat leads targetIsAtom (atEnd hasSource) hasTarget)
      rw [List.length_append, List.length_singleton] at bound
      omega
  · have hasTarget := touches.resolve_left hasSource
    have bound := longest _ (isPath.cons leads sourceIsAtom (atStart hasTarget) hasSource)
    rw [List.length_cons] at bound
    omega

/-- A connected graph in which at most one edge leads to an atom and at most one away from it has
the edges of one path, with or without the edge that closes it. -/
theorem exists_path_of_connected (wellFormed : graph.WellFormed) (connected : graph.Connected)
    (sources : (graph.edges.map Prod.fst).Nodup) (targets : (graph.edges.map Prod.snd).Nodup) :
    ∃ path, path ≠ [] ∧ path.Nodup ∧ (∀ atom, atom ∈ graph.atoms ↔ atom ∈ path) ∧
      ((∀ edge, edge ∈ graph.edges ↔ edge ∈ ringEdges path) ∨
        ∀ edge, edge ∈ graph.edges ↔ edge ∈ lineEdges path) := by
  obtain ⟨path, isPath, longest⟩ := exists_longest_path connected.inhabited
  have touched {edge : String × String} (leads : edge ∈ graph.edges) :=
    mem_ringEdges_of_longest wellFormed sources targets isPath longest leads
  have closed : ∀ edge ∈ graph.edges, edge.1 ∈ path ↔ edge.2 ∈ path := by
    intro edge leads
    constructor
    · intro inside
      exact mem_iff_of_ringEdges.mp ⟨edge, touched leads (Or.inl inside), Or.inr rfl⟩
    · intro inside
      exact mem_iff_of_ringEdges.mp ⟨edge, touched leads (Or.inr inside), Or.inl rfl⟩
  obtain ⟨first, isFirst⟩ := List.exists_mem_of_ne_nil _ isPath.inhabited
  have whole (atom : String) : atom ∈ graph.atoms ↔ atom ∈ path := by
    refine ⟨fun isAtom => ?_, isPath.inside atom⟩
    exact connected.spreads (· ∈ path) closed first (isPath.inside first isFirst) atom isAtom isFirst
  have inRing {edge : String × String} (leads : edge ∈ graph.edges) : edge ∈ ringEdges path :=
    touched leads (Or.inl ((whole edge.1).mp (wellFormed.ends_mem_atoms edge leads).1))
  refine ⟨path, isPath.inhabited, isPath.distinct, whole, ?_⟩
  by_cases ring : ∀ edge ∈ ringEdges path, edge ∈ graph.edges
  · exact Or.inl fun edge => ⟨inRing, ring edge⟩
  · -- The one edge of the ring that is missing is the closing one.
    refine Or.inr fun edge => ⟨fun leads => ?_, isPath.leads edge⟩
    by_contra notInPath
    refine ring fun other inRingToo => ?_
    have closing := (mem_ringEdges_iff_lineEdges.mp (inRing leads)).resolve_left notInPath
    rcases mem_ringEdges_iff_lineEdges.mp inRingToo with inPath | closingToo
    · exact isPath.leads other inPath
    · have same : other = edge :=
        Prod.ext (Option.some.inj (closingToo.1.symm.trans closing.1))
          (Option.some.inj (closingToo.2.symm.trans closing.2))
      rw [same]
      exact leads

end Degrees

/-! ### Shapes -/

theorem degrees_of_mem_iff (wellFormed : graph.WellFormed) {edges : List (String × String)}
    (distinct : edges.Nodup) (same : ∀ edge, edge ∈ graph.edges ↔ edge ∈ edges) (atom : String) :
    graph.degrees atom = ((edges.map Prod.snd).count atom, (edges.map Prod.fst).count atom) := by
  have permuted := (List.perm_ext_iff_of_nodup wellFormed.edgesDistinct distinct).mpr same
  rw [degrees, (permuted.map Prod.snd).count_eq, (permuted.map Prod.fst).count_eq]

section Kinds

variable {path : List String}

theorem degrees_of_ring (wellFormed : graph.WellFormed) (distinct : path.Nodup)
    (edges : ∀ edge, edge ∈ graph.edges ↔ edge ∈ ringEdges path) {atom : String}
    (inside : atom ∈ path) : graph.degrees atom = (1, 1) := by
  rw [degrees_of_mem_iff wellFormed (nodup_ringEdges distinct) edges, map_fst_ringEdges,
    map_snd_ringEdges, List.count_eq_one_of_mem distinct inside,
    List.count_eq_one_of_mem (List.nodup_rotate.mpr distinct) (List.mem_rotate.mpr inside)]

theorem degrees_of_line (wellFormed : graph.WellFormed) (distinct : path.Nodup)
    (edges : ∀ edge, edge ∈ graph.edges ↔ edge ∈ lineEdges path) (atom : String) :
    graph.degrees atom = (path.tail.count atom, path.dropLast.count atom) := by
  rw [degrees_of_mem_iff wellFormed (nodup_lineEdges distinct) edges, map_fst_lineEdges,
    map_snd_lineEdges]

theorem iff_of_lineEdges {inside : String → Prop}
    (closed : ∀ edge ∈ lineEdges path, inside edge.1 ↔ inside edge.2) :
    ∀ atom ∈ path, ∀ other ∈ path, inside atom ↔ inside other := by
  induction path with
  | nil =>
      intro atom impossible
      cases impossible
  | cons first rest ih =>
      have all : ∀ atom ∈ first :: rest, inside atom ↔ inside first := by
        cases rest with
        | nil =>
            intro atom member
            rw [List.mem_singleton.mp member]
        | cons next rest =>
            obtain ⟨passes, later⟩ := List.forall_mem_cons.mp closed
            intro atom member
            rcases List.mem_cons.mp member with rfl | inRest
            · rfl
            · exact (ih later atom inRest next List.mem_cons_self).trans passes.symm
      intro atom member other otherMember
      exact (all atom member).trans (all other otherMember).symm

theorem connected_of_lineEdges (inhabited : graph.atoms ≠ [])
    (whole : ∀ atom, atom ∈ graph.atoms ↔ atom ∈ path)
    (leads : ∀ edge ∈ lineEdges path, edge ∈ graph.edges) : graph.Connected where
  inhabited := inhabited
  spreads := by
    intro inside closed atom isAtom other otherIsAtom
    have along : ∀ edge ∈ lineEdges path, inside edge.1 ↔ inside edge.2 :=
      fun edge inLine => closed edge (leads edge inLine)
    exact (iff_of_lineEdges along atom ((whole atom).mp isAtom) other
      ((whole other).mp otherIsAtom)).mp

end Kinds

theorem connected_of_shape (wellFormed : graph.WellFormed) (placeable : graph.shape ≠ .malformed) :
    graph.Connected := by
  by_contra apart
  rw [shape] at placeable
  exact placeable
    (if_pos (Or.inr fun single => apart ((length_components_eq_one_iff wellFormed).mp single)))

/-- The shape of a connected graph is decided by degrees alone. -/
theorem shape_of_connected (wellFormed : graph.WellFormed) (connected : graph.Connected) :
    graph.shape =
      if ∀ atom ∈ graph.atoms, graph.degrees atom = (1, 1) then .ring
      else if (∀ atom ∈ graph.atoms, graph.degrees atom ∈ [(1, 1), (0, 1), (1, 0)]) ∧
          (graph.atoms.map graph.degrees).count (0, 1) = 1 ∧
          (graph.atoms.map graph.degrees).count (1, 0) = 1 then .line
      else .malformed := by
  have single := (length_components_eq_one_iff wellFormed).mpr connected
  rw [shape, if_neg (not_or.mpr ⟨connected.inhabited, not_not.mpr single⟩)]
  simp only [List.forall_mem_map, ite_and]

theorem nodup_sources (wellFormed : graph.WellFormed)
    (few : ∀ atom ∈ graph.atoms, (graph.degrees atom).2 ≤ 1) :
    (graph.edges.map Prod.fst).Nodup := by
  apply List.nodup_iff_count_le_one.mpr
  intro atom
  by_cases leads : atom ∈ graph.edges.map Prod.fst
  · obtain ⟨edge, member, rfl⟩ := List.mem_map.mp leads
    exact few edge.1 (wellFormed.ends_mem_atoms edge member).1
  · rw [List.count_eq_zero_of_not_mem leads]
    exact Nat.zero_le 1

theorem nodup_targets (wellFormed : graph.WellFormed)
    (few : ∀ atom ∈ graph.atoms, (graph.degrees atom).1 ≤ 1) :
    (graph.edges.map Prod.snd).Nodup := by
  apply List.nodup_iff_count_le_one.mpr
  intro atom
  by_cases led : atom ∈ graph.edges.map Prod.snd
  · obtain ⟨edge, member, rfl⟩ := List.mem_map.mp led
    exact few edge.2 (wellFormed.ends_mem_atoms edge member).2
  · rw [List.count_eq_zero_of_not_mem led]
    exact Nat.zero_le 1

theorem exists_path_of_isRing (wellFormed : graph.WellFormed)
    (ring : IsRing (fun source target => (source, target) ∈ graph.edges)) :
    ∃ path, path ≠ [] ∧ path.Nodup ∧ (∀ atom, atom ∈ graph.atoms ↔ atom ∈ path) ∧
      ∀ edge, edge ∈ graph.edges ↔ edge ∈ ringEdges path := by
  obtain ⟨path, inhabited, distinct, leads⟩ := ring
  have edges (edge : String × String) : edge ∈ graph.edges ↔ edge ∈ ringEdges path :=
    (leads edge.1 edge.2).trans mem_ringEdges_iff.symm
  refine ⟨path, inhabited, distinct, fun atom => ?_, edges⟩
  simp only [wellFormed.mem_atoms, edges, mem_iff_of_ringEdges]

theorem exists_path_of_isLine (wellFormed : graph.WellFormed)
    (line : IsLine (fun source target => (source, target) ∈ graph.edges)) :
    ∃ first middle last, (first :: (middle ++ [last])).Nodup ∧
      (∀ atom, atom ∈ graph.atoms ↔ atom ∈ first :: (middle ++ [last])) ∧
      ∀ edge, edge ∈ graph.edges ↔ edge ∈ lineEdges (first :: (middle ++ [last])) := by
  obtain ⟨path, several, distinct, leads⟩ := line
  have edges (edge : String × String) : edge ∈ graph.edges ↔ edge ∈ lineEdges path :=
    (leads edge.1 edge.2).trans mem_lineEdges_iff.symm
  have whole (atom : String) : atom ∈ graph.atoms ↔ atom ∈ path := by
    simp only [wellFormed.mem_atoms, edges, mem_iff_of_lineEdges several]
  match path, several with
  | first :: next :: rest, _ =>
      have ending := List.dropLast_append_getLast (List.cons_ne_nil next rest)
      refine ⟨first, (next :: rest).dropLast, (next :: rest).getLast (List.cons_ne_nil next rest),
        ?_⟩
      rw [ending]
      exact ⟨distinct, whole, edges⟩

theorem isRing_of_shape (wellFormed : graph.WellFormed) (isRing : graph.shape = .ring) :
    IsRing (fun source target => (source, target) ∈ graph.edges) := by
  have connected := connected_of_shape wellFormed (by simp [isRing])
  rw [shape_of_connected wellFormed connected] at isRing
  by_cases through : ∀ atom ∈ graph.atoms, graph.degrees atom = (1, 1)
  · have sources := nodup_sources wellFormed
      (fun atom isAtom => Nat.le_of_eq (congrArg Prod.snd (through atom isAtom)))
    have targets := nodup_targets wellFormed
      (fun atom isAtom => Nat.le_of_eq (congrArg Prod.fst (through atom isAtom)))
    obtain ⟨path, inhabited, distinct, whole, ring | line⟩ :=
      exists_path_of_connected wellFormed connected sources targets
    · exact ⟨path, inhabited, distinct, fun source target =>
        (ring (source, target)).trans mem_ringEdges_iff⟩
    · -- Nothing leads to the first atom of a line.
      match path, inhabited with
      | first :: rest, _ =>
          have degrees := through first ((whole first).mpr List.mem_cons_self)
          rw [degrees_of_line wellFormed distinct line, List.tail_cons,
            List.count_eq_zero_of_not_mem (List.nodup_cons.mp distinct).1] at degrees
          cases congrArg Prod.fst degrees
  · rw [if_neg through] at isRing
    split at isRing <;> cases isRing

theorem shape_of_isRing (wellFormed : graph.WellFormed)
    (isRing : IsRing (fun source target => (source, target) ∈ graph.edges)) :
    graph.shape = .ring := by
  obtain ⟨path, inhabited, distinct, whole, edges⟩ := exists_path_of_isRing wellFormed isRing
  have atoms : graph.atoms ≠ [] := by
    obtain ⟨atom, member⟩ := List.exists_mem_of_ne_nil path inhabited
    exact List.ne_nil_of_mem ((whole atom).mpr member)
  have connected := connected_of_lineEdges atoms whole
    (fun edge inLine => (edges edge).mpr (lineEdges_subset_ringEdges path inLine))
  rw [shape_of_connected wellFormed connected]
  exact if_pos fun atom isAtom =>
    degrees_of_ring wellFormed distinct edges ((whole atom).mp isAtom)

theorem shape_eq_ring_iff (wellFormed : graph.WellFormed) :
    graph.shape = .ring ↔ IsRing (fun source target => (source, target) ∈ graph.edges) :=
  ⟨isRing_of_shape wellFormed, shape_of_isRing wellFormed⟩

theorem degrees_along_line (wellFormed : graph.WellFormed) {first last : String}
    {middle : List String} (distinct : (first :: (middle ++ [last])).Nodup)
    (edges : ∀ edge, edge ∈ graph.edges ↔ edge ∈ lineEdges (first :: (middle ++ [last])))
    {atom : String} (inside : atom ∈ first :: (middle ++ [last])) :
    graph.degrees atom = (if atom = first then 0 else 1, if atom = last then 0 else 1) := by
  have led := distinct.tail
  rw [List.tail_cons] at led
  have leads : (first :: middle).Nodup := by
    rw [← List.cons_append, List.nodup_append] at distinct
    exact distinct.1
  have firstIsNew : first ∉ middle ++ [last] := (List.nodup_cons.mp distinct).1
  have lastIsNew : last ∉ first :: middle := by
    rw [← List.cons_append, List.nodup_append] at distinct
    exact fun member => distinct.2.2 last member last (List.mem_singleton_self last) rfl
  have dropped : (first :: (middle ++ [last])).dropLast = first :: middle := by
    rw [← List.cons_append, List.dropLast_concat]
  rw [degrees_of_line wellFormed distinct edges, List.tail_cons, dropped]
  congr 1
  · split
    · rename_i same
      rw [same]
      exact List.count_eq_zero_of_not_mem firstIsNew
    · rename_i different
      exact List.count_eq_one_of_mem led ((List.mem_cons.mp inside).resolve_left different)
  · split
    · rename_i same
      rw [same]
      exact List.count_eq_zero_of_not_mem lastIsNew
    · rename_i different
      rw [← List.cons_append, List.mem_append, List.mem_singleton] at inside
      exact List.count_eq_one_of_mem leads (inside.resolve_right different)

theorem count_map_eq_one {α β : Type} [DecidableEq α] [BEq β] [LawfulBEq β] {items : List α}
    (distinct : items.Nodup) {read : α → β} {item : α} (member : item ∈ items) {value : β}
    (only : ∀ other ∈ items, read other = value ↔ other = item) :
    (items.map read).count value = 1 := by
  rw [List.count_eq_countP, List.countP_map, ← List.count_eq_one_of_mem distinct member,
    List.count_eq_countP]
  apply List.countP_congr
  intro other isItem
  simp only [Function.comp_apply, beq_iff_eq]
  exact only other isItem

theorem isLine_of_shape (wellFormed : graph.WellFormed) (isLine : graph.shape = .line) :
    IsLine (fun source target => (source, target) ∈ graph.edges) := by
  have connected := connected_of_shape wellFormed (by simp [isLine])
  rw [shape_of_connected wellFormed connected] at isLine
  split at isLine
  · cases isLine
  rename_i ends
  split at isLine
  · rename_i counted
    obtain ⟨plain, _, _⟩ := counted
    have few : ∀ atom ∈ graph.atoms,
        (graph.degrees atom).1 ≤ 1 ∧ (graph.degrees atom).2 ≤ 1 := by
      intro atom isAtom
      have degrees := plain atom isAtom
      simp only [List.mem_cons, List.not_mem_nil, or_false] at degrees
      rcases degrees with through | source | sink
      · simp [through]
      · simp [source]
      · simp [sink]
    have sources := nodup_sources wellFormed (fun atom isAtom => (few atom isAtom).2)
    have targets := nodup_targets wellFormed (fun atom isAtom => (few atom isAtom).1)
    obtain ⟨path, inhabited, distinct, whole, ring | line⟩ :=
      exists_path_of_connected wellFormed connected sources targets
    · exact absurd (fun atom isAtom =>
        degrees_of_ring wellFormed distinct ring ((whole atom).mp isAtom)) ends
    · match path, inhabited with
      | [only], _ =>
          -- An atom without edges is no line.
          have degrees := plain only ((whole only).mpr List.mem_cons_self)
          rw [degrees_of_line wellFormed distinct line] at degrees
          simp at degrees
      | first :: next :: rest, _ =>
          refine ⟨first :: next :: rest, ?_, distinct, fun source target =>
            (line (source, target)).trans mem_lineEdges_iff⟩
          exact Nat.le_add_left 2 rest.length
  · cases isLine

theorem shape_of_isLine (wellFormed : graph.WellFormed)
    (isLine : IsLine (fun source target => (source, target) ∈ graph.edges)) :
    graph.shape = .line := by
  obtain ⟨first, middle, last, distinct, whole, edges⟩ := exists_path_of_isLine wellFormed isLine
  have firstIsAtom : first ∈ graph.atoms := (whole first).mpr List.mem_cons_self
  have lastIsAtom : last ∈ graph.atoms := (whole last).mpr (by simp)
  have apart : first ≠ last := by
    rintro rfl
    simp at distinct
  have degrees {atom : String} (isAtom : atom ∈ graph.atoms) :=
    degrees_along_line wellFormed distinct edges ((whole atom).mp isAtom)
  have connected := connected_of_lineEdges (List.ne_nil_of_mem firstIsAtom) whole
    (fun edge => (edges edge).mpr)
  rw [shape_of_connected wellFormed connected, if_neg, if_pos]
  · refine ⟨fun atom isAtom => ?_, ?_, ?_⟩
    · rw [degrees isAtom]
      by_cases isFirst : atom = first
      · simp [isFirst, apart]
      · by_cases isLast : atom = last <;> simp [isFirst, isLast, Ne.symm apart]
    · refine count_map_eq_one wellFormed.atomsDistinct firstIsAtom fun atom isAtom => ?_
      rw [degrees isAtom]
      by_cases isFirst : atom = first
      · simp [isFirst, apart]
      · simp [isFirst]
    · refine count_map_eq_one wellFormed.atomsDistinct lastIsAtom fun atom isAtom => ?_
      rw [degrees isAtom]
      by_cases isLast : atom = last
      · simp [isLast, Ne.symm apart]
      · simp [isLast]
  · intro through
    have atFirst := through first firstIsAtom
    rw [degrees firstIsAtom, if_pos rfl] at atFirst
    cases congrArg Prod.fst atFirst

theorem shape_eq_line_iff (wellFormed : graph.WellFormed) :
    graph.shape = .line ↔ IsLine (fun source target => (source, target) ∈ graph.edges) :=
  ⟨isLine_of_shape wellFormed, shape_of_isLine wellFormed⟩

/-! ### Edges that are added one after the other -/

/-- A graph is a ring or a line just when its edges are those of one ring or of one line through
atoms that are listed once; all other graphs are malformed. -/
theorem shape_ofEdges_exact (edges : List (String × String)) :
    ((ofEdges edges).shape = .ring ↔ IsRing (fun source target => (source, target) ∈ edges)) ∧
      ((ofEdges edges).shape = .line ↔ IsLine (fun source target => (source, target) ∈ edges)) ∧
      ((ofEdges edges).shape = .malformed ↔
        ¬IsRing (fun source target => (source, target) ∈ edges) ∧
          ¬IsLine (fun source target => (source, target) ∈ edges)) := by
  have wellFormed := wellFormed_ofEdges edges
  have ring := shape_eq_ring_iff wellFormed
  have line := shape_eq_line_iff wellFormed
  simp only [mem_edges_ofEdges] at ring line
  refine ⟨ring, line, ?_⟩
  rw [← ring, ← line]
  cases (ofEdges edges).shape <;> simp

end RelationalLayout.CycleGraph
