/-
Programs are read from JSON with each distance read for itself.

The only numbers in the document of a program are the distances of its rules. So the document
with other numbers is that of the program with other distances, and since every finite number
is read as some number, every program of finite distances is read as a program.
-/

import RelationalLayout.Proofs.Document.RoundTrip
import RelationalLayout.Proofs.Json.Range
import RelationalLayout.Proofs.Text.Grammar

namespace RelationalLayout

/-! ### Other distances -/

def Separation.mapDistance (change : Float → Float) : Separation → Separation
  | .unspecified => .unspecified
  | .atLeast distance => .atLeast (change distance)
  | .exactly distance => .exactly (change distance)

def Layout.mapDistance {tag : Type} (change : Float → Float) : Layout tag → Layout tag
  | .unary option separation operand => .unary option (separation.mapDistance change) operand
  | .binary option separation first second =>
      .binary option (separation.mapDistance change) first second
  | other => other

def Rule.mapDistance (change : Float → Float) (rule : Rule) : Rule :=
  { rule with terminal := Layout.mapDistance change rule.terminal }

section Change

variable {change : Float → Float}

theorem Json.mapItems_eq_map (items : List Json) :
    mapItems change items = items.map (mapNumbers change) := by
  induction items with
  | nil => rfl
  | cons item rest ih => rw [mapItems, ih, List.map_cons]

theorem Json.mapNumbers_ofStrings (texts : List String) :
    (ofStrings texts).mapNumbers change = ofStrings texts := by
  rw [ofStrings, mapNumbers, mapItems_eq_map, List.map_map]
  rfl

theorem Selector.mapNumbers_document (selector : Selector) :
    selector.document.mapNumbers change = selector.document := by
  cases selector <;>
    simp [document, Json.mapNumbers, Json.mapMembers, Json.mapNumbers_ofStrings]

theorem Separation.mapNumbers_document (separation : Separation) :
    separation.document.mapNumbers change = (separation.mapDistance change).document := by
  cases separation <;> simp [document, mapDistance, Json.mapNumbers, Json.mapMembers]

theorem Template.mapNumbers_document (template : Template) :
    (Layout.document template).mapNumbers change =
      Layout.document (Layout.mapDistance change template) := by
  cases template <;>
    simp [Layout.document, Layout.mapDistance, Layout.operandDocument, LayoutNotation.writeTag,
      Json.mapNumbers, Json.mapMembers, Separation.mapNumbers_document]

theorem Rule.mapNumbers_nestedDocument (terminal : Json) (selectors : List Selector) :
    (nestedDocument terminal selectors).mapNumbers change =
      nestedDocument (terminal.mapNumbers change) selectors := by
  induction selectors with
  | nil => rfl
  | cons selector rest ih =>
      simp [nestedDocument, Json.mapNumbers, Json.mapMembers, selector.mapNumbers_document, ih]

theorem Rule.mapNumbers_document (rule : Rule) :
    rule.document.mapNumbers change = (rule.mapDistance change).document := by
  rw [document, mapNumbers_nestedDocument, Template.mapNumbers_document]
  rfl

theorem Program.mapNumbers_document (program : Program) :
    (Program.document program).mapNumbers change =
      Program.document (program.map (Rule.mapDistance change)) := by
  have rules : Json.mapNumbers change ∘ Rule.document = Rule.document ∘ Rule.mapDistance change :=
    funext fun rule => rule.mapNumbers_document
  rw [document, Json.mapNumbers, Json.mapItems_eq_map, List.map_map, rules, document, List.map_map]

theorem Separation.mapDistance_eq_self_iff (separation : Separation) :
    separation.mapDistance change = separation ↔
      ∀ distance ∈ separation.given?, change distance = distance := by
  cases separation <;> simp [mapDistance, given?]

theorem Rule.mapDistance_eq_self_iff (rule : Rule) :
    rule.mapDistance change = rule ↔
      ∀ distance ∈ Layout.givenDistance? rule.terminal, change distance = distance := by
  obtain ⟨chain, terminal⟩ := rule
  cases terminal with
  | unary option separation operand =>
      simpa [mapDistance, Layout.mapDistance, Layout.givenDistance?] using
        separation.mapDistance_eq_self_iff
  | binary option separation first second =>
      simpa [mapDistance, Layout.mapDistance, Layout.givenDistance?] using
        separation.mapDistance_eq_self_iff
  | _ => simp [mapDistance, Layout.mapDistance, Layout.givenDistance?]

end Change

/-! ### The numbers of a program -/

theorem Json.itemsNumbers_eq (items : List Json) : itemsNumbers items = items.flatMap numbers := by
  induction items with
  | nil => rfl
  | cons item rest ih => rw [itemsNumbers, ih, List.flatMap_cons]

theorem Selector.numbers_document (selector : Selector) : selector.document.numbers = [] := by
  cases selector <;>
    simp [document, Json.numbers, Json.membersNumbers, Json.ofStrings, Json.itemsNumbers_eq]

theorem Separation.numbers_document (separation : Separation) :
    separation.document.numbers = separation.given?.toList.map .number := by
  cases separation <;> simp [document, given?, Json.numbers, Json.membersNumbers]

theorem Template.numbers_document (template : Template) :
    (Layout.document template).numbers = (Layout.givenDistance? template).toList.map .number := by
  cases template <;>
    simp [Layout.document, Layout.givenDistance?, Layout.operandDocument, LayoutNotation.writeTag,
      Json.numbers, Json.membersNumbers, Separation.numbers_document]

theorem Rule.numbers_nestedDocument (terminal : Json) (selectors : List Selector) :
    (nestedDocument terminal selectors).numbers = terminal.numbers := by
  induction selectors with
  | nil => rfl
  | cons selector rest ih =>
      simp [nestedDocument, Json.numbers, Json.membersNumbers, selector.numbers_document, ih]

/-- The only numbers in the document of a program are the distances of its rules. -/
theorem Program.mem_numbers_document_iff {program : Program} {number : Json} :
    number ∈ (Program.document program).numbers ↔
      ∃ rule ∈ program, ∃ distance ∈ Layout.givenDistance? rule.terminal,
        number = .number distance := by
  have ofRule (rule : Rule) : number ∈ rule.document.numbers ↔
      ∃ distance ∈ Layout.givenDistance? rule.terminal, number = .number distance := by
    simp [Rule.document, Rule.numbers_nestedDocument, Template.numbers_document, eq_comm]
  rw [document, Json.numbers, Json.itemsNumbers_eq]
  simp [ofRule]

/-! ### Reading programs -/

def Rule.DistancesReadBack (rule : Rule) : Prop :=
  ∀ distance ∈ Layout.givenDistance? rule.terminal, (Json.number distance).ReadsBack

instance (rule : Rule) : Decidable rule.DistancesReadBack :=
  inferInstanceAs
    (Decidable (∀ distance ∈ Layout.givenDistance? rule.terminal, (Json.number distance).ReadsBack))

variable {program : Program}

theorem Program.readable_numbers (finite : ∀ rule ∈ program, rule.DistancesFinite) :
    ∀ number ∈ (Program.document program).numbers, number.Readable := by
  intro number member
  obtain ⟨rule, inProgram, distance, given, rfl⟩ := mem_numbers_document_iff.mp member
  obtain ⟨other, read⟩ := JsonNumber.exists_readDocument_number (finite rule inProgram distance given)
  exact Json.readable_of_read read

/-- The JSON text of a program is read as the program with its distances read one by one. -/
theorem Program.readDocument_reread (finite : ∀ rule ∈ program, rule.DistancesFinite)
    (nesting : (Program.document program).depth ≤ JsonReader.depthLimit) :
    readDocument decode (Program.document program).compact =
      .ok (program.map (Rule.mapDistance Json.reread)) := by
  have reads := Program.reads_document (program.map (Rule.mapDistance Json.reread))
  rw [← mapNumbers_document] at reads
  exact reads.readDocument_reread nesting (readable_numbers finite)

theorem Program.map_reread_eq_self_iff (finite : ∀ rule ∈ program, rule.DistancesFinite) :
    program.map (Rule.mapDistance Json.reread) = program ↔
      ∀ rule ∈ program, rule.DistancesReadBack := by
  have readable : ∀ rule ∈ program, ∀ distance ∈ Layout.givenDistance? rule.terminal,
      (Json.number distance).Readable := by
    intro rule inProgram distance given
    exact readable_numbers finite _ (mem_numbers_document_iff.mpr
      ⟨rule, inProgram, distance, given, rfl⟩)
  have fixed (rule : Rule) (inProgram : rule ∈ program) :
      rule.mapDistance Json.reread = rule ↔ rule.DistancesReadBack := by
    rw [rule.mapDistance_eq_self_iff]
    exact forall₂_congr fun distance given =>
      (Json.readsBack_iff (readable rule inProgram distance given)).symm
  constructor
  · intro same rule inProgram
    rw [← List.map_id program, List.map_map] at same
    exact (fixed rule inProgram).mp (List.map_inj_left.mp same rule inProgram)
  · intro readsBack
    refine (List.map_congr_left fun rule inProgram => ?_).trans (List.map_id program)
    exact (fixed rule inProgram).mpr (readsBack rule inProgram)

end RelationalLayout
