/-
Values are read back from the texts of their documents.

Each document is decoded as the value that it was made from, so all that its text has to
be is readable: not nested too deep, and with numbers that are read back one by one.
-/

import RelationalLayout.Document.Inference
import RelationalLayout.Document.Instance
import RelationalLayout.Proofs.Document.Rule

namespace RelationalLayout

/-! ### Schemas -/

theorem Predicate.reads_document (predicate : Predicate) :
    decode.Reads predicate.document predicate :=
  Decoder.reads_structured
    (.field (Decoder.reads_string _) (by simp) (.field (Decoder.reads_strings _) (by simp) .done))

theorem Schema.reads_document (schema : Schema) : decode.Reads schema.document schema := by
  have predicates := Decoder.reads_list fun predicate (_ : predicate ∈ schema.predicates) =>
    predicate.reads_document
  have hierarchy := Decoder.reads_list fun pair (_ : pair ∈ schema.hierarchy) =>
    Decoder.reads_pair (Decoder.reads_string pair.1) (Decoder.reads_string pair.2)
  exact Decoder.reads_structured
    (.field (Decoder.reads_strings _) (by simp)
      (.field predicates (by simp) (.field hierarchy (by simp) .done)))

/-! ### Instances -/

theorem Atom.reads_document (atom : Atom) : decode.Reads atom.document atom :=
  Decoder.reads_structured
    (.field (Decoder.reads_string _) (by simp) (.field (Decoder.reads_string _) (by simp) .done))

theorem Fact.reads_document (fact : Fact) : decode.Reads fact.document fact :=
  Decoder.reads_structured
    (.field (Decoder.reads_string _) (by simp) (.field (Decoder.reads_strings _) (by simp) .done))

theorem Instance.reads_document (world : Instance) : decode.Reads world.document world := by
  have atoms := Decoder.reads_list fun atom (_ : atom ∈ world.atoms) => atom.reads_document
  have facts := Decoder.reads_list fun fact (_ : fact ∈ world.facts) => fact.reads_document
  exact Decoder.reads_structured (.field atoms (by simp) (.field facts (by simp) .done))

/-! ### Diagrams and inferred rules -/

theorem Point.reads_document (point : Point Float) : decode.Reads point.document point :=
  Decoder.reads_structured
    (.field (Decoder.reads_number _) (by simp) (.field (Decoder.reads_number _) (by simp) .done))

theorem Diagram.reads_document (diagram : Diagram Float) :
    decode.Reads (document diagram) diagram :=
  Decoder.reads_map fun entry _ => entry.2.reads_document

theorem InferredRule.reads_document (inferred : InferredRule Float) :
    decode.Reads inferred.document inferred := by
  have footprints := Decoder.reads_list fun layout (_ : layout ∈ inferred.footprints) =>
    layout.reads_document
  exact Decoder.reads_structured
    (.field inferred.rule.reads_document (by simp)
      (.field (Decoder.reads_number _) (by simp) (.field footprints (by simp) .done)))

/-! ### Programs -/

theorem isJsonProgram_compact (program : Program) :
    isJsonProgram (Program.document program).compact = true := by
  rw [isJsonProgram, Json.compact, String.toList_ofList, Program.document, Json.compactText]
  rfl

theorem loadProgram_compact {program : Program} (portable : (Program.document program).Portable)
    (path : String) : loadProgram path (Program.document program).compact = .ok program := by
  rw [loadProgram, if_pos (isJsonProgram_compact program), loadDocument,
    program.reads_document.readDocument_eq portable]

/-! ### Ids -/

theorem Layout.exists_members_template (template : Template) :
    ∃ members, template.document = .object members ∧
      "cycleId" ∉ members.map Prod.fst ∧ "groupId" ∉ members.map Prod.fst := by
  cases template <;> exact ⟨_, rfl, by simp [LayoutNotation.writeTag]⟩

theorem Layout.exists_members_ground (layout : GroundLayout) :
    ∃ members, layout.document = .object members ∧ ∀ id, layout.tag? = some id →
      ("cycleId", .string id) ∈ members ∨ ("groupId", .string id) ∈ members := by
  cases layout <;> exact ⟨_, rfl, by simp [LayoutNotation.writeTag, Layout.tag?]⟩

/-! ### All values -/

/-- Whatever has a portable document is read back from its compact text: rules and programs,
templates, layouts over atoms, selectors, schemas, instances, diagrams and inferred rules. Ids are
written for layouts over atoms and for no templates. -/
theorem readDocument_compact :
    (∀ rule : Rule, rule.document.Portable →
      readDocument Rule.decode rule.document.compact = .ok rule) ∧
    (∀ program : Program, (Program.document program).Portable →
      readDocument Program.decode (Program.document program).compact = .ok program ∧
        ∀ path, loadProgram path (Program.document program).compact = .ok program) ∧
    (∀ template : Template, template.document.Portable →
      readDocument Layout.decode template.document.compact = .ok template) ∧
    (∀ layout : GroundLayout, layout.document.Portable →
      readDocument Layout.decode layout.document.compact = .ok layout) ∧
    (∀ selector : Selector, selector.document.Portable →
      readDocument Selector.decode selector.document.compact = .ok selector) ∧
    (∀ schema : Schema, schema.document.Portable →
      readDocument Schema.decode schema.document.compact = .ok schema) ∧
    (∀ world : Instance, world.document.Portable →
      readDocument Instance.decode world.document.compact = .ok world) ∧
    (∀ diagram : Diagram Float, (Diagram.document diagram).Portable →
      readDocument Diagram.decode (Diagram.document diagram).compact = .ok diagram) ∧
    (∀ inferred : InferredRule Float, inferred.document.Portable →
      readDocument InferredRule.decode inferred.document.compact = .ok inferred) ∧
    (∀ template : Template, ∃ members, template.document = .object members ∧
      "cycleId" ∉ members.map Prod.fst ∧ "groupId" ∉ members.map Prod.fst) ∧
    (∀ layout : GroundLayout, ∃ members, layout.document = .object members ∧
      ∀ id, layout.tag? = some id →
        ("cycleId", .string id) ∈ members ∨ ("groupId", .string id) ∈ members) := by
  refine ⟨fun rule => rule.reads_document.readDocument_eq, fun program portable => ⟨?_, ?_⟩,
    fun template => template.reads_document.readDocument_eq,
    fun layout => layout.reads_document.readDocument_eq,
    fun selector => selector.readsTagged_document.reads.readDocument_eq,
    fun schema => schema.reads_document.readDocument_eq,
    fun world => world.reads_document.readDocument_eq,
    fun diagram => (Diagram.reads_document diagram).readDocument_eq,
    fun inferred => inferred.reads_document.readDocument_eq,
    Layout.exists_members_template, Layout.exists_members_ground⟩
  · exact (Program.reads_document program).readDocument_eq portable
  · exact loadProgram_compact portable

/-- Names with quotes, backslashes and control characters, or without any letters, and numbers
that are small, large or not exact in binary. -/
theorem readDocument_compact_awkward :
    let rule : Rule :=
      { chain :=
          { first := .predicate "tag" ["", "a\\b", "say \"no\"\x01\n"]
            rest := [.signature "layout" "\x1f\x7fé", .predicate "selector" []] }
        terminal := .cyclic .clockwise "" "a\\b" () }
    let template : Template := .binary .directlyAbove (.atLeast 0.1) "" "\t"
    let layout : GroundLayout := .grouping "\r" "\"id\""
    let schema : Schema :=
      { signatures := ["", ""]
        predicates := [{ name := "\x08", signatures := ["", "\x0c"] }]
        hierarchy := [("", "/")] }
    let world : Instance :=
      { atoms := [{ name := "x,y]", signature := ":" }]
        facts := [{ predicate := "null", arguments := ["1e5", ""] }] }
    let diagram : Diagram Float :=
      .ofList [("b", { x := 1e300, y := -1e-7 }), ("", { x := 40, y := 12.5 })]
    let inferred : InferredRule Float :=
      { rule := rule, confidence := 0.1, footprints := [layout] }
    (rule.document.Portable ∧ readDocument Rule.decode rule.document.compact = .ok rule) ∧
      ((Program.document [rule, rule]).Portable ∧
        readDocument Program.decode (Program.document [rule, rule]).compact = .ok [rule, rule]) ∧
      (template.document.Portable ∧
        readDocument Layout.decode template.document.compact = .ok template) ∧
      (layout.document.Portable ∧ readDocument Layout.decode layout.document.compact = .ok layout) ∧
      (rule.chain.first.document.Portable ∧
        readDocument Selector.decode rule.chain.first.document.compact = .ok rule.chain.first) ∧
      (schema.document.Portable ∧ readDocument Schema.decode schema.document.compact = .ok schema) ∧
      (world.document.Portable ∧ readDocument Instance.decode world.document.compact = .ok world) ∧
      ((Diagram.document diagram).Portable ∧
        readDocument Diagram.decode (Diagram.document diagram).compact = .ok diagram) ∧
      (inferred.document.Portable ∧
        readDocument InferredRule.decode inferred.document.compact = .ok inferred) := by
  intro rule template layout schema world diagram inferred
  obtain ⟨rules, programs, templates, layouts, selectors, schemas, worlds, diagrams, inferredRules,
    _⟩ := readDocument_compact
  have ofRule : rule.document.Portable := by decide +kernel
  have ofProgram : (Program.document [rule, rule]).Portable := by decide +kernel
  have ofTemplate : template.document.Portable := by decide +kernel
  have ofLayout : layout.document.Portable := by decide +kernel
  have ofSelector : rule.chain.first.document.Portable := by decide +kernel
  have ofSchema : schema.document.Portable := by decide +kernel
  have ofWorld : world.document.Portable := by decide +kernel
  have ofDiagram : (Diagram.document diagram).Portable := by decide +kernel
  have ofInferred : inferred.document.Portable := by decide +kernel
  exact ⟨⟨ofRule, rules rule ofRule⟩, ⟨ofProgram, (programs _ ofProgram).1⟩,
    ⟨ofTemplate, templates template ofTemplate⟩, ⟨ofLayout, layouts layout ofLayout⟩,
    ⟨ofSelector, selectors _ ofSelector⟩, ⟨ofSchema, schemas schema ofSchema⟩,
    ⟨ofWorld, worlds world ofWorld⟩, ⟨ofDiagram, diagrams diagram ofDiagram⟩,
    ⟨ofInferred, inferredRules inferred ofInferred⟩⟩

end RelationalLayout
