/-
Rules are decoded from their documents.

A choice writes its tag first and nothing else under that name, so its other members are
just those that are read back. What follows a selector is read as a rule first: this works
for what a rule is written as, and fails for what a template is written as, which has no
selector. So every rule of a chain is read back, by induction from the innermost one.
-/

import RelationalLayout.Document.Rule
import RelationalLayout.Proofs.Json.Decode

namespace RelationalLayout

/-! ### Choices -/

namespace Json

/-- A document starts with its tag, and the value is read from its other members by that tag. -/
def ReadsTagged {α : Type} (tags : List String) (read : String → Json → Option α)
    (document : Json) (value : α) : Prop :=
  ∃ name members, document = .object (("tag", .string name) :: members) ∧ name ∈ tags ∧
    "tag" ∉ members.map Prod.fst ∧ read name (.object members) = some value

variable {α : Type} {tags : List String} {read : String → Json → Option α} {document : Json}
  {value : α}

theorem ReadsTagged.reads (written : ReadsTagged tags read document value) :
    (Decoder.tagged tags read).Reads document value := by
  obtain ⟨name, members, rfl, known, untagged, found⟩ := written
  exact Decoder.reads_tagged known untagged found

theorem ReadsTagged.bind_tagged? (written : ReadsTagged tags read document value) :
    (document.tagged? tags).bind (fun (name, content) => read name content) = some value := by
  obtain ⟨name, members, rfl, known, untagged, found⟩ := written
  have none : members.filter (fun member => member.1 == "tag") = [] := by
    rw [List.filter_eq_nil_iff]
    intro member inMembers isTag
    exact untagged (List.mem_map.mpr ⟨member, inMembers, eq_of_beq isTag⟩)
  have all : members.filter (fun member => member.1 != "tag") = members := by
    rw [List.filter_eq_self]
    intro member inMembers
    rw [bne_iff_ne]
    intro isTag
    exact untagged (List.mem_map.mpr ⟨member, inMembers, isTag⟩)
  simp [tagged?, only?, none, all, tag?, known, found]

theorem strings?_ofStrings (texts : List String) : (ofStrings texts).strings? = some texts := by
  rw [ofStrings, strings?]
  induction texts with
  | nil => rfl
  | cons text texts ih => simp [List.mapM_cons, string?, ih]

end Json

theorem Selector.readsTagged_document (selector : Selector) :
    Json.ReadsTagged tags ofTagged? selector.document selector := by
  cases selector with
  | signature variableName signatureName =>
      refine ⟨_, _, rfl, by decide, by simp, ?_⟩
      simp [ofTagged?, Json.fields?, Json.only?, Json.string?]
  | predicate predicateName arguments =>
      refine ⟨_, _, rfl, by decide, by simp, ?_⟩
      simp [ofTagged?, Json.fields?, Json.only?, Json.string?, Json.strings?_ofStrings]

theorem Selector.ofDocument?_document (selector : Selector) :
    ofDocument? selector.document = some selector :=
  (readsTagged_document selector).bind_tagged?

theorem Separation.readsTagged_document (separation : Separation) :
    Json.ReadsTagged tags ofTagged? separation.document separation := by
  cases separation with
  | unspecified =>
      refine ⟨_, _, rfl, by decide, by decide, ?_⟩
      rfl
  | atLeast distance =>
      refine ⟨_, _, rfl, by decide, by simp, ?_⟩
      simp [ofTagged?, distance?, Json.fields?, Json.only?, Json.number?]
  | exactly distance =>
      refine ⟨_, _, rfl, by decide, by simp, ?_⟩
      simp [ofTagged?, distance?, Json.fields?, Json.only?, Json.number?]

theorem Separation.ofField?_document (separation : Separation) :
    ofField? (some separation.document) = some separation :=
  (readsTagged_document separation).bind_tagged?

/-! ### Layouts -/

theorem UnaryOption.named?_name (option : UnaryOption) :
    (Json.string option.name).named? all UnaryOption.name = some option := by
  cases option <;> decide

theorem BinaryOption.named?_name (option : BinaryOption) :
    (Json.string option.name).named? all BinaryOption.name = some option := by
  cases option <;> decide

theorem CyclicOption.named?_name (option : CyclicOption) :
    (Json.string option.name).named? all CyclicOption.name = some option := by
  cases option <;> decide

/-- A tag is read back from the member it is written as, or from its absence. -/
class LawfulNotation (tag : Type) [LayoutNotation tag] : Prop where
  readTag?_writeTag (key : String) (id : tag) :
    (LayoutNotation.writeTag key id = [] ∧ LayoutNotation.readTag? none = some id) ∨
      ∃ document, LayoutNotation.writeTag key id = [(key, document)] ∧
        LayoutNotation.readTag? (some document) = some id

instance : LawfulNotation Unit := ⟨fun _ _ => Or.inl ⟨rfl, rfl⟩⟩

instance : LawfulNotation String := ⟨fun _ _ => Or.inr ⟨_, rfl, rfl⟩⟩

namespace Layout

variable {tag : Type} [LayoutNotation tag]

theorem operand?_operandDocument (operand : String) :
    operand? (operandDocument tag operand) = some operand := by
  simp [operand?, operandDocument, Json.fields?, Json.only?, Json.string?]

theorem readsTagged_document [LawfulNotation tag] (layout : Layout tag) :
    Json.ReadsTagged tags ofTagged? layout.document layout := by
  cases layout with
  | unary option separation operand =>
      refine ⟨_, _, rfl, by decide, by simp, ?_⟩
      simp [ofTagged?, Json.fields?, Json.only?, option.named?_name,
        separation.ofField?_document, operand?_operandDocument]
  | binary option separation first second =>
      refine ⟨_, _, rfl, by decide, by simp, ?_⟩
      simp [ofTagged?, Json.fields?, Json.only?, option.named?_name,
        separation.ofField?_document, operand?_operandDocument]
  | cyclic option first second cycle =>
      refine ⟨_, _, rfl, by decide, ?_, ?_⟩
      all_goals
        rcases LawfulNotation.readTag?_writeTag "cycleId" cycle with
          ⟨absent, read⟩ | ⟨document, present, read⟩
      · simp [absent]
      · simp [present]
      · simp [ofTagged?, Json.fields?, Json.only?, option.named?_name, operand?_operandDocument,
          absent, read]
      · simp [ofTagged?, Json.fields?, Json.only?, option.named?_name, operand?_operandDocument,
          present, read]
  | grouping operand group =>
      refine ⟨_, _, rfl, by decide, ?_, ?_⟩
      all_goals
        rcases LawfulNotation.readTag?_writeTag "groupId" group with
          ⟨absent, read⟩ | ⟨document, present, read⟩
      · simp [absent]
      · simp [present]
      · simp [ofTagged?, Json.fields?, Json.only?, operand?_operandDocument, absent, read]
      · simp [ofTagged?, Json.fields?, Json.only?, operand?_operandDocument, present, read]

theorem reads_document [LawfulNotation tag] (layout : Layout tag) :
    decode.Reads layout.document layout :=
  (readsTagged_document layout).reads

theorem ofDocument?_document [LawfulNotation tag] (layout : Layout tag) :
    ofDocument? layout.document = some layout :=
  (readsTagged_document layout).bind_tagged?

end Layout

/-! ### Rules -/

theorem Rule.ofDocument?_eq {document selectorDocument body : Json} {selector : Selector}
    (parts : parts? document = some (selectorDocument, body))
    (found : Selector.ofDocument? selectorDocument = some selector) :
    ofDocument? document = (RuleBody.ofDocument? body).map (RuleBody.within selector) := by
  rw [ofDocument?.eq_def]
  split
  · rename_i none
    rw [parts] at none
    cases none
  · rename_i given
    cases parts.symm.trans given
    rw [found, RuleBody.ofDocument?]
    cases ofDocument? body with
    | some rule => rfl
    | none =>
        cases (Layout.ofDocument? body : Option Template) with
        | some template => rfl
        | none => rfl

theorem Rule.ofDocument?_template (template : Template) : ofDocument? template.document = none := by
  have noParts : parts? template.document = none := by
    cases template <;> simp [Layout.document, parts?, Json.only?, LayoutNotation.writeTag]
  rw [ofDocument?.eq_def]
  split
  · rfl
  · rename_i given
    rw [noParts] at given
    cases given

theorem RuleBody.exists_ofDocument? (terminal : Template) (selectors : List Selector) :
    ∃ body, RuleBody.ofDocument? (Rule.nestedDocument terminal.document selectors) = some body ∧
      ∀ first, body.within first =
        { chain := { first := first, rest := selectors }, terminal := terminal } := by
  induction selectors with
  | nil =>
      refine ⟨.terminal terminal, ?_, fun _ => rfl⟩
      rw [Rule.nestedDocument, RuleBody.ofDocument?, Rule.ofDocument?_template,
        Layout.ofDocument?_document]
      rfl
  | cons selector rest ih =>
      obtain ⟨body, inside, within⟩ := ih
      have parts : Rule.parts? (Rule.nestedDocument terminal.document (selector :: rest)) =
          some (selector.document, Rule.nestedDocument terminal.document rest) := by
        simp [Rule.nestedDocument, Rule.parts?, Json.only?]
      -- A selector with anything inside it is a rule, so reading does not get to the template.
      refine ⟨.nested (body.within selector), ?_, fun first => ?_⟩
      · rw [RuleBody.ofDocument?, Rule.ofDocument?_eq parts selector.ofDocument?_document, inside]
        rfl
      · rw [within selector]
        rfl

theorem Rule.reads_document (rule : Rule) : Rule.decode.Reads rule.document rule := by
  obtain ⟨body, inside, within⟩ := RuleBody.exists_ofDocument? rule.terminal rule.chain.rest
  have fields : Fields.Reads
      (.required "selector" Selector.decode
        (.required "layout" (Decoder.captured RuleBody.ofDocument?) .done))
      [("selector", rule.chain.first.document),
        ("layout", nestedDocument rule.terminal.document rule.chain.rest)]
      (rule.chain.first, body, ()) :=
    .field rule.chain.first.readsTagged_document.reads (by simp)
      (.field (Decoder.reads_captured inside) (by simp) .done)
  have built : body.within rule.chain.first = rule := within rule.chain.first
  intro written held
  rw [← built]
  exact Decoder.reads_structured_behind (by decide) _ fields written held

theorem Program.reads_document (program : Program) : Program.decode.Reads program.document program :=
  Decoder.reads_list fun rule _ => rule.reads_document

end RelationalLayout
