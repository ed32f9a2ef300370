/-
Layouts and rules as documents.

A choice is written with a tag, fields in a fixed order behind it. The cycle or
group id of a template is not written and is passed over when read; that of a
ground layout is always there. What follows the selector of a rule is first read
as a rule and then as a template.
-/

import RelationalLayout.Document.Field
import RelationalLayout.Rule

namespace RelationalLayout

/-! ### Selectors -/

namespace Selector

def tags : List String := ["SigSelector", "PredSelector"]

def ofTagged? (tag : String) (content : Json) : Option Selector :=
  if tag = "SigSelector" then
    match content.fields? ["varname", "sig"] with
    | some [some variableName, some signatureName] => do
        some (.signature (← variableName.string?) (← signatureName.string?))
    | _ => none
  else
    match content.fields? ["pred", "args"] with
    | some [some predicateName, some arguments] => do
        some (.predicate (← predicateName.string?) (← arguments.strings?))
    | _ => none

def ofDocument? (document : Json) : Option Selector := do
  let (tag, content) ← document.tagged? tags
  ofTagged? tag content

def decode : Decoder Selector := Decoder.tagged tags ofTagged?

def document : Selector → Json
  | .signature variableName signatureName =>
      .object [("tag", .string "SigSelector"), ("varname", .string variableName),
        ("sig", .string signatureName)]
  | .predicate predicateName arguments =>
      .object [("tag", .string "PredSelector"), ("pred", .string predicateName),
        ("args", Json.ofStrings arguments)]

end Selector

/-! ### Separations -/

namespace Separation

def tags : List String := ["NoneSpecified", "AtLeast", "Exact"]

def distance? (content : Json) : Option Float :=
  match content.fields? ["distance"] with
  | some [some distance] => distance.number?
  | _ => none

def ofTagged? (tag : String) (content : Json) : Option Separation :=
  if tag = "NoneSpecified" then
    match content with
    | .array (_ :: _) => none
    | _ => some .unspecified
  else if tag = "AtLeast" then
    (distance? content).map .atLeast
  else
    (distance? content).map .exactly

def ofDocument? (document : Json) : Option Separation := do
  let (tag, content) ← document.tagged? tags
  ofTagged? tag content

/-- A separation that is absent is unspecified. -/
def ofField? : Option Json → Option Separation
  | none => some .unspecified
  | some document => ofDocument? document

def decode : Decoder Separation := Decoder.tagged tags ofTagged?

def document : Separation → Json
  | .unspecified => .object [("tag", .string "NoneSpecified")]
  | .atLeast distance => .object [("tag", .string "AtLeast"), ("distance", .number distance)]
  | .exactly distance => .object [("tag", .string "Exact"), ("distance", .number distance)]

end Separation

/-! ### Layouts -/

class LayoutNotation (tag : Type) where
  operandTag : String
  readTag? : Option Json → Option tag
  /-- The member that a tag is written as, if it is. -/
  writeTag : String → tag → List (String × Json)

instance : LayoutNotation Unit where
  operandTag := "BoundAtom"
  readTag? _ := some ()
  writeTag _ _ := []

instance : LayoutNotation String where
  operandTag := "UnboundAtom"
  readTag?
    | some (.string id) => some id
    | _ => none
  writeTag key id := [(key, .string id)]

namespace Layout

variable {tag : Type} [LayoutNotation tag]

def tags : List String := ["UnaryLayout", "BinaryLayout", "CyclicLayout", "GroupingLayout"]

/-- The tag of an operand is not looked at. -/
def operand? (document : Json) : Option String :=
  match document.fields? ["name"] with
  | some [some name] => name.string?
  | _ => none

def ofTagged? (kind : String) (content : Json) : Option (Layout tag) :=
  if kind = "UnaryLayout" then
    match content.fields? ["option", "separation", "op"] with
    | some [some option, separation, some operand] => do
        some (.unary (← option.named? UnaryOption.all UnaryOption.name)
          (← Separation.ofField? separation) (← operand? operand))
    | _ => none
  else if kind = "BinaryLayout" then
    match content.fields? ["option", "separation", "op0", "op1"] with
    | some [some option, separation, some first, some second] => do
        some (.binary (← option.named? BinaryOption.all BinaryOption.name)
          (← Separation.ofField? separation) (← operand? first) (← operand? second))
    | _ => none
  else if kind = "CyclicLayout" then
    match content.fields? ["option", "op0", "op1", "cycleId"] with
    | some [some option, some first, some second, cycle] => do
        some (.cyclic (← option.named? CyclicOption.all CyclicOption.name)
          (← operand? first) (← operand? second) (← LayoutNotation.readTag? cycle))
    | _ => none
  else
    match content.fields? ["op", "groupId"] with
    | some [some operand, group] => do
        some (.grouping (← operand? operand) (← LayoutNotation.readTag? group))
    | _ => none

def ofDocument? (document : Json) : Option (Layout tag) := do
  let (kind, content) ← document.tagged? tags
  ofTagged? kind content

def decode : Decoder (Layout tag) := Decoder.tagged tags ofTagged?

def operandDocument (tag : Type) [LayoutNotation tag] (operand : String) : Json :=
  .object [("tag", .string (LayoutNotation.operandTag tag)), ("name", .string operand)]

def document (layout : Layout tag) : Json :=
  let operandOf := operandDocument tag
  match layout with
  | .unary option separation operand =>
      .object [("tag", .string "UnaryLayout"), ("option", .string option.name),
        ("separation", separation.document), ("op", operandOf operand)]
  | .binary option separation first second =>
      .object [("tag", .string "BinaryLayout"), ("option", .string option.name),
        ("separation", separation.document), ("op0", operandOf first), ("op1", operandOf second)]
  | .cyclic option first second cycle =>
      .object ([("tag", .string "CyclicLayout"), ("option", .string option.name),
        ("op0", operandOf first), ("op1", operandOf second)] ++
          LayoutNotation.writeTag "cycleId" cycle)
  | .grouping operand group =>
      .object ([("tag", .string "GroupingLayout"), ("op", operandOf operand)] ++
        LayoutNotation.writeTag "groupId" group)

end Layout

/-! ### Rules -/

inductive RuleBody where
  | nested (rule : Rule)
  | terminal (template : Template)
deriving DecidableEq

def RuleBody.within (selector : Selector) : RuleBody → Rule
  | .nested rule =>
      { rule with chain := { first := selector, rest := rule.selectors } }
  | .terminal template => { chain := { first := selector, rest := [] }, terminal := template }

namespace Rule

def parts? : Json → Option (Json × Json)
  | .object members =>
      match Json.only? "selector" members, Json.only? "layout" members with
      | some (some selector), some (some body) => some (selector, body)
      | _, _ => none
  | .array [selector, body] => some (selector, body)
  | _ => none

theorem sizeOf_member_lt {key : String} {value : Json} {members : List (String × Json)}
    (found : Json.only? key members = some (some value)) :
    sizeOf value < sizeOf (Json.object members) := by
  rw [Json.only?] at found
  split at found
  · cases found
  · rename_i member filtered
    cases found
    have inMembers : member ∈ members := by
      have inFiltered : member ∈ members.filter (fun member => member.1 == key) := by
        rw [filtered]
        exact List.mem_singleton_self member
      exact (List.mem_filter.mp inFiltered).1
    have inside := List.sizeOf_lt_of_mem inMembers
    have outside : sizeOf member.2 < sizeOf member := by
      cases member
      simp +arith
    simp only [Json.object.sizeOf_spec]
    omega
  · cases found

theorem sizeOf_body_lt {document selector body : Json}
    (found : parts? document = some (selector, body)) : sizeOf body < sizeOf document := by
  rw [parts?.eq_def] at found
  split at found
  · split at found
    · rename_i inside
      cases found
      exact sizeOf_member_lt inside
    · cases found
  · cases found
    simp +arith
  · cases found

def ofDocument? (document : Json) : Option Rule :=
  match found : parts? document with
  | none => none
  | some (selector, body) =>
      have _smaller : sizeOf body < sizeOf document := sizeOf_body_lt found
      match Selector.ofDocument? selector with
      | none => none
      | some selector =>
          match ofDocument? body with
          | some inner => some ((RuleBody.nested inner).within selector)
          | none =>
              (Layout.ofDocument? body).map (fun template =>
                (RuleBody.terminal template).within selector)
termination_by sizeOf document

end Rule

def RuleBody.ofDocument? (document : Json) : Option RuleBody :=
  match Rule.ofDocument? document with
  | some rule => some (.nested rule)
  | none => (Layout.ofDocument? document).map .terminal

namespace Rule

/-- The tag of a rule is not looked at. -/
def decode : Decoder Rule :=
  Decoder.structured
    (.required "selector" Selector.decode
      (.required "layout" (Decoder.captured RuleBody.ofDocument?) .done))
    (fun (selector, body, ()) => body.within selector)

def nestedDocument (terminal : Json) : List Selector → Json
  | [] => terminal
  | selector :: rest =>
      .object [("tag", .string "AbstractLayout"), ("selector", selector.document),
        ("layout", nestedDocument terminal rest)]

def document (rule : Rule) : Json :=
  nestedDocument (Layout.document rule.terminal) rule.selectors

end Rule

namespace Program

def decode : Decoder Program := Decoder.list Rule.decode

def document (program : Program) : Json := .array (List.map Rule.document program)

end Program

end RelationalLayout
