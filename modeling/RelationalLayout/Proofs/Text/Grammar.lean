/-
The written form of rules spells their tokens.

Names may hold any characters at all. The only numbers among the tokens are the
distances of separations, and those that are not finite have no numeral: a program
spells its tokens when its distances are finite.
-/

import RelationalLayout.Proofs.Text.Spelling
import RelationalLayout.Text.Grammar

namespace RelationalLayout

open Lexeme

variable {rest : List Char} {tokens : List Token}

/-! ### What names stand next to -/

theorem ends_space (rest : List Char) : Ends (' ' :: rest) := ends_cons rfl (by decide) rest

theorem ends_openParen (rest : List Char) : Ends ('(' :: rest) := ends_cons rfl (by decide) rest

theorem ends_closeParen (rest : List Char) : Ends (')' :: rest) := ends_cons rfl (by decide) rest

theorem ends_comma (rest : List Char) : Ends (',' :: rest) := ends_cons rfl (by decide) rest

theorem ends_lineFeed (rest : List Char) : Ends ('\n' :: rest) := ends_cons rfl (by decide) rest

/-! ### Separations -/

def Separation.given? : Separation → Option Float
  | .unspecified => none
  | .atLeast distance => some distance
  | .exactly distance => some distance

namespace Separation

theorem text_unspecified : Separation.unspecified.text = "" := rfl

theorem text_atLeast (distance : Float) :
    (Separation.atLeast distance).text = " (separation at least " ++ plainNumber distance ++ ")" :=
  rfl

theorem text_exactly (distance : Float) :
    (Separation.exactly distance).text = " (separation exactly " ++ plainNumber distance ++ ")" :=
  rfl

theorem ends_text (separation : Separation) (ends : Ends rest) :
    Ends (separation.text.toList ++ rest) := by
  cases separation with
  | unspecified =>
      rw [text_unspecified, String.toList_empty]
      exact ends
  | atLeast distance =>
      rw [text_atLeast, String.toList_append, String.toList_append]
      exact ends_space _
  | exactly distance =>
      rw [text_exactly, String.toList_append, String.toList_append]
      exact ends_space _

theorem written_text (separation : Separation) (after : Written rest tokens) :
    Written (separation.text.toList ++ rest) (separation.tokens ++ tokens) := by
  cases separation with
  | unspecified =>
      rw [text_unspecified, String.toList_empty]
      exact after
  | atLeast distance =>
      have closed := Written.closeParen after
      have measured := Written.number distance (ends_closeParen rest) closed
      have least := Written.keyword .least (ends_space _) measured.space
      have atLeast := Written.keyword .atWord (ends_space _) least.space
      have named := Written.keyword .separation (ends_space _) atLeast.space
      have opened := named.openParen
      rw [text_atLeast, String.toList_append, String.toList_append, List.append_assoc,
        List.append_assoc]
      exact opened.space
  | exactly distance =>
      have closed := Written.closeParen after
      have measured := Written.number distance (ends_closeParen rest) closed
      have exactly := Written.keyword .exactly (ends_space _) measured.space
      have named := Written.keyword .separation (ends_space _) exactly.space
      have opened := named.openParen
      rw [text_exactly, String.toList_append, String.toList_append, List.append_assoc,
        List.append_assoc]
      exact opened.space

end Separation

/-! ### Terminals -/

def Layout.givenDistance? {tag : Type} : Layout tag → Option Float
  | .unary _ separation _ => separation.given?
  | .binary _ separation _ _ => separation.given?
  | _ => none

namespace Template

theorem text_unary (option : UnaryOption) (separation : Separation) (operand : String) :
    (Layout.unary option separation operand : Template).text =
      Name.render operand ++ " " ++ option.name ++ separation.text :=
  rfl

theorem text_binary (option : BinaryOption) (separation : Separation) (first second : String) :
    (Layout.binary option separation first second : Template).text =
      Name.render first ++ " " ++ option.name ++ " " ++ Name.render second ++ separation.text :=
  rfl

theorem text_cyclic (option : CyclicOption) (first second : String) (cycle : Unit) :
    (Layout.cyclic option first second cycle : Template).text =
      "Cycle " ++ Name.render first ++ " " ++ option.name ++ " " ++ Name.render second ++ "" :=
  rfl

theorem text_grouping (operand : String) (group : Unit) :
    (Layout.grouping operand group : Template).text = "Group " ++ Name.render operand ++ "" :=
  rfl

theorem written_text (template : Template) (ends : Ends rest) (after : Written rest tokens) :
    Written (template.text.toList ++ rest) (Template.tokens template ++ tokens) := by
  cases template with
  | unary option separation operand =>
      have spaced := separation.written_text after
      have placed := Written.unary option (separation.ends_text ends) spaced
      have whole := Written.name operand (ends_space _) placed.space
      rw [text_unary]
      simp only [String.toList_append, List.append_assoc]
      exact whole
  | binary option separation first second =>
      have spaced := separation.written_text after
      have seconded := Written.name second (separation.ends_text ends) spaced
      have related := Written.binary option (ends_space _) seconded.space
      have whole := Written.name first (ends_space _) related.space
      rw [text_binary]
      simp only [String.toList_append, List.append_assoc]
      exact whole
  | cyclic option first second cycle =>
      have seconded := Written.name second ends after
      have directed := Written.cyclic option (ends_space _) seconded.space
      have firsted := Written.name first (ends_space _) directed.space
      have whole := Written.keyword .cycle (ends_space _) firsted.space
      rw [text_cyclic]
      simp only [String.toList_append, String.toList_empty, List.append_nil, List.append_assoc]
      exact whole
  | grouping operand group =>
      have named := Written.name operand ends after
      have whole := Written.keyword .group (ends_space _) named.space
      rw [text_grouping]
      simp only [String.toList_append, String.toList_empty, List.append_nil, List.append_assoc]
      exact whole

end Template

/-! ### Selectors -/

theorem written_arguments (arguments : List String) (ends : Ends rest) (after : Written rest tokens) :
    Written ((String.intercalate ", " (arguments.map Name.render)).toList ++ rest)
      (argumentTokens arguments ++ tokens) := by
  rw [String.toList_intercalate, List.map_map]
  induction arguments with
  | nil => exact after
  | cons argument others ih =>
      cases others with
      | nil =>
          rw [List.map_singleton, List.intercalate_singleton]
          exact Written.name argument ends after
      | cons next others =>
          have separated := ih.space.comma
          have whole := Written.name argument (ends_comma _) separated
          rw [List.map_cons, List.map_cons, List.intercalate_cons_cons, List.append_assoc,
            List.append_assoc]
          exact whole

namespace Selector

theorem written_text (selector : Selector) (ends : Ends rest) (after : Written rest tokens) :
    Written (selector.text.toList ++ rest) (selector.tokens ++ tokens) := by
  cases selector with
  | signature variableName signatureName =>
      have typed := Written.name signatureName ends after
      have marked := typed.space.colon
      have whole := Written.name variableName (ends_space _) marked.space
      simp only [text, String.toList_append, List.append_assoc]
      exact whole
  | predicate predicateName arguments =>
      have closed := Written.closeParen after
      have filled := written_arguments arguments (ends_closeParen rest) closed
      have opened := filled.openParen
      have whole := Written.name predicateName (ends_openParen _) opened
      simp only [text, Selector.tokens, String.toList_append, List.append_assoc, List.cons_append,
        List.nil_append]
      exact whole

end Selector

/-! ### Rules and programs -/

theorem written_chain (selectors : List Selector) (after : Written rest tokens) :
    Written
      ((String.join (selectors.map (fun selector => "IF " ++ selector.text ++ " THEN "))).toList ++
        rest)
      (chainTokens selectors ++ tokens) := by
  induction selectors with
  | nil => exact after
  | cons selector others ih =>
      have followed := Written.keyword .thenWord (ends_space _) ih.space
      have selected := selector.written_text (ends_space _) followed.space
      have whole := Written.keyword .ifWord (ends_space _) selected.space
      simp only [List.map_cons, String.join_cons, String.toList_append, List.append_assoc,
        chainTokens, List.flatMap_cons, List.cons_append, List.nil_append]
      exact whole

def Rule.DistancesFinite (rule : Rule) : Prop :=
  ∀ distance ∈ Layout.givenDistance? rule.terminal, distance.isFinite = true

instance (rule : Rule) : Decidable rule.DistancesFinite :=
  inferInstanceAs (Decidable (∀ distance ∈ Layout.givenDistance? rule.terminal, distance.isFinite = true))

theorem Rule.written_text (rule : Rule) (ends : Ends rest) (after : Written rest tokens) :
    Written (rule.text.toList ++ rest) (rule.tokens ++ tokens) := by
  have placed := Template.written_text rule.terminal ends after
  have whole := written_chain rule.selectors placed
  rw [Rule.text, Rule.tokens, String.toList_append, List.append_assoc, List.append_assoc]
  exact whole

/-- What is written for a program is read as the tokens of that program, infinite distances
apart. -/
theorem Program.written_text (program : Program) :
    Written (Program.text program).toList (Program.tokens program) := by
  rw [Program.text, String.toList_intercalate, List.map_map]
  induction program with
  | nil => exact Written.nil
  | cons rule others ih =>
      cases others with
      | nil =>
          have whole := rule.written_text ends_nil Written.nil
          rw [List.append_nil] at whole
          rw [List.map_singleton, List.intercalate_singleton]
          exact whole
      | cons next others =>
          have whole := rule.written_text (ends_lineFeed _) ih.lineFeed
          rw [List.map_cons, List.map_cons, List.intercalate_cons_cons, List.append_assoc]
          exact whole

/-! ### Distances among the tokens -/

theorem Separation.number_mem_tokens {separation : Separation} {distance : Float} :
    .number distance ∈ separation.tokens ↔ distance ∈ separation.given? := by
  cases separation <;> simp [tokens, given?, eq_comm]

theorem Template.number_mem_tokens {template : Template} {distance : Float} :
    .number distance ∈ Template.tokens template ↔ distance ∈ Layout.givenDistance? template := by
  cases template <;> simp [Template.tokens, Layout.givenDistance?, Separation.number_mem_tokens]

theorem number_notMem_argumentTokens (distance : Float) (arguments : List String) :
    .number distance ∉ argumentTokens arguments := by
  fun_induction argumentTokens arguments with
  | case1 => simp
  | case2 => simp
  | case3 argument others _ ih => simp [ih]

theorem number_notMem_chainTokens (distance : Float) (selectors : List Selector) :
    .number distance ∉ chainTokens selectors := by
  intro member
  obtain ⟨selector, _, inside⟩ := List.mem_flatMap.mp member
  cases selector with
  | signature => simp [Selector.tokens] at inside
  | predicate predicateName arguments =>
      have notArgument := number_notMem_argumentTokens distance arguments
      simp [Selector.tokens, notArgument] at inside

theorem Program.number_mem_tokens {program : Program} {distance : Float} :
    .number distance ∈ Program.tokens program ↔
      ∃ rule ∈ program, distance ∈ Layout.givenDistance? rule.terminal := by
  simp only [Program.tokens, List.mem_flatMap, Rule.tokens, List.mem_append,
    number_notMem_chainTokens, false_or, Template.number_mem_tokens]

theorem Token.readBack_number {distance : Float} :
    readBack (.number distance) = .number distance ↔ distance.isFinite = true := by
  unfold readBack
  split <;> simp_all

/-- The tokens of a program are read as themselves exactly when its distances are finite. -/
theorem Program.readBack_tokens {program : Program} :
    (∀ token ∈ Program.tokens program, token.readBack = token) ↔
      ∀ rule ∈ program, rule.DistancesFinite := by
  constructor
  · intro same rule inside distance given
    have member := Program.number_mem_tokens.mpr ⟨rule, inside, given⟩
    exact Token.readBack_number.mp (same _ member)
  · intro finite token member
    cases token with
    | number distance =>
        obtain ⟨rule, inside, given⟩ := Program.number_mem_tokens.mp member
        exact Token.readBack_number.mpr (finite rule inside distance given)
    | _ => rfl

theorem Program.spells_text (program : Program)
    (finite : ∀ rule ∈ program, rule.DistancesFinite) :
    Spells (Program.text program).toList (Program.tokens program) :=
  (Program.written_text program).spells (Program.readBack_tokens.mpr finite)

end RelationalLayout
