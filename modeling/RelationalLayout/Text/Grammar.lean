/-
The token sequence of a program.

This is the grammar of program text, given as the tokens that each construct is
written with. Reading a program inverts it.
-/

import RelationalLayout.Rule

namespace RelationalLayout

def Separation.tokens : Separation → List Token
  | .unspecified => []
  | .atLeast distance =>
      [.openParen, .keyword .separation, .keyword .atWord, .keyword .least, .number distance,
        .closeParen]
  | .exactly distance =>
      [.openParen, .keyword .separation, .keyword .exactly, .number distance, .closeParen]

def Template.tokens : Template → List Token
  | .unary option separation operand =>
      .identifier operand :: .unary option :: separation.tokens
  | .binary option separation first second =>
      .identifier first :: .binary option :: .identifier second :: separation.tokens
  | .cyclic option first second _ =>
      [.keyword .cycle, .identifier first, .cyclic option, .identifier second]
  | .grouping operand _ => [.keyword .group, .identifier operand]

def argumentTokens : List String → List Token
  | [] => []
  | [last] => [.identifier last]
  | argument :: rest => .identifier argument :: .comma :: argumentTokens rest

def Selector.tokens : Selector → List Token
  | .signature variableName signatureName =>
      [.identifier variableName, .colon, .identifier signatureName]
  | .predicate predicateName arguments =>
      .identifier predicateName :: .openParen :: (argumentTokens arguments ++ [.closeParen])

/-- Every selector stands between the words `IF` and `THEN`. -/
def chainTokens (selectors : List Selector) : List Token :=
  selectors.flatMap (fun selector =>
    .keyword .ifWord :: (selector.tokens ++ [.keyword .thenWord]))

def Rule.tokens (rule : Rule) : List Token :=
  chainTokens rule.selectors ++ Template.tokens rule.terminal

def Program.tokens (program : Program) : List Token := List.flatMap Rule.tokens program

end RelationalLayout
