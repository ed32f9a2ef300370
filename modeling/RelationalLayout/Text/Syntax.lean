/-
The syntax of programs.

A rule is a selector between `IF` and `THEN` and then another rule, nested in it, or the
layout at the end. A layout that is unary or binary may say how far apart its operands are.
-/

import RelationalLayout.Rule
import RelationalLayout.Text.Parser

namespace RelationalLayout

namespace Parser

variable {place : Type}

/-! ### Tokens -/

def identifier : Parser place String :=
  select [.identifier] (fun
    | .identifier name => some name
    | _ => none)

def number : Parser place Float :=
  select [.number] (fun
    | .number value => some value
    | _ => none)

def keyword (word : Keyword) : Parser place Unit := just (.keyword word)

def unaryOption : Parser place UnaryOption :=
  select [] (fun
    | .unary option => some option
    | _ => none)

def binaryOption : Parser place BinaryOption :=
  select [] (fun
    | .binary option => some option
    | _ => none)

def cyclicOption : Parser place CyclicOption :=
  select [] (fun
    | .cyclic option => some option
    | _ => none)

/-! ### Selectors -/

def signatureSelector : Parser place Selector := do
  let variableName ← identifier
  just .colon
  let signatureName ← identifier
  return .signature variableName signatureName

def predicateSelector : Parser place Selector := do
  let predicateName ← identifier
  let arguments ← parenthesized (identifier.separatedBy (just .comma))
  return .predicate predicateName arguments

def selector : Parser place Selector := signatureSelector.orElse predicateSelector

/-! ### Layouts -/

def atLeast : Parser place Separation := do
  keyword .atWord
  keyword .least
  return .atLeast (← number)

def exactly : Parser place Separation := do
  keyword .exactly
  return .exactly (← number)

def separation : Parser place Separation := do
  let given ← optional (parenthesized (do
    keyword .separation
    atLeast.orElse exactly))
  return given.getD .unspecified

def cyclic : Parser place Template := do
  keyword .cycle
  let first ← identifier
  let option ← cyclicOption
  let second ← identifier
  return .cyclic option first second ()

def grouping : Parser place Template := do
  keyword .group
  return .grouping (← identifier) ()

def binary : Parser place Template := do
  let first ← identifier
  let option ← binaryOption
  let second ← identifier
  return .binary option (← separation) first second

def unary : Parser place Template := do
  let operand ← identifier
  let option ← unaryOption
  return .unary option (← separation) operand

def terminal : Parser place Template :=
  (cyclic.orElse (grouping.orElse (binary.orElse unary))).labelled .layout

/-! ### Rules -/

def inside (selector : Selector) (nested : Parser place Rule) : Parser place Rule :=
  orElse
    (do return (← nested).inside selector)
    (do return { chain := { first := selector, rest := [] }, terminal := ← terminal })

def rule : Nat → Parser place Rule
  | 0 => refuse []
  | limit + 1 => do
      keyword .ifWord
      let selector ← selector
      keyword .thenWord
      inside selector (rule limit)

/-- Every selector takes tokens, so no rule has as many of them as there are tokens. -/
def program : Parser place Program := fun tokens =>
  (do
    let rules ← repeated (rule (tokens.length + 1))
    atEnd
    return rules : Parser place Program) tokens

end Parser

end RelationalLayout
