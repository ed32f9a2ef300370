/-
Layout rules: a chain of selectors over a terminal template.

A signature selector binds one variable to every atom of a signature; a
predicate selector binds its arguments to every tuple of a predicate. A rule has
at least one selector, and a program is a list of rules.
-/

import RelationalLayout.Layout

namespace RelationalLayout

inductive Selector where
  | signature (variableName signatureName : String)
  | predicate (predicateName : String) (arguments : List String)
deriving DecidableEq, Inhabited

namespace Selector

def variableNames : Selector → List String
  | .signature variableName _ => [variableName]
  | .predicate _ arguments => arguments

def text : Selector → String
  | .signature variableName signatureName =>
      Name.render variableName ++ " : " ++ Name.render signatureName
  | .predicate predicateName arguments =>
      Name.render predicateName ++ "(" ++ String.intercalate ", " (arguments.map Name.render) ++ ")"

end Selector

/-- Selectors from the outermost inwards; there is at least one. -/
structure Chain where
  first : Selector
  rest : List Selector
deriving DecidableEq, Inhabited

namespace Chain

def toList (chain : Chain) : List Selector := chain.first :: chain.rest

def ofList? : List Selector → Option Chain
  | [] => none
  | first :: rest => some { first := first, rest := rest }

def push (chain : Option Chain) (selector : Selector) : Chain :=
  match chain with
  | none => { first := selector, rest := [] }
  | some outer => { first := outer.first, rest := outer.rest ++ [selector] }

end Chain

structure Rule where
  chain : Chain
  terminal : Template
deriving DecidableEq

abbrev Program := List Rule

namespace Rule

def selectors (rule : Rule) : List Selector := rule.chain.toList

def inside (rule : Rule) (selector : Selector) : Rule :=
  { rule with chain := { first := selector, rest := rule.selectors } }

/-- There is no rule without selectors. -/
def compose? (selectors : List Selector) (terminal : Template) : Option Rule :=
  (Chain.ofList? selectors).map (fun chain => { chain := chain, terminal := terminal })

/-- How many selectors are nested below the outermost one. -/
def depth (rule : Rule) : Nat := rule.chain.rest.length

/-- The ranking cost of a rule; lower is simpler. -/
def complexity (rule : Rule) : Nat := rule.depth + 1

def text (rule : Rule) : String :=
  String.join (rule.selectors.map (fun selector => "IF " ++ selector.text ++ " THEN ")) ++
    rule.terminal.text

end Rule

def Program.text (program : Program) : String :=
  String.intercalate "\n" (List.map Rule.text program)

end RelationalLayout
