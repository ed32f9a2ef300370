/-
Static checking of rules against a schema.

A chain gives each of its variables one signature: a signature selector the one
it names, a predicate selector those its predicate declares for its arguments.
A rule is well-typed when no variable gets two signatures and its terminal can
be arranged over the variables of its chain.
-/

import RelationalLayout.Rule
import RelationalLayout.Schema
import RelationalLayout.SortedMap

namespace RelationalLayout

abbrev TypeEnv := SortedMap String String

inductive TypeError where
  | unknownSignature (variableName signature : String)
  | unknownPredicate (predicate : String)
  | arityMismatch (predicate : String) (expected found : Nat)
  | signatureConflict (variableName first second : String)
  | unboundVariable (variableName : String)
  | unsupported (terminal : Template)
deriving DecidableEq

def TypeError.message : TypeError → String
  | .unknownSignature variableName signature =>
      "unknown signature '" ++ signature ++ "' for variable '" ++ variableName ++ "'"
  | .unknownPredicate predicate => "unknown predicate '" ++ predicate ++ "'"
  | .arityMismatch predicate expected found =>
      "predicate '" ++ predicate ++ "' takes " ++ Nat.repr expected ++
        " arguments, selector gives " ++ Nat.repr found
  | .signatureConflict variableName first second =>
      "variable '" ++ variableName ++ "' is used as both '" ++ first ++ "' and '" ++ second ++ "'"
  | .unboundVariable variableName =>
      "variable '" ++ variableName ++ "' is not introduced by any selector"
  | .unsupported terminal => "layout '" ++ terminal.text ++ "' cannot be arranged"

namespace TypeEnv

/-- Gives a variable a signature, unless it has another one. -/
def assign (env : TypeEnv) (variableName signature : String) : Except TypeError TypeEnv :=
  match env.find? variableName with
  | none => .ok (env.insert variableName signature)
  | some earlier =>
      if earlier = signature then
        .ok env
      else
        .error (.signatureConflict variableName earlier signature)

/-- Assigns in order up to the first conflict, and keeps what was assigned before it. -/
def assignAll (env : TypeEnv) : List (String × String) → TypeEnv × Option TypeError
  | [] => (env, none)
  | (variableName, signature) :: rest =>
      match env.assign variableName signature with
      | .ok next => assignAll next rest
      | .error conflict => (env, some conflict)

end TypeEnv

namespace Selector

def assignments (schema : Schema) : Selector → Except TypeError (List (String × String))
  | .signature variableName signatureName =>
      if schema.hasSignature signatureName then
        .ok [(variableName, signatureName)]
      else
        .error (.unknownSignature variableName signatureName)
  | .predicate predicateName arguments =>
      match schema.predicate? predicateName with
      | none => .error (.unknownPredicate predicateName)
      | some declared =>
          if declared.arity = arguments.length then
            .ok (arguments.zip declared.signatures)
          else
            .error (.arityMismatch predicateName declared.arity arguments.length)

/-- Extends an environment by the variables of a selector. An environment is
returned also with an error: it holds what was assigned before. -/
def typeIn (schema : Schema) (env : TypeEnv) (selector : Selector) : TypeEnv × Option TypeError :=
  match selector.assignments schema with
  | .ok assignments => env.assignAll assignments
  | .error fault => (env, some fault)

end Selector

def typeChain (schema : Schema) (env : TypeEnv) : List Selector → Except TypeError TypeEnv
  | [] => .ok env
  | selector :: rest =>
      match selector.typeIn schema env with
      | (next, none) => typeChain schema next rest
      | (_, some fault) => .error fault

namespace Template

def unboundOperand? (env : TypeEnv) (terminal : Template) : Option String :=
  terminal.operands.find? (fun operand => !env.contains operand)

def check (env : TypeEnv) (terminal : Template) : Except TypeError Unit :=
  if terminal.isStageable then
    match terminal.unboundOperand? env with
    | some operand => .error (.unboundVariable operand)
    | none => .ok ()
  else
    .error (.unsupported terminal)

end Template

def Rule.check (schema : Schema) (rule : Rule) : Except TypeError TypeEnv := do
  let env ← typeChain schema .empty rule.selectors
  Template.check env rule.terminal
  .ok env

end RelationalLayout
