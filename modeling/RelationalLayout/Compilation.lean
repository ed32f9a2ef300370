/-
Compiling rules into ground layouts.

The terminal of a rule is instantiated once for each substitution of its chain.
The number of a rule in its program becomes the id of its cycle or group, so
that edges of different rules never meet.
-/

import RelationalLayout.Query

namespace RelationalLayout

inductive CompileError where
  | arityMismatch (fault : ArityFault)
  | unboundVariable (variableName : String) (terminal : Template)
deriving DecidableEq

def CompileError.message : CompileError → String
  | .arityMismatch fault =>
      "selector '" ++ fault.predicate ++ "' expects " ++ Nat.repr fault.expected ++
        " arguments, but a fact has " ++ Nat.repr fault.found
  | .unboundVariable variableName terminal =>
      "variable '" ++ variableName ++ "' in '" ++ terminal.text ++ "' is not bound by any selector"

namespace Template

def resolve (terminal : Template) (substitution : Substitution) (operand : String) :
    Except CompileError String :=
  match substitution.find? operand with
  | some atom => .ok atom
  | none => .error (.unboundVariable operand terminal)

def instantiate (terminal : Template) (substitution : Substitution) (id : String) :
    Except CompileError GroundLayout := do
  let resolved := terminal.resolve substitution
  match terminal with
  | .unary option separation operand => .ok (.unary option separation (← resolved operand))
  | .binary option separation first second =>
      .ok (.binary option separation (← resolved first) (← resolved second))
  | .cyclic option first second _ =>
      .ok (.cyclic option (← resolved first) (← resolved second) ("cycle-" ++ id))
  | .grouping operand _ => .ok (.grouping (← resolved operand) ("group-" ++ id))

def instantiateAll (terminal : Template) (id : String) :
    List Substitution → Except CompileError (List GroundLayout)
  | [] => .ok []
  | substitution :: rest => do
      let layout ← terminal.instantiate substitution id
      .ok (layout :: (← instantiateAll terminal id rest))

end Template

def Rule.compile (schema : Schema) (world : Instance) (number : Nat) (rule : Rule) :
    Except CompileError (List GroundLayout) :=
  match substitutionsOf schema world rule.selectors with
  | .ok substitutions => Template.instantiateAll rule.terminal (Nat.repr number) substitutions
  | .error fault => .error (.arityMismatch fault)

namespace Program

def compileFrom (schema : Schema) (world : Instance) (number : Nat) :
    Program → Except CompileError (List GroundLayout)
  | [] => .ok []
  | rule :: rest => do
      let layouts ← rule.compile schema world number
      .ok (layouts ++ (← compileFrom schema world (number + 1) rest))

def compile (schema : Schema) (world : Instance) (program : Program) :
    Except CompileError (List GroundLayout) :=
  program.compileFrom schema world 0

end Program

end RelationalLayout
