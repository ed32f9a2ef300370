/-
The whole way from inputs to results.

An instance is validated before anything is made of it, and every error says in
which step it arose.
-/

import RelationalLayout.Load
import RelationalLayout.Search
import RelationalLayout.Stager

namespace RelationalLayout

inductive PipelineError where
  | invalidInstance (error : ValidationError)
  | type (error : TypeError)
  | compile (error : CompileError)
  | score (error : ScoreError)
  | stage (error : StageError)
  | parse (errors : List SyntaxError)
  | load (error : LoadError)
deriving DecidableEq

def PipelineError.message : PipelineError → String
  | .invalidInstance error => "invalid instance: " ++ error.message
  | .type error => "type error: " ++ error.message
  | .compile error => "compile error: " ++ error.message
  | .score error => "scoring error: " ++ error.message
  | .stage error => "staging error: " ++ error.message
  | .parse errors => "parse errors: " ++ String.intercalate "; " (errors.map SyntaxError.text)
  | .load error => error.message

namespace Pipeline

def validate (schema : Schema) (world : Instance) : Except PipelineError Unit :=
  (world.validate schema).mapError .invalidInstance

def compile (schema : Schema) (world : Instance) (program : Program) :
    Except PipelineError (List GroundLayout) := do
  validate schema world
  (program.compile schema world).mapError .compile

def infer (schema : Schema) (world : Instance) (diagram : Diagram Float)
    (settings : InferenceSettings) : Except PipelineError (List (InferredRule Float)) := do
  validate schema world
  let evidence : Evidence Float :=
    { schema := schema, world := world, diagram := diagram, threshold := settings.threshold }
  (evidence.infer settings.bound).mapError .compile

def arrange {α : Type} [Measure α] (schema : Schema) (world : Instance) (program : Program)
    (settings : StagingSettings) : Except PipelineError (Diagram α) := do
  let layouts ← compile schema world program
  let stager ← ((Stager.empty settings).stageAll layouts).mapError .stage
  let solution ← (stager.arrange world).mapError .stage
  (Diagram.ofInputs solution.input? world.atomNames).mapError (fun atom =>
    .score (.missingPosition atom))

structure Synthesis where
  inferred : List (InferredRule Float)
  diagram : Diagram Float

def synthesize (schema : Schema) (sample : Instance) (drawn : Diagram Float)
    (target : Instance) (settings : Settings) : Except PipelineError Synthesis := do
  let inferred ← infer schema sample drawn settings.inference
  let program := inferred.map InferredRule.rule
  let diagram ← arrange schema target program settings.staging
  .ok { inferred := inferred, diagram := diagram }

end Pipeline

end RelationalLayout
