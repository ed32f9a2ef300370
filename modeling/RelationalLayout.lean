/-
Geometric layouts of relational instances: rules that are checked against a
schema, compiled over instances, inferred from drawings, and arranged in the plane.
-/

import RelationalLayout.Main
import RelationalLayout.Document.Settings
import RelationalLayout.Proofs.Arrangement
import RelationalLayout.Proofs.Float.Score
import RelationalLayout.Proofs.Inference
import RelationalLayout.Proofs.Query
import RelationalLayout.Proofs.Text.Program
import RelationalLayout.Proofs.CheckedRule
import RelationalLayout.Proofs.Text.Acceptance
import RelationalLayout.Proofs.Progress
import RelationalLayout.Proofs.TypeSoundness
import RelationalLayout.Proofs.Json.Number
import RelationalLayout.Proofs.Json.Quoted
import RelationalLayout.Proofs.Json.Reader
import RelationalLayout.Proofs.Json.Decode
import RelationalLayout.Proofs.Document.Rule
import RelationalLayout.Proofs.Document.RoundTrip
import RelationalLayout.Proofs.CycleShape
import RelationalLayout.Proofs.CycleDegree
import RelationalLayout.Proofs.CycleOrder
import RelationalLayout.Proofs.CyclicRule
import RelationalLayout.Proofs.StagerRun
import RelationalLayout.Proofs.Candidate
import RelationalLayout.Proofs.Stability
import RelationalLayout.Proofs.CheckedInference
import RelationalLayout.Proofs.Renaming
import RelationalLayout.Proofs.IdleVariable
import RelationalLayout.Proofs.Text.Distinct
import RelationalLayout.Proofs.Mirror
import RelationalLayout.Proofs.FootprintScore
import RelationalLayout.Proofs.MirrorConstraint
import RelationalLayout.Proofs.FootprintConstraint
import RelationalLayout.Proofs.PlacedScore
import RelationalLayout.Proofs.Text.FirstError
import RelationalLayout.Proofs.Text.Scan
import RelationalLayout.Proofs.Text.Spacing
import RelationalLayout.Proofs.Text.Span
import RelationalLayout.Proofs.Place
import RelationalLayout.Proofs.FilteredProduct
import RelationalLayout.Proofs.NameIndependence
import RelationalLayout.Proofs.CompileFault
import RelationalLayout.Proofs.Text.Formatting
import RelationalLayout.Proofs.Occurrence
import RelationalLayout.Proofs.InferenceFault
import RelationalLayout.Proofs.MeanScore
import RelationalLayout.Proofs.EvidenceOrder
import RelationalLayout.Proofs.ProgramFormat
import RelationalLayout.Proofs.LineColumn
import RelationalLayout.Proofs.Text.Name
import RelationalLayout.Proofs.Worklist
