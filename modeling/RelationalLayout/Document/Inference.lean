/-
Inferred rules as documents.
-/

import RelationalLayout.Document.Rule
import RelationalLayout.Search

namespace RelationalLayout.InferredRule

def decode : Decoder (InferredRule Float) :=
  Decoder.structured
    (.required "inferred" Rule.decode
      (.required "confidence" Decoder.number
        (.required "footprints" (Decoder.list Layout.decode) .done)))
    (fun (rule, confidence, footprints, ()) =>
      { rule := rule, confidence := confidence, footprints := footprints })

def document (inferred : InferredRule Float) : Json :=
  .object [("inferred", inferred.rule.document), ("confidence", .number inferred.confidence),
    ("footprints", .array (inferred.footprints.map Layout.document))]

end RelationalLayout.InferredRule
