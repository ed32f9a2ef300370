/-
Settings as documents.
-/

import RelationalLayout.Document.Field
import RelationalLayout.Settings

namespace RelationalLayout

namespace InferenceSettings

def decode : Decoder InferenceSettings :=
  Decoder.structured
    (.optional "bound" Decoder.natural default.bound
      (.optional "threshold" Decoder.number default.threshold .done))
    (fun (bound, threshold, ()) => { bound := bound, threshold := threshold })

def document (settings : InferenceSettings) : Json :=
  .object [("bound", .integer settings.bound), ("threshold", .number settings.threshold)]

end InferenceSettings

namespace StagingSettings

def decode : Decoder StagingSettings :=
  Decoder.structured
    (.optional "default_separation" Decoder.number default.defaultSeparation
      (.optional "seed_spacing" Decoder.number default.seedSpacing
        (.optional "cycle_radius" Decoder.number default.cycleRadius
          (.optional "cycle_spacing" Decoder.number default.cycleSpacing .done))))
    (fun (separation, spacing, radius, gap, ()) =>
      { defaultSeparation := separation
        seedSpacing := spacing
        cycleRadius := radius
        cycleSpacing := gap })

def document (settings : StagingSettings) : Json :=
  .object [("default_separation", .number settings.defaultSeparation),
    ("seed_spacing", .number settings.seedSpacing),
    ("cycle_radius", .number settings.cycleRadius),
    ("cycle_spacing", .number settings.cycleSpacing)]

end StagingSettings

namespace Settings

def decode : Decoder Settings :=
  Decoder.structured
    (.optional "inference" InferenceSettings.decode .default
      (.optional "staging" StagingSettings.decode .default .done))
    (fun (inference, staging, ()) => { inference := inference, staging := staging })

def document (settings : Settings) : Json :=
  .object [("inference", settings.inference.document), ("staging", settings.staging.document)]

end Settings

end RelationalLayout
