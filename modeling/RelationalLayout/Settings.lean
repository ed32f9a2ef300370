/-
Settings of inference and of staging, with their defaults.
-/

namespace RelationalLayout

structure InferenceSettings where
  bound : Nat
  threshold : Float
deriving DecidableEq

namespace InferenceSettings

def default : InferenceSettings := { bound := 2, threshold := 0.9 }

instance : Inhabited InferenceSettings := ⟨default⟩

end InferenceSettings

structure StagingSettings where
  /-- The gap of layouts without a separation. -/
  defaultSeparation : Float
  /-- The distance between neighbouring seeds. -/
  seedSpacing : Float
  cycleRadius : Float
  /-- The gap between the circles of neighbouring cycles. -/
  cycleSpacing : Float
deriving DecidableEq

namespace StagingSettings

def default : StagingSettings :=
  { defaultSeparation := 100, seedSpacing := 150, cycleRadius := 150, cycleSpacing := 100 }

instance : Inhabited StagingSettings := ⟨default⟩

end StagingSettings

structure Settings where
  inference : InferenceSettings
  staging : StagingSettings
deriving DecidableEq

namespace Settings

def default : Settings := { inference := .default, staging := .default }

instance : Inhabited Settings := ⟨default⟩

end Settings

end RelationalLayout
