/-
Settings from TOML documents.

Both tables and all of their keys may be absent, and other keys are passed over.
A table may also be given as the array of its values in order; a date says nothing
about them.
-/

import RelationalLayout.Settings
import RelationalLayout.Json.Decode
import RelationalLayout.Toml.Reader

namespace RelationalLayout.Toml

/-- The values of some keys, as far as they are given; `none` for what is no table. -/
def fields? (keys : List String) : Toml → Option (List (Option Toml))
  | .table _ members => some (keys.map (fun key => List.lookup key members))
  | .inline members => some (keys.map (fun key => List.lookup key members))
  | .moment => some (keys.map (fun _ => none))
  | .array items => some (keys.mapIdx (fun index _ => items[index]?))
  | .tables items =>
      some (keys.mapIdx (fun index _ => items.reverse[index]?.map (.table .header)))
  | _ => none

def toNumber? : Toml → Option Float
  | .integer value => some (Decoder.numberOfInteger value)
  | .number value => some value
  | _ => none

def toNatural? : Toml → Option Nat
  | .integer value => if value < 0 then none else some value.toNat
  | _ => none

/-- The value that is given, or else the one that is meant when none is. -/
def given? {α : Type} (read : Toml → Option α) (absent : α) : Option Toml → Option α
  | none => some absent
  | some value => read value

def inference? (value : Toml) : Option InferenceSettings :=
  let absent := InferenceSettings.default
  match fields? ["bound", "threshold"] value with
  | some [bound, threshold] => do
      some
        { bound := ← given? toNatural? absent.bound bound
          threshold := ← given? toNumber? absent.threshold threshold }
  | _ => none

def staging? (value : Toml) : Option StagingSettings :=
  let absent := StagingSettings.default
  match fields? ["default_separation", "seed_spacing", "cycle_radius", "cycle_spacing"] value with
  | some [separation, spacing, radius, gap] => do
      some
        { defaultSeparation := ← given? toNumber? absent.defaultSeparation separation
          seedSpacing := ← given? toNumber? absent.seedSpacing spacing
          cycleRadius := ← given? toNumber? absent.cycleRadius radius
          cycleSpacing := ← given? toNumber? absent.cycleSpacing gap }
  | _ => none

def settings? (source : String) : Option Settings :=
  match read? source with
  | none => none
  | some root => do
      some
        { inference := ← given? inference? .default (root.find? "inference")
          staging := ← given? staging? .default (root.find? "staging") }

end RelationalLayout.Toml
