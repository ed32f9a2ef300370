/-
Layouts: one geometric relation over one or two operands.

The operands of a template are variables, those of a ground layout are atoms.
Cyclic and grouping layouts carry a tag. A template has none to carry; a ground
layout always has the id that keeps the edges of one rule together.
-/

import RelationalLayout.Text.Name

namespace RelationalLayout

inductive Separation where
  | unspecified
  | atLeast (distance : Float)
  | exactly (distance : Float)
deriving DecidableEq, Inhabited

def Separation.text : Separation → String
  | .unspecified => ""
  | .atLeast distance => " (separation at least " ++ plainNumber distance ++ ")"
  | .exactly distance => " (separation exactly " ++ plainNumber distance ++ ")"

inductive Layout (tag : Type) where
  | unary (option : UnaryOption) (separation : Separation) (operand : String)
  | binary (option : BinaryOption) (separation : Separation) (first second : String)
  | cyclic (option : CyclicOption) (first second : String) (cycle : tag)
  | grouping (operand : String) (group : tag)
deriving DecidableEq

abbrev Template := Layout Unit

abbrev GroundLayout := Layout String

class LayoutTag (tag : Type) where
  id? : tag → Option String

instance : LayoutTag Unit := ⟨fun _ => none⟩

instance : LayoutTag String := ⟨some⟩

namespace Layout

variable {tag : Type}

def operands : Layout tag → List String
  | .unary _ _ operand => [operand]
  | .binary _ _ first second => [first, second]
  | .cyclic _ first second _ => [first, second]
  | .grouping operand _ => [operand]

/-- Cyclic and grouping layouts have no separation to replace. -/
def withSeparation (separation : Separation) : Layout tag → Layout tag
  | .unary option _ operand => .unary option separation operand
  | .binary option _ first second => .binary option separation first second
  | other => other

def tag? : Layout tag → Option tag
  | .unary _ _ _ => none
  | .binary _ _ _ _ => none
  | .cyclic _ _ _ cycle => some cycle
  | .grouping _ group => some group

/-- Groups and unsupported binary options have no place in an arrangement. -/
def isStageable : Layout tag → Bool
  | .unary _ _ _ => true
  | .binary option _ _ _ => option.isSupported
  | .cyclic _ _ _ _ => true
  | .grouping _ _ => false

def idText [LayoutTag tag] (held : tag) : String :=
  match LayoutTag.id? held with
  | some id => " (id " ++ id ++ ")"
  | none => ""

def text [LayoutTag tag] : Layout tag → String
  | .unary option separation operand =>
      Name.render operand ++ " " ++ option.name ++ separation.text
  | .binary option separation first second =>
      Name.render first ++ " " ++ option.name ++ " " ++ Name.render second ++ separation.text
  | .cyclic option first second cycle =>
      "Cycle " ++ Name.render first ++ " " ++ option.name ++ " " ++ Name.render second ++
        idText cycle
  | .grouping operand group => "Group " ++ Name.render operand ++ idText group

end Layout

end RelationalLayout
