/-
Schemas, instances and diagrams as documents.
-/

import RelationalLayout.Diagram
import RelationalLayout.Document.Field

namespace RelationalLayout

/-! ### Schemas -/

namespace Predicate

def decode : Decoder Predicate :=
  Decoder.structured
    (.required "name" Decoder.string
      (.required "sigs" (Decoder.list Decoder.string) .done))
    (fun (name, signatures, ()) => { name := name, signatures := signatures })

def document (predicate : Predicate) : Json :=
  .object [("name", .string predicate.name), ("sigs", Json.ofStrings predicate.signatures)]

end Predicate

namespace Schema

def decode : Decoder Schema :=
  Decoder.structured
    (.optional "signatures" (Decoder.list Decoder.string) []
      (.optional "predicates" (Decoder.list Predicate.decode) []
        (.optional "sigHierarchy" (Decoder.list (Decoder.pair Decoder.string Decoder.string)) []
          .done)))
    (fun (signatures, predicates, hierarchy, ()) =>
      { signatures := signatures, predicates := predicates, hierarchy := hierarchy })

def document (schema : Schema) : Json :=
  .object [("signatures", Json.ofStrings schema.signatures),
    ("predicates", .array (schema.predicates.map Predicate.document)),
    ("sigHierarchy", .array (schema.hierarchy.map (fun (lower, upper) =>
      Json.ofStrings [lower, upper])))]

end Schema

/-! ### Instances -/

namespace Atom

def decode : Decoder Atom :=
  Decoder.structured
    (.required "name" Decoder.string (.required "type" Decoder.string .done))
    (fun (name, signature, ()) => { name := name, signature := signature })

def document (atom : Atom) : Json :=
  .object [("name", .string atom.name), ("type", .string atom.signature)]

end Atom

namespace Fact

def decode : Decoder Fact :=
  Decoder.structured
    (.required "predicateName" Decoder.string
      (.required "args" (Decoder.list Decoder.string) .done))
    (fun (predicate, arguments, ()) => { predicate := predicate, arguments := arguments })

def document (fact : Fact) : Json :=
  .object [("predicateName", .string fact.predicate), ("args", Json.ofStrings fact.arguments)]

end Fact

namespace Instance

def decode : Decoder Instance :=
  Decoder.structured
    (.optional "atoms" (Decoder.list Atom.decode) []
      (.optional "predicates" (Decoder.list Fact.decode) [] .done))
    (fun (atoms, facts, ()) => { atoms := atoms, facts := facts })

def document (world : Instance) : Json :=
  .object [("atoms", .array (world.atoms.map Atom.document)),
    ("predicates", .array (world.facts.map Fact.document))]

end Instance

/-! ### Diagrams -/

namespace Point

def decode : Decoder (Point Float) :=
  Decoder.structured
    (.required "x" Decoder.number (.required "y" Decoder.number .done))
    (fun (x, y, ()) => { x := x, y := y })

def document (point : Point Float) : Json :=
  .object [("x", .number point.x), ("y", .number point.y)]

end Point

namespace Diagram

def decode : Decoder (Diagram Float) := Decoder.map Point.decode

def document (diagram : Diagram Float) : Json :=
  .object (diagram.entries.map (fun (atom, point) => (atom, point.document)))

end Diagram

end RelationalLayout
