/-
Decoding documents into values.

A document is decoded in the order it is written in, so the first fault or mismatch
is the one that is reported. A structure may be written as an object of its fields
or as an array of their values; fields of other names are skipped.

Where the kind of a value has to be found out first, the value is captured: a
fault anywhere inside it counts before any mismatch, and what is captured has no
places. A mismatch in it is reported behind it, by the container it is in.
-/

import RelationalLayout.SortedMap
import RelationalLayout.Json.Reader

namespace RelationalLayout

inductive DecodeError where
  | fault (reason : JsonFault)
  /-- A value of another shape, with how many bytes of the text are left behind the
  reported place, if it has one. -/
  | mismatch (left : Option Nat)
deriving DecidableEq, Inhabited

inductive JsonErrorKind where
  | endsEarly
  | malformed
  | mismatched
deriving DecidableEq, Inhabited

namespace DecodeError

def kind : DecodeError → JsonErrorKind
  | .fault reason => if reason.endsEarly then .endsEarly else .malformed
  | .mismatch _ => .mismatched

def left? : DecodeError → Option Nat
  | .fault reason => some reason.left
  | .mismatch left => left

def before (text : List Char) : DecodeError := .mismatch (some (byteWidth text))

def placed (text : List Char) : DecodeError → DecodeError
  | .mismatch none => before text
  | error => error

end DecodeError

abbrev Decoder (α : Type) := WrittenJson → Except DecodeError α

namespace Decoder

/-! ### Scalars -/

/-- The error of a value of another kind. A scalar is read before it is refused,
a container is not. -/
def refuse {α : Type} : WrittenJson → Except DecodeError α
  | .scalar _ (.error fault) _ => .error (.fault fault)
  | .scalar _ (.ok _) rest => .error (.before rest)
  | .broken _ stop => .error (.fault stop.used)
  | container => .error (.before container.start)

def string : Decoder String
  | .scalar _ (.ok (.string text)) _ => .ok text
  | other => refuse other

/-- The closest number to an integer. -/
def numberOfInteger (value : Int) : Float :=
  let magnitude := Decimal.nearest { digits := value.natAbs, exponent := 0 }
  if value < 0 then -magnitude else magnitude

/-- Whole numbers are numbers too. -/
def number : Decoder Float
  | .scalar _ (.ok (.integer value)) _ => .ok (numberOfInteger value)
  | .scalar _ (.ok (.number value)) _ => .ok value
  | other => refuse other

def natural : Decoder Nat
  | .scalar _ (.ok (.integer value)) rest =>
      if value < 0 then .error (.before rest) else .ok value.toNat
  | other => refuse other

/-! ### Captured values and containers -/

def capture (value : WrittenJson) : Except DecodeError Json := value.capture.mapError .fault

def found {α : Type} : Option α → Except DecodeError α
  | some value => .ok value
  | none => .error (.mismatch none)

/-- A value that is captured before its kind is looked at. -/
def captured {α : Type} (read : Json → Option α) : Decoder α := fun value => do
  found (read (← capture value))

def inside {α : Type} (decode : Decoder α) (value : WrittenJson) (text : List Char) :
    Except DecodeError α :=
  (decode value).mapError (.placed text)

def items {α : Type} (decode : Decoder α) : WrittenItems → Except DecodeError (List α)
  | .closed _ => .ok []
  | .broken start => .error (.fault (.here start))
  | .item value later => do .ok ((← inside decode value later.start) :: (← items decode later))

def list {α : Type} (decode : Decoder α) : Decoder (List α)
  | .array _ values => items decode values
  | other => refuse other

def keyText (key : JsonKey) : Except DecodeError String := key.text.mapError .fault

def members {α : Type} (decode : Decoder α) :
    WrittenMembers → Except DecodeError (List (String × α))
  | .closed _ => .ok []
  | .broken _ stop => .error (.fault stop.used)
  | .member key value later => do
      let name ← keyText key
      let decoded ← inside decode value later.start
      .ok ((name, decoded) :: (← members decode later))

/-- An object with any keys; of equal keys the last counts. -/
def map {α : Type} (decode : Decoder α) : Decoder (SortedMap String α)
  | .object _ values => (members decode values).map SortedMap.ofList
  | other => refuse other

end Decoder

/-! ### Structures -/

/-- The fields of a structure in their order: how each is decoded, and what it is
when absent. A draft says what has been found for each field. -/
inductive Fields : Type → Type → Type 1 where
  | done : Fields Unit Unit
  | field {α draft values : Type} (name : String) (decode : Decoder α) (absent : Option α)
      (rest : Fields draft values) : Fields (Option α × draft) (α × values)

namespace Fields

def required {α draft values : Type} (name : String) (decode : Decoder α)
    (rest : Fields draft values) : Fields (Option α × draft) (α × values) :=
  .field name decode none rest

def optional {α draft values : Type} (name : String) (decode : Decoder α) (absent : α)
    (rest : Fields draft values) : Fields (Option α × draft) (α × values) :=
  .field name decode (some absent) rest

def blank : {draft values : Type} → Fields draft values → draft
  | _, _, .done => ()
  | _, _, .field _ _ _ rest => (none, blank rest)

/-- Takes in a member of an object that goes on with `text`; `none` when no field has
its name. A field that is written twice is refused behind its second key. -/
def accept (name : String) (key : JsonKey) (value : WrittenJson) (text : List Char) :
    {draft values : Type} → Fields draft values → draft → Except DecodeError (Option draft)
  | _, _, .done, () => .ok none
  | _, _, .field fieldName decode _ rest, (here, later) =>
      if fieldName = name then
        match here with
        | some _ => .error (.before key.rest)
        | none => (decode.inside value text).map (fun decoded => some (some decoded, later))
      else
        (accept name key value text rest later).map (Option.map (fun next => (here, next)))

def acceptAll {draft values : Type} (fields : Fields draft values) (found : draft) :
    WrittenMembers → Except DecodeError draft
  | .closed _ => .ok found
  | .broken _ stop => .error (.fault stop.used)
  | .member key value later => do
      let name ← Decoder.keyText key
      match ← fields.accept name key value later.start found with
      | some next => acceptAll fields next later
      | none =>
          value.skip.mapError .fault
          acceptAll fields found later

/-- The values found, or else those of absent fields; a field that is missing is
missed where `rest` is left. -/
def finish (rest : List Char) :
    {draft values : Type} → Fields draft values → draft → Except DecodeError values
  | _, _, .done, () => .ok ()
  | _, _, .field _ _ absent later, (here, found) =>
      match here.or absent with
      | some value => (finish rest later found).map (fun values => (value, values))
      | none => .error (.before rest)

/-- The values of an array in the order of the fields. A comma behind the last value
due is a fault, whatever follows it. -/
def ofItems : {draft values : Type} → Fields draft values → WrittenItems →
    Except DecodeError values
  | _, _, .done, .closed _ => .ok ()
  | _, _, .done, .item value _ => .error (.fault (.behind 1 value.start))
  | _, _, .field _ _ absent fields, .closed rest =>
      match absent with
      | some value => (ofItems fields (.closed rest)).map (fun values => (value, values))
      | none => .error (.before rest)
  | _, _, .field _ decode _ fields, .item value later => do
      .ok (← decode.inside value later.start, ← ofItems fields later)
  | _, _, _, .broken start => .error (.fault (.here start))

end Fields

def Decoder.structured {α draft values : Type} (fields : Fields draft values)
    (build : values → α) : Decoder α
  | .object _ members => do
      let found ← fields.acceptAll fields.blank members
      .ok (build (← fields.finish members.rest found))
  | .array _ items => do .ok (build (← fields.ofItems items))
  | other => Decoder.refuse other

def Decoder.pair {α β : Type} (first : Decoder α) (second : Decoder β) : Decoder (α × β)
  | .array _ items => do
      let (one, two, ()) ← (Fields.required "" first (.required "" second .done)).ofItems items
      .ok (one, two)
  | other => Decoder.refuse other

/-! ### Tagged values -/

def Decoder.tag (tags : List String) : Decoder String
  | .scalar _ (.ok (.string name)) rest =>
      if name ∈ tags then .ok name else .error (.before rest)
  | other => Decoder.refuse other

/-- Splits the members of an object into the one tag and all others. The tag is
looked at when it is met. -/
def Decoder.splitTag (tags : List String) (tag : Option String) :
    WrittenMembers → Except DecodeError (Option String × List (String × Json))
  | .closed _ => .ok (tag, [])
  | .broken _ stop => .error (.fault stop.used)
  | .member key value later => do
      let name ← keyText key
      if name = "tag" then
        match tag with
        | some _ => .error (.before key.rest)
        | none => splitTag tags (some (← Decoder.tag tags value)) later
      else
        let captured ← capture value
        let (tag, others) ← splitTag tags tag later
        .ok (tag, (name, captured) :: others)

/-- A value whose tag says how its other members are read. The tag of an array is
its first item. -/
def Decoder.tagged {α : Type} (tags : List String) (read : String → Json → Option α) : Decoder α
  | .object _ members => do
      match ← splitTag tags none members with
      | (some tag, others) => found (read tag (.object others))
      | (none, _) => .error (.before members.rest)
  | .array _ (.item first later) => do
      let tag ← Decoder.tag tags first
      found (read tag (.array (← later.capture.mapError .fault)))
  | .array _ (.closed rest) => .error (.before rest)
  | .array _ (.broken start) => .error (.fault (.here start))
  | other => Decoder.refuse other

end RelationalLayout
