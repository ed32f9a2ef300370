/-
Values are decoded from the documents they are written as.

A decoder reads a document as a value when it gives the value for every written form of
the document. How it does so for a structure follows from how it does so for the fields,
and for a tagged value from how the captured members are read.
-/

import RelationalLayout.Proofs.Json.Reader
import RelationalLayout.Proofs.SortedMap
import RelationalLayout.Proofs.Success

namespace RelationalLayout

/-! ### Skipping and capturing -/

mutual

theorem WrittenJson.Holds.skip_eq {written : WrittenJson} {document : Json} :
    written.Holds document → written.skip = .ok ()
  | .scalar _ _ _ => by rw [WrittenJson.skip]
  | .array _ held => by rw [WrittenJson.skip, held.skip_eq]
  | .object _ held => by rw [WrittenJson.skip, held.skip_eq]

theorem WrittenItems.Holds.skip_eq {items : WrittenItems} {documents : List Json} :
    items.Holds documents → items.skip = .ok ()
  | .closed _ => by rw [WrittenItems.skip]
  | .item held heldLater => by
      rw [WrittenItems.skip, held.skip_eq, heldLater.skip_eq]
      rfl

theorem WrittenMembers.Holds.skip_eq {members : WrittenMembers}
    {documents : List (String × Json)} : members.Holds documents → members.skip = .ok ()
  | .closed _ => by rw [WrittenMembers.skip]
  | .member _ held heldLater => by
      rw [WrittenMembers.skip, held.skip_eq, heldLater.skip_eq]
      rfl

end

mutual

theorem WrittenJson.Holds.capture_eq {written : WrittenJson} {document : Json} :
    written.Holds document → written.capture = .ok document
  | .scalar _ _ _ => by rw [WrittenJson.capture]
  | .array _ held => by
      rw [WrittenJson.capture, held.capture_eq]
      rfl
  | .object _ held => by
      rw [WrittenJson.capture, held.capture_eq]
      rfl

theorem WrittenItems.Holds.capture_eq {items : WrittenItems} {documents : List Json} :
    items.Holds documents → items.capture = .ok documents
  | .closed _ => by rw [WrittenItems.capture]
  | .item held heldLater => by
      rw [WrittenItems.capture, held.capture_eq, heldLater.capture_eq]
      rfl

theorem WrittenMembers.Holds.capture_eq {members : WrittenMembers}
    {documents : List (String × Json)} : members.Holds documents → members.capture = .ok documents
  | .closed _ => by rw [WrittenMembers.capture]
  | .member named held heldLater => by
      rw [WrittenMembers.capture, named, held.capture_eq, heldLater.capture_eq]
      rfl

end

namespace Decoder

variable {α β : Type}

/-- The value is decoded from every written form of the document. -/
def Reads (decode : Decoder α) (document : Json) (value : α) : Prop :=
  ∀ written : WrittenJson, written.Holds document → decode written = .ok value

theorem keyText_eq {key : JsonKey} {name : String} (named : key.text = .ok name) :
    keyText key = .ok name := by
  rw [keyText, named]
  rfl

theorem Reads.inside_eq {decode : Decoder α} {document : Json} {value : α}
    (reads : decode.Reads document value) {written : WrittenJson} (held : written.Holds document)
    (text : List Char) : decode.inside written text = .ok value := by
  rw [inside, reads written held]
  rfl

theorem reads_string (text : String) : string.Reads (.string text) text := by
  rintro _ ⟨⟩
  rfl

theorem reads_number (number : Float) : Decoder.number.Reads (.number number) number := by
  rintro _ ⟨⟩
  rfl

theorem reads_captured {read : Json → Option α} {document : Json} {value : α}
    (found : read document = some value) : (captured read).Reads document value := by
  intro written held
  rw [captured, capture, held.capture_eq]
  simp [Except.mapError, bind, Except.bind, found, Decoder.found]

/-! ### Lists and maps -/

theorem items_eq_ok {decode : Decoder α} {documentOf : α → Json} {values : List α}
    (reads : ∀ value ∈ values, decode.Reads (documentOf value) value) {written : WrittenItems}
    (held : written.Holds (values.map documentOf)) : items decode written = .ok values := by
  induction values generalizing written with
  | nil =>
      cases held
      rfl
  | cons value values ih =>
      obtain ⟨here, later⟩ := List.forall_mem_cons.mp reads
      cases held with
      | item heldHere heldLater =>
          rw [items, here.inside_eq heldHere, ih later heldLater]
          rfl

theorem reads_list {decode : Decoder α} {documentOf : α → Json} {values : List α}
    (reads : ∀ value ∈ values, decode.Reads (documentOf value) value) :
    (list decode).Reads (.array (values.map documentOf)) values := by
  intro written held
  cases held with
  | scalar _ _ isScalar => cases isScalar
  | array _ inside => exact items_eq_ok reads inside

theorem reads_strings (texts : List String) :
    (list string).Reads (.array (texts.map .string)) texts :=
  reads_list fun text _ => reads_string text

theorem reads_pair {first : Decoder α} {second : Decoder β} {firstDocument secondDocument : Json}
    {one : α} {two : β} (readsFirst : first.Reads firstDocument one)
    (readsSecond : second.Reads secondDocument two) :
    (pair first second).Reads (.array [firstDocument, secondDocument]) (one, two) := by
  intro written held
  cases held with
  | scalar _ _ isScalar => cases isScalar
  | array _ inside =>
      cases inside with
      | item heldFirst later =>
          cases later with
          | item heldSecond behind =>
              cases behind
              simp [pair, Fields.required, Fields.ofItems, readsFirst.inside_eq heldFirst,
                readsSecond.inside_eq heldSecond, bind, Except.bind]

theorem members_eq_ok {decode : Decoder α} {documentOf : α → Json} {entries : List (String × α)}
    (reads : ∀ entry ∈ entries, decode.Reads (documentOf entry.2) entry.2)
    {written : WrittenMembers}
    (held : written.Holds (entries.map fun entry => (entry.1, documentOf entry.2))) :
    members decode written = .ok entries := by
  induction entries generalizing written with
  | nil =>
      cases held
      rfl
  | cons entry entries ih =>
      obtain ⟨here, later⟩ := List.forall_mem_cons.mp reads
      cases held with
      | member named heldHere heldLater =>
          rw [members, keyText_eq named, here.inside_eq heldHere, ih later heldLater]
          rfl

end Decoder

theorem Decoder.reads_map {α : Type} {decode : Decoder α} {documentOf : α → Json}
    {map : SortedMap String α}
    (reads : ∀ entry ∈ map.entries, decode.Reads (documentOf entry.2) entry.2) :
    (Decoder.map decode).Reads
      (.object (map.entries.map fun entry => (entry.1, documentOf entry.2))) map := by
  intro written held
  cases held with
  | scalar _ _ isScalar => cases isScalar
  | object _ inside =>
      rw [Decoder.map, members_eq_ok reads inside]
      exact congrArg Except.ok map.ofList_entries

/-! ### Structures -/

namespace Fields

variable {draft values : Type}

def names : {draft values : Type} → Fields draft values → List String
  | _, _, .done => []
  | _, _, .field name _ _ rest => name :: rest.names

/-- All fields are written, in their order and each once, and their values are decoded. -/
inductive Reads : {draft values : Type} → Fields draft values → List (String × Json) → values → Prop
  | done : Reads .done [] ()
  | field {α draft values : Type} {name : String} {decode : Decoder α} {absent : Option α}
      {rest : Fields draft values} {document : Json} {documents : List (String × Json)} {value : α}
      {found : values} (reads : decode.Reads document value)
      (fresh : name ∉ documents.map Prod.fst) (later : rest.Reads documents found) :
      Reads (.field name decode absent rest) ((name, document) :: documents) (value, found)

theorem accept_unknown {fields : Fields draft values} {name : String}
    (unknown : name ∉ fields.names) (key : JsonKey) (value : WrittenJson) (text : List Char)
    (found : draft) : fields.accept name key value text found = .ok none := by
  induction fields with
  | done => rfl
  | field fieldName decode absent rest ih =>
      obtain ⟨here, later⟩ := found
      have different : fieldName ≠ name := (List.ne_of_not_mem_cons unknown).symm
      simp only [accept, if_neg different, ih (List.not_mem_of_not_mem_cons unknown)]
      rfl

theorem acceptAll_behind {α : Type} {name : String} {decode : Decoder α} {absent here : Option α}
    {rest : Fields draft values} {members : WrittenMembers} {documents : List (String × Json)}
    (held : members.Holds documents) (fresh : name ∉ documents.map Prod.fst) {later found : draft}
    (accepted : rest.acceptAll later members = .ok found) :
    (Fields.field name decode absent rest).acceptAll (here, later) members = .ok (here, found) := by
  induction documents generalizing members later with
  | nil =>
      cases held
      cases accepted
      rfl
  | cons document documents ih =>
      cases held with
      | @member key value behind other content _ named heldHere heldLater =>
          have different : name ≠ other := List.ne_of_not_mem_cons fresh
          have freshLater := List.not_mem_of_not_mem_cons fresh
          -- Whether another field takes the member or none does, the first field is left alone.
          simp only [acceptAll, Decoder.keyText_eq named, accept, if_neg different, bind, Except.bind]
            at accepted ⊢
          cases taken : rest.accept other key value behind.start later with
          | error fault =>
              rw [taken] at accepted
              cases accepted
          | ok next =>
              rw [taken] at accepted
              cases next with
              | none =>
                  rw [heldHere.skip_eq] at accepted ⊢
                  exact ih heldLater freshLater accepted
              | some next => exact ih heldLater freshLater accepted

/-- What is written for all fields is taken in, and nothing is missing in the end. -/
theorem Reads.exists_draft {fields : Fields draft values} {documents : List (String × Json)}
    {found : values} (reads : fields.Reads documents found) {members : WrittenMembers}
    (held : members.Holds documents) :
    ∃ filled, fields.acceptAll fields.blank members = .ok filled ∧
      ∀ rest, fields.finish rest filled = .ok found := by
  induction reads generalizing members with
  | done =>
      cases held
      exact ⟨(), rfl, fun _ => rfl⟩
  | @field α draft values name decode absent rest document documents value found reads fresh later ih =>
      cases held with
      | @member key written behind _ _ _ named heldHere heldLater =>
          obtain ⟨filled, accepted, finished⟩ := ih heldLater
          refine ⟨(some value, filled), ?_, fun rest => ?_⟩
          · simp only [acceptAll, Decoder.keyText_eq named, accept, blank, if_true,
              reads.inside_eq heldHere, bind, Except.bind, Except.map]
            exact acceptAll_behind heldLater fresh accepted
          · rw [finish, finished rest]
            rfl

end Fields

namespace Decoder

variable {α draft values : Type} {fields : Fields draft values} {build : values → α}
  {documents : List (String × Json)} {found : values}

theorem reads_structured (reads : fields.Reads documents found) :
    (structured fields build).Reads (.object documents) (build found) := by
  intro written held
  cases held with
  | scalar _ _ isScalar => cases isScalar
  | object _ inside =>
      obtain ⟨filled, accepted, finished⟩ := reads.exists_draft inside
      simp only [structured, accepted, finished, bind, Except.bind]

theorem reads_structured_behind {name : String} (unknown : name ∉ fields.names) (document : Json)
    (reads : fields.Reads documents found) :
    (structured fields build).Reads (.object ((name, document) :: documents)) (build found) := by
  intro written held
  cases held with
  | scalar _ _ isScalar => cases isScalar
  | object _ inside =>
      cases inside with
      | member named heldHere heldLater =>
          obtain ⟨filled, accepted, finished⟩ := reads.exists_draft heldLater
          simp only [structured, Fields.acceptAll, keyText_eq named,
            Fields.accept_unknown unknown, heldHere.skip_eq, Except.mapError, accepted, finished,
            bind, Except.bind]

/-! ### Tagged values -/

theorem splitTag_eq_ok {tags : List String} {tag : Option String} {members : WrittenMembers}
    (held : members.Holds documents) (untagged : "tag" ∉ documents.map Prod.fst) :
    splitTag tags tag members = .ok (tag, documents) := by
  induction documents generalizing members with
  | nil =>
      cases held
      rfl
  | cons document documents ih =>
      cases held with
      | @member key value behind name content _ named heldHere heldLater =>
          have different : name ≠ "tag" := (List.ne_of_not_mem_cons untagged).symm
          have later := ih heldLater (List.not_mem_of_not_mem_cons untagged)
          simp only [splitTag, keyText_eq named, if_neg different, capture, heldHere.capture_eq,
            Except.mapError, later, bind, Except.bind]

theorem reads_tagged {tags : List String} {name : String} (known : name ∈ tags)
    {read : String → Json → Option α} (untagged : "tag" ∉ documents.map Prod.fst) {value : α}
    (readAs : read name (.object documents) = some value) :
    (tagged tags read).Reads (.object (("tag", .string name) :: documents)) value := by
  intro written held
  cases held with
  | scalar _ _ isScalar => cases isScalar
  | object _ inside =>
      cases inside with
      | member named heldTag heldLater =>
          cases heldTag
          simp only [tagged, splitTag, keyText_eq named, if_true, tag, if_pos known,
            splitTag_eq_ok heldLater untagged, readAs, Decoder.found, bind, Except.bind]

end Decoder

/-! ### Documents -/

/-- A document is read from its compact text as what its numbers are read as. -/
theorem Decoder.Reads.readDocument_reread {α : Type} {decode : Decoder α} {document : Json}
    {value : α} (reads : decode.Reads (document.mapNumbers Json.reread) value)
    (nesting : document.depth ≤ JsonReader.depthLimit)
    (readable : ∀ number ∈ document.numbers, number.Readable) :
    readDocument decode document.compact = .ok value := by
  obtain ⟨written, held, read⟩ := readJson_compactText nesting readable
  rw [readDocument, Json.compact, String.toList_ofList, read]
  simp only [reads written held]

theorem Decoder.Reads.readDocument_eq {α : Type} {decode : Decoder α} {document : Json} {value : α}
    (reads : decode.Reads document value) (portable : document.Portable) :
    readDocument decode document.compact = .ok value := by
  rw [← portable.mapNumbers_reread] at reads
  exact reads.readDocument_reread portable.nesting
    fun number member => (portable.numbers number member).readable

end RelationalLayout
