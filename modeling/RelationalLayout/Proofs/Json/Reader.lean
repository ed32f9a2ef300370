/-
Documents are read back from their compact texts.

A reader inside the text of a document completes a value that holds the document, puts it
into the innermost container that was open before, and goes on behind the text. This is
shown for a document, for the items of an array and for the members of an object at once,
whatever containers are open around them, as long as they are not too many.
-/

import RelationalLayout.Proofs.Json.Number
import RelationalLayout.Proofs.Json.Quoted

namespace RelationalLayout

open Lexeme (Ends)

/-! ### Portable documents -/

namespace Json

def isScalar : Json → Bool
  | .array _ => false
  | .object _ => false
  | _ => true

mutual

def depth : Json → Nat
  | .array items => itemsDepth items + 1
  | .object members => membersDepth members + 1
  | _ => 0

def itemsDepth : List Json → Nat
  | [] => 0
  | item :: rest => max (depth item) (itemsDepth rest)

def membersDepth : List (String × Json) → Nat
  | [] => 0
  | (_, value) :: rest => max (depth value) (membersDepth rest)

end

mutual

def numbers : Json → List Json
  | .integer value => [.integer value]
  | .number value => [.number value]
  | .array items => itemsNumbers items
  | .object members => membersNumbers members
  | _ => []

def itemsNumbers : List Json → List Json
  | [] => []
  | item :: rest => numbers item ++ itemsNumbers rest

def membersNumbers : List (String × Json) → List Json
  | [] => []
  | (_, value) :: rest => numbers value ++ membersNumbers rest

end

mutual

def mapNumbers (change : Float → Float) : Json → Json
  | .number value => .number (change value)
  | .array items => .array (mapItems change items)
  | .object members => .object (mapMembers change members)
  | other => other

def mapItems (change : Float → Float) : List Json → List Json
  | [] => []
  | item :: rest => mapNumbers change item :: mapItems change rest

def mapMembers (change : Float → Float) : List (String × Json) → List (String × Json)
  | [] => []
  | (key, value) :: rest => (key, mapNumbers change value) :: mapMembers change rest

end

mutual

theorem mapNumbers_eq_self {change : Float → Float} : ∀ {document : Json},
    (∀ value, .number value ∈ document.numbers → change value = value) →
      document.mapNumbers change = document
  | .null, _ => rfl
  | .boolean _, _ => rfl
  | .integer _, _ => rfl
  | .number value, fixed => congrArg Json.number (fixed value List.mem_cons_self)
  | .string _, _ => rfl
  | .array items, fixed => by rw [mapNumbers, mapItems_eq_self fixed]
  | .object members, fixed => by rw [mapNumbers, mapMembers_eq_self fixed]

theorem mapItems_eq_self {change : Float → Float} : ∀ {items : List Json},
    (∀ value, .number value ∈ itemsNumbers items → change value = value) →
      mapItems change items = items
  | [], _ => rfl
  | item :: rest, fixed => by
      rw [itemsNumbers] at fixed
      have here := mapNumbers_eq_self fun value member =>
        fixed value (List.mem_append_left _ member)
      have later := mapItems_eq_self fun value member =>
        fixed value (List.mem_append_right _ member)
      rw [mapItems, here, later]

theorem mapMembers_eq_self {change : Float → Float} : ∀ {members : List (String × Json)},
    (∀ value, .number value ∈ membersNumbers members → change value = value) →
      mapMembers change members = members
  | [], _ => rfl
  | (key, item) :: rest, fixed => by
      rw [membersNumbers] at fixed
      have here := mapNumbers_eq_self fun value member =>
        fixed value (List.mem_append_left _ member)
      have later := mapMembers_eq_self fun value member =>
        fixed value (List.mem_append_right _ member)
      rw [mapMembers, here, later]

end

/-- A number gives itself back when it is written alone; a whole number fits into a word. -/
def ReadsBack : Json → Prop
  | .integer value => -(signedLimit : Int) ≤ value ∧ value < wordLimit
  | .number value => readDocument Decoder.number (Json.number value).compact = .ok value
  | _ => True

instance (number : Json) : Decidable number.ReadsBack := by
  cases number <;> unfold ReadsBack <;> infer_instance

/-- A document that is not nested too deep to be read and whose numbers are read back. -/
structure Portable (document : Json) : Prop where
  nesting : document.depth ≤ JsonReader.depthLimit
  numbers : ∀ number ∈ document.numbers, number.ReadsBack

instance (document : Json) : Decidable document.Portable :=
  decidable_of_iff
    (document.depth ≤ JsonReader.depthLimit ∧ ∀ number ∈ document.numbers, number.ReadsBack)
    ⟨fun ⟨nesting, numbers⟩ => ⟨nesting, numbers⟩, fun portable => ⟨portable.nesting, portable.numbers⟩⟩

def reread (number : Float) : Float :=
  (readDocument Decoder.number (Json.number number).compact).toOption.getD number

def Readable : Json → Prop
  | .integer value => -(signedLimit : Int) ≤ value ∧ value < wordLimit
  | .number value => readDocument Decoder.number (Json.number value).compact = .ok (reread value)
  | _ => True

theorem readable_of_read {number other : Float}
    (read : readDocument Decoder.number (Json.number number).compact = .ok other) :
    (Json.number number).Readable := by
  rw [Readable, reread, read]
  rfl

theorem readsBack_iff {number : Float} (readable : (Json.number number).Readable) :
    (Json.number number).ReadsBack ↔ reread number = number := by
  rw [Readable] at readable
  rw [ReadsBack, readable, Except.ok.injEq]

theorem ReadsBack.readable {number : Json} (readsBack : number.ReadsBack) : number.Readable := by
  cases number with
  | number value => exact readable_of_read readsBack
  | integer value => exact readsBack
  | _ => trivial

end Json

/-! ### Written values that hold documents -/

mutual

/-- A value in a text is complete and is that of a document. -/
inductive WrittenJson.Holds : WrittenJson → Json → Prop where
  | scalar {document : Json} (start rest : List Char) (isScalar : document.isScalar = true) :
      WrittenJson.Holds (.scalar start (.ok document) rest) document
  | array {items : WrittenItems} {documents : List Json} (start : List Char)
      (held : items.Holds documents) : WrittenJson.Holds (.array start items) (.array documents)
  | object {members : WrittenMembers} {documents : List (String × Json)} (start : List Char)
      (held : members.Holds documents) :
      WrittenJson.Holds (.object start members) (.object documents)

inductive WrittenItems.Holds : WrittenItems → List Json → Prop where
  | closed (rest : List Char) : WrittenItems.Holds (.closed rest) []
  | item {value : WrittenJson} {later : WrittenItems} {document : Json} {documents : List Json}
      (held : value.Holds document) (heldLater : later.Holds documents) :
      WrittenItems.Holds (.item value later) (document :: documents)

inductive WrittenMembers.Holds : WrittenMembers → List (String × Json) → Prop where
  | closed (rest : List Char) : WrittenMembers.Holds (.closed rest) []
  | member {key : JsonKey} {value : WrittenJson} {later : WrittenMembers} {name : String}
      {document : Json} {documents : List (String × Json)} (named : key.text = .ok name)
      (held : value.Holds document) (heldLater : later.Holds documents) :
      WrittenMembers.Holds (.member key value later) ((name, document) :: documents)

end

/-! ### Marks -/

theorem JsonToken.cut_mark {letter : Char} {token : JsonToken}
    (isMark : punctuation? letter = some token) (rest : List Char) :
    cut (letter :: rest) = (token, letter :: rest, rest) :: cut rest := by
  have noBlank : isBlank letter = false := by
    apply Bool.eq_false_iff.mpr
    intro blank
    rcases eq_of_isBlank blank with rfl | rfl | rfl | rfl <;> cases isMark
  rw [cut, noBlank, first, isMark]
  rfl

theorem ends_mark {letter : Char} {token : JsonToken}
    (isMark : JsonToken.punctuation? letter = some token) (rest : List Char) :
    Ends (letter :: rest) := by
  refine Lexeme.ends_cons ?_ ?_ rest
  · unfold JsonToken.punctuation? at isMark
    split at isMark <;> cases isMark <;> rfl
  · rintro rfl
    cases isMark

namespace JsonReader

/-! ### One step -/

/-- What becomes of a reader that read one token, with the tokens behind it. -/
def proceed (progress : JsonProgress) (later : List (JsonToken × List Char × List Char)) :
    WrittenJson × Option JsonFault :=
  match progress with
  | .reading next => next.run later
  | .stopped value => (value, none)
  | .complete value =>
      match later with
      | [] => (value, none)
      | (_, trailing, _) :: _ => (value, some (.here trailing))

theorem run_cons (reader : JsonReader) (token : JsonToken) (text rest : List Char)
    (later : List (JsonToken × List Char × List Char)) :
    reader.run ((token, text, rest) :: later) = proceed (reader.step token text rest) later := by
  rw [run]
  rfl

def TakesValue (reader : JsonReader) : Prop := reader.wait = .value ∨ reader.wait = .firstItem

theorem run_of_takesValue {reader : JsonReader} (due : reader.TakesValue) {token : JsonToken}
    (notClosing : token ≠ .closeArray) (text rest : List Char)
    (later : List (JsonToken × List Char × List Char)) :
    reader.run ((token, text, rest) :: later) =
      proceed (reader.readValue token text rest) later := by
  obtain ⟨frames, wait⟩ := reader
  rw [run_cons]
  rcases due with rfl | rfl
  · rfl
  · cases token with
    | closeArray => exact absurd rfl notClosing
    | _ => rfl

theorem run_key {outer : List JsonFrame} {opening : List Char}
    {earlier : List (JsonKey × WrittenJson)} {before : JsonKey} {wait : JsonWait}
    (due : wait = .firstKey ∨ ∃ comma, wait = .key comma) (name : String) (behind : List Char) :
    ∃ key : JsonKey, key.text = .ok name ∧
      run { frames := .object opening earlier before :: outer, wait := wait }
          (JsonToken.cut (Json.stringText name ++ ':' :: behind)) =
        run { frames := .object opening earlier key :: outer, wait := .value }
          (JsonToken.cut behind) := by
  rw [JsonToken.cut_stringText, JsonToken.cut_mark rfl, run_cons]
  rcases due with rfl | ⟨comma, rfl⟩
  · exact ⟨⟨Json.stringText name ++ ':' :: behind, .ok name, ':' :: behind⟩, rfl, rfl⟩
  · exact ⟨⟨comma, .ok name, ':' :: behind⟩, rfl, rfl⟩

theorem nested_of_fits {outer : List JsonFrame} {depth : Nat}
    (fits : outer.length + 1 + depth ≤ depthLimit) (container : WrittenJson) :
    nested outer container = container := by
  rw [nested, if_pos (by omega)]

/-! ### Documents -/

/-- The reader completes a value that holds the document and goes on behind its text. -/
def Completes (reader : JsonReader) (text : List Char) (document : Json) (rest : List Char) : Prop :=
  ∃ written : WrittenJson, written.Holds document ∧
    reader.run (JsonToken.cut (text ++ rest)) =
      proceed (place reader.frames written) (JsonToken.cut rest)

theorem completes_scalar {reader : JsonReader} {text rest : List Char} {document : Json}
    (due : reader.TakesValue) (isScalar : document.isScalar = true)
    (cuts : JsonToken.cut (text ++ rest) =
      (.scalar (.ok document), text ++ rest, rest) :: JsonToken.cut rest) :
    reader.Completes text document rest := by
  refine ⟨_, .scalar (text ++ rest) rest isScalar, ?_⟩
  rw [cuts, run_of_takesValue due]
  · rfl
  · nofun

def CompletesItems (wait : JsonWait) (items : List Json) (rest : List Char) : Prop :=
  ∀ (start : List Char) (outer : List JsonFrame) (earlier : List WrittenJson),
    outer.length + 1 + Json.itemsDepth items ≤ depthLimit →
    ∃ written : WrittenItems, written.Holds (Json.mapItems Json.reread items) ∧
      run { frames := .array start earlier :: outer, wait := wait }
          (JsonToken.cut (Json.compactItems items ++ ']' :: rest)) =
        proceed (place outer (JsonFrame.finishArray start earlier written)) (JsonToken.cut rest)

def CompletesMembers (wait : JsonWait) (members : List (String × Json)) (rest : List Char) : Prop :=
  ∀ (start : List Char) (outer : List JsonFrame) (earlier : List (JsonKey × WrittenJson))
    (before : JsonKey), outer.length + 1 + Json.membersDepth members ≤ depthLimit →
    ∃ written : WrittenMembers, written.Holds (Json.mapMembers Json.reread members) ∧
      run { frames := .object start earlier before :: outer, wait := wait }
          (JsonToken.cut (Json.compactMembers members ++ '\x7d' :: rest)) =
        proceed (place outer (JsonFrame.finishObject start earlier written)) (JsonToken.cut rest)

mutual

theorem completes_document : ∀ (document : Json) (reader : JsonReader) (rest : List Char),
    reader.TakesValue → reader.frames.length + document.depth ≤ depthLimit →
    (∀ number ∈ document.numbers, number.Readable) → Ends rest →
    reader.Completes (Json.compactText document) (document.mapNumbers Json.reread) rest
  | .null, reader, rest, due, _, _, _ =>
      completes_scalar due rfl (JsonToken.cut_literal rfl rest)
  | .boolean true, reader, rest, due, _, _, _ =>
      completes_scalar due rfl (JsonToken.cut_literal rfl rest)
  | .boolean false, reader, rest, due, _, _, _ =>
      completes_scalar due rfl (JsonToken.cut_literal rfl rest)
  | .integer value, reader, rest, due, _, reads, ends => by
      obtain ⟨above, below⟩ := reads (.integer value) List.mem_cons_self
      obtain ⟨parts, wellFormed, text, read⟩ := JsonNumber.exists_parts_integerText above below
      apply completes_scalar due rfl
      rw [Json.compactText, ← text, JsonToken.cut_numeral wellFormed ends, read]
      rfl
  | .number value, reader, rest, due, _, reads, ends => by
      have readable := reads (.number value) List.mem_cons_self
      apply completes_scalar due rfl
      rw [Json.compactText, JsonToken.cut_numberText readable ends]
      rfl
  | .string text, reader, rest, due, _, _, _ => by
      refine ⟨_, .scalar (Json.stringText text ++ rest) rest rfl, ?_⟩
      rw [Json.compactText, JsonToken.cut_stringText, run_of_takesValue due]
      · rfl
      · nofun
  | .array items, reader, rest, due, fits, reads, _ => by
      rw [Json.depth, Nat.add_comm _ 1, ← Nat.add_assoc] at fits
      have text : Json.compactText (.array items) ++ rest =
          '[' :: (Json.compactItems items ++ ']' :: rest) := by simp [Json.compactText]
      obtain ⟨written, held, read⟩ := completes_items items .firstItem rest (Or.inl rfl) reads
        (Json.compactText (.array items) ++ rest) reader.frames [] fits
      refine ⟨_, .array (Json.compactText (.array items) ++ rest) held, ?_⟩
      rw [text] at read ⊢
      rw [JsonToken.cut_mark rfl, run_of_takesValue due]
      · exact read
      · nofun
  | .object members, reader, rest, due, fits, reads, _ => by
      rw [Json.depth, Nat.add_comm _ 1, ← Nat.add_assoc] at fits
      have text : Json.compactText (.object members) ++ rest =
          '\x7b' :: (Json.compactMembers members ++ '\x7d' :: rest) := by simp [Json.compactText]
      obtain ⟨written, held, read⟩ := completes_members members .firstKey rest (Or.inl rfl) reads
        (Json.compactText (.object members) ++ rest) reader.frames [] default fits
      refine ⟨_, .object (Json.compactText (.object members) ++ rest) held, ?_⟩
      rw [text] at read ⊢
      rw [JsonToken.cut_mark rfl, run_of_takesValue due]
      · exact read
      · nofun

theorem completes_items : ∀ (items : List Json) (wait : JsonWait) (rest : List Char),
    wait = .firstItem ∨ wait = .value ∧ items ≠ [] →
    (∀ number ∈ Json.itemsNumbers items, number.Readable) →
    CompletesItems wait items rest
  | [], wait, rest, due, _ => by
      intro start outer earlier fits
      -- The end of an empty array is met where its first item is due.
      obtain rfl : wait = .firstItem := due.resolve_right fun impossible => impossible.2 rfl
      refine ⟨_, .closed rest, ?_⟩
      rw [Json.compactItems, List.nil_append, JsonToken.cut_mark rfl, run_cons,
        ← nested_of_fits fits (JsonFrame.finishArray start earlier (.closed rest))]
      rfl
  | [item], wait, rest, due, reads => by
      intro start outer earlier fits
      rw [Json.itemsDepth] at fits
      rw [Json.itemsNumbers] at reads
      obtain ⟨written, held, read⟩ := completes_document item
        { frames := .array start earlier :: outer, wait := wait } (']' :: rest)
        (due.symm.imp And.left id) (by simp only [List.length_cons]; omega)
        (fun number member => reads number (List.mem_append_left _ member)) (ends_mark rfl rest)
      refine ⟨_, .item held (.closed rest), ?_⟩
      rw [Json.compactItems, read, JsonToken.cut_mark rfl, place, proceed, run_cons,
        ← nested_of_fits fits (JsonFrame.finishArray start earlier _)]
      rfl
  | item :: next :: more, wait, rest, due, reads => by
      intro start outer earlier fits
      rw [Json.itemsDepth] at fits
      rw [Json.itemsNumbers] at reads
      have text : Json.compactItems (item :: next :: more) ++ ']' :: rest =
          Json.compactText item ++ ',' :: (Json.compactItems (next :: more) ++ ']' :: rest) := by
        simp [Json.compactItems]
      obtain ⟨written, held, read⟩ := completes_document item
        { frames := .array start earlier :: outer, wait := wait }
        (',' :: (Json.compactItems (next :: more) ++ ']' :: rest))
        (due.symm.imp And.left id) (by simp only [List.length_cons]; omega)
        (fun number member => reads number (List.mem_append_left _ member)) (ends_mark rfl _)
      -- Behind the comma the reader is inside the same array, which has one more item.
      obtain ⟨later, heldLater, readLater⟩ := completes_items (next :: more) .value rest
        (Or.inr ⟨rfl, List.cons_ne_nil next more⟩)
        (fun number member => reads number (List.mem_append_right _ member))
        start outer (written :: earlier) (by omega)
      refine ⟨_, .item held heldLater, ?_⟩
      rw [text, read, JsonToken.cut_mark rfl, place, proceed, run_cons]
      exact readLater

theorem completes_members : ∀ (members : List (String × Json)) (wait : JsonWait) (rest : List Char),
    wait = .firstKey ∨ (∃ comma, wait = .key comma) ∧ members ≠ [] →
    (∀ number ∈ Json.membersNumbers members, number.Readable) →
    CompletesMembers wait members rest
  | [], wait, rest, due, _ => by
      intro start outer earlier before fits
      obtain rfl : wait = .firstKey := due.resolve_right fun impossible => impossible.2 rfl
      refine ⟨_, .closed rest, ?_⟩
      rw [Json.compactMembers, List.nil_append, JsonToken.cut_mark rfl, run_cons,
        ← nested_of_fits fits (JsonFrame.finishObject start earlier (.closed rest))]
      rfl
  | [(name, value)], wait, rest, due, reads => by
      intro start outer earlier before fits
      rw [Json.membersDepth] at fits
      rw [Json.membersNumbers] at reads
      have text : Json.compactMembers [(name, value)] ++ '\x7d' :: rest =
          Json.stringText name ++ ':' :: (Json.compactText value ++ '\x7d' :: rest) := by
        simp [Json.compactMembers]
      obtain ⟨key, named, keyed⟩ := run_key (due.imp id And.left) name
        (Json.compactText value ++ '\x7d' :: rest)
      obtain ⟨written, held, read⟩ := completes_document value
        { frames := .object start earlier key :: outer, wait := .value } ('\x7d' :: rest)
        (Or.inl rfl) (by simp only [List.length_cons]; omega)
        (fun number member => reads number (List.mem_append_left _ member)) (ends_mark rfl rest)
      refine ⟨_, .member named held (.closed rest), ?_⟩
      rw [text, keyed, read, JsonToken.cut_mark rfl, place, proceed, run_cons,
        ← nested_of_fits fits (JsonFrame.finishObject start earlier _)]
      rfl
  | (name, value) :: next :: more, wait, rest, due, reads => by
      intro start outer earlier before fits
      rw [Json.membersDepth] at fits
      rw [Json.membersNumbers] at reads
      have text : Json.compactMembers ((name, value) :: next :: more) ++ '\x7d' :: rest =
          Json.stringText name ++ ':' :: (Json.compactText value ++
            ',' :: (Json.compactMembers (next :: more) ++ '\x7d' :: rest)) := by
        simp [Json.compactMembers]
      obtain ⟨key, named, keyed⟩ := run_key (due.imp id And.left) name
        (Json.compactText value ++ ',' :: (Json.compactMembers (next :: more) ++ '\x7d' :: rest))
      obtain ⟨written, held, read⟩ := completes_document value
        { frames := .object start earlier key :: outer, wait := .value }
        (',' :: (Json.compactMembers (next :: more) ++ '\x7d' :: rest))
        (Or.inl rfl) (by simp only [List.length_cons]; omega)
        (fun number member => reads number (List.mem_append_left _ member)) (ends_mark rfl _)
      obtain ⟨later, heldLater, readLater⟩ := completes_members (next :: more)
        (.key (',' :: (Json.compactMembers (next :: more) ++ '\x7d' :: rest))) rest
        (Or.inr ⟨⟨_, rfl⟩, List.cons_ne_nil next more⟩)
        (fun number member => reads number (List.mem_append_right _ member))
        start outer ((key, written) :: earlier) key (by omega)
      refine ⟨_, .member named held heldLater, ?_⟩
      rw [text, keyed, read, JsonToken.cut_mark rfl, place, proceed, run_cons]
      exact readLater

end

end JsonReader

/-- The compact text of a document is read as a value that holds what its numbers are read as. -/
theorem readJson_compactText {document : Json} (nesting : document.depth ≤ JsonReader.depthLimit)
    (readable : ∀ number ∈ document.numbers, number.Readable) :
    ∃ written : WrittenJson, written.Holds (document.mapNumbers Json.reread) ∧
      readJson (Json.compactText document) = (written, none) := by
  obtain ⟨written, held, read⟩ := JsonReader.completes_document document .start [] (Or.inl rfl)
    (by simpa [JsonReader.start] using nesting) readable Lexeme.ends_nil
  rw [List.append_nil, JsonToken.cut] at read
  exact ⟨written, held, read⟩

theorem Json.Portable.mapNumbers_reread {document : Json} (portable : document.Portable) :
    document.mapNumbers reread = document := by
  apply mapNumbers_eq_self
  intro value member
  have readsBack := portable.numbers _ member
  exact (readsBack_iff readsBack.readable).mp readsBack

end RelationalLayout
