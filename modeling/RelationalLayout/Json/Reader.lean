/-
Building values from tokens.

The reader keeps the containers that are open, innermost first. A token that
cannot stand at its place, or a text that ends too early, ends them all where it
was met, so the value holds everything before the fault.
-/

import RelationalLayout.Json.Written

namespace RelationalLayout

/-- An open container with its earlier contents, the latest first. An object has the
key of the member that is being read. -/
inductive JsonFrame where
  | array (start : List Char) (earlier : List WrittenJson)
  | object (start : List Char) (earlier : List (JsonKey × WrittenJson)) (key : JsonKey)

namespace JsonFrame

def addItem (later : WrittenItems) (value : WrittenJson) : WrittenItems := .item value later

def addMember (later : WrittenMembers) (member : JsonKey × WrittenJson) : WrittenMembers :=
  .member member.1 member.2 later

def finishArray (start : List Char) (earlier : List WrittenJson) (ending : WrittenItems) :
    WrittenJson :=
  .array start (earlier.foldl addItem ending)

def finishObject (start : List Char) (earlier : List (JsonKey × WrittenJson))
    (ending : WrittenMembers) : WrittenJson :=
  .object start (earlier.foldl addMember ending)

end JsonFrame

inductive JsonWait where
  | value
  | firstItem
  /-- A first key, or the end of an empty object. -/
  | firstKey
  | key (comma : List Char)
  | colon (start : List Char) (key : Except JsonFault String)
  | separator

structure JsonReader where
  frames : List JsonFrame
  wait : JsonWait

inductive JsonProgress where
  | reading (reader : JsonReader)
  | complete (value : WrittenJson)
  | stopped (value : WrittenJson)

namespace JsonReader

def depthLimit : Nat := 127

def start : JsonReader := { frames := [], wait := .value }

def nested (outer : List JsonFrame) (container : WrittenJson) : WrittenJson :=
  if outer.length < depthLimit then container else .deep container

def place (frames : List JsonFrame) (value : WrittenJson) : JsonProgress :=
  match frames with
  | [] => .complete value
  | .array start earlier :: outer =>
      .reading { frames := .array start (value :: earlier) :: outer, wait := .separator }
  | .object start earlier key :: outer =>
      .reading
        { frames := .object start ((key, value) :: earlier) key :: outer, wait := .separator }

/-- Ends all containers around a value that does not end itself, where `text` is left. -/
def stopAround (text : List Char) (value : WrittenJson) : List JsonFrame → JsonProgress
  | [] => .stopped value
  | .array start earlier :: outer =>
      stopAround text (nested outer (JsonFrame.finishArray start (value :: earlier) (.broken text)))
        outer
  | .object start earlier key :: outer =>
      stopAround text
        (nested outer (JsonFrame.finishObject start ((key, value) :: earlier)
          (.broken text (.always (.here text)))))
        outer

def stopAtValue (reader : JsonReader) (text : List Char) (stop : JsonBreak) : JsonProgress :=
  stopAround text (.broken text stop) reader.frames

/-- Stops between two values, or at a key; `start` is left from the comma before it on. -/
def stopBetween (reader : JsonReader) (start text : List Char) (stop : JsonBreak) : JsonProgress :=
  match reader.frames with
  | [] => .stopped (.broken text stop)
  | .array opening earlier :: outer =>
      stopAround text (nested outer (JsonFrame.finishArray opening earlier (.broken text))) outer
  | .object opening earlier _ :: outer =>
      stopAround text (nested outer (JsonFrame.finishObject opening earlier (.broken start stop)))
        outer

def stopHere (reader : JsonReader) (text : List Char) : JsonProgress :=
  reader.stopBetween text text (.always (.here text))

def openFrame (reader : JsonReader) (frame : JsonFrame) (wait : JsonWait) : JsonProgress :=
  .reading { frames := frame :: reader.frames, wait := wait }

def closeFrame (reader : JsonReader) (token : JsonToken) (text rest : List Char) : JsonProgress :=
  match token, reader.frames with
  | .closeArray, .array start earlier :: outer =>
      place outer (nested outer (JsonFrame.finishArray start earlier (.closed rest)))
  | .closeObject, .object start earlier _ :: outer =>
      place outer (nested outer (JsonFrame.finishObject start earlier (.closed rest)))
  | _, _ => reader.stopHere text

def readValue (reader : JsonReader) (token : JsonToken) (text rest : List Char) : JsonProgress :=
  match token with
  | .openArray => reader.openFrame (.array text []) .firstItem
  | .openObject => reader.openFrame (.object text [] default) .firstKey
  | .string value => place reader.frames (.scalar text (value.map .string) rest)
  | .scalar value => place reader.frames (.scalar text value rest)
  | .brokenScalar stop => reader.stopAtValue text stop
  | .brokenString stop => reader.stopAtValue text stop
  | _ => reader.stopAtValue text (.always (.here text))

def readKey (reader : JsonReader) (start : List Char) (token : JsonToken) (text : List Char) :
    JsonProgress :=
  match token with
  | .string key => .reading { reader with wait := .colon start key }
  | .brokenString stop => reader.stopBetween start text stop
  | _ => reader.stopBetween start text (.always (.here text))

/-- What is left where a reader stops that looks for the end of an object. -/
def behindEnd (token : JsonToken) (text rest : List Char) : List Char :=
  match token with
  | .closeObject => rest
  | _ => text

/-- Reads a token where a colon is due; all else stands in place of the value. -/
def readColon (reader : JsonReader) (start : List Char) (key : Except JsonFault String)
    (token : JsonToken) (text rest : List Char) : JsonProgress :=
  match reader.frames with
  | .object opening earlier _ :: outer =>
      let key : JsonKey := { start := start, text := key, rest := behindEnd token text rest }
      let reader : JsonReader := { frames := .object opening earlier key :: outer, wait := .value }
      match token with
      | .colon => .reading reader
      | _ => reader.stopAtValue text (.always (.here text))
  | _ => reader.stopHere text

def afterComma (frames : List JsonFrame) (comma : List Char) : JsonWait :=
  match frames with
  | .object _ _ _ :: _ => .key comma
  | _ => .value

def step (reader : JsonReader) (token : JsonToken) (text rest : List Char) : JsonProgress :=
  match reader.wait, token with
  | .value, token => reader.readValue token text rest
  | .firstItem, .closeArray => reader.closeFrame .closeArray text rest
  | .firstItem, token => reader.readValue token text rest
  | .firstKey, .closeObject => reader.closeFrame .closeObject text rest
  | .firstKey, token => reader.readKey text token text
  | .key comma, token => reader.readKey comma token text
  | .colon start key, token => reader.readColon start key token text rest
  | .separator, .comma => .reading { reader with wait := afterComma reader.frames text }
  | .separator, token => reader.closeFrame token text rest

/-- The value of a text that ends inside of it. -/
def finish (reader : JsonReader) : JsonProgress :=
  let stop : JsonBreak := .always .atEnd
  match reader.wait with
  | .value => reader.stopAtValue [] stop
  | .key comma => reader.stopBetween comma [] stop
  | .colon start key => reader.readColon start key .stray [] []
  | _ => reader.stopBetween [] [] stop

/-- Reads tokens until the value is complete. What follows it is a fault. -/
def run (reader : JsonReader) :
    List (JsonToken × List Char × List Char) → WrittenJson × Option JsonFault
  | [] =>
      match reader.finish with
      | .stopped value => (value, none)
      | _ => (.broken [] (.always .atEnd), none)
  | (token, text, rest) :: later =>
      match reader.step token text rest with
      | .reading next => run next later
      | .stopped value => (value, none)
      | .complete value =>
          match later with
          | [] => (value, none)
          | (_, trailing, _) :: _ => (value, some (.here trailing))

end JsonReader

def readJson (source : List Char) : WrittenJson × Option JsonFault :=
  JsonReader.start.run (JsonToken.cut source)

end RelationalLayout
