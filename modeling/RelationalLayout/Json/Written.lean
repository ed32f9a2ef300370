/-
Values as they are written in a text, complete or broken off.

A text that is not JSON is still read as far as it goes: its value then is broken
where reading had to stop. Values know what is left of the text where they start,
and containers what is left behind them, so that what readers find wrong can be
placed. A reader who skips a value overlooks faults that one who uses it meets.
-/

import RelationalLayout.Json.Lexeme

namespace RelationalLayout

/-- The key of a member. -/
structure JsonKey where
  /-- What is left of the text from the comma before the key on, or from a first key. -/
  start : List Char
  text : Except JsonFault String
  /-- What is left from the next token on, but behind the end of an object. -/
  rest : List Char
deriving Inhabited

mutual

inductive WrittenJson where
  | scalar (start : List Char) (value : Except JsonFault Json) (rest : List Char)
  | array (start : List Char) (items : WrittenItems)
  | object (start : List Char) (members : WrittenMembers)
  /-- A container inside too many others to be used. -/
  | deep (container : WrittenJson)
  | broken (start : List Char) (stop : JsonBreak)

/-- Items up to the end of their array, or up to what cannot stand between two. -/
inductive WrittenItems where
  | closed (rest : List Char)
  | broken (start : List Char)
  | item (value : WrittenJson) (later : WrittenItems)

inductive WrittenMembers where
  | closed (rest : List Char)
  | broken (start : List Char) (stop : JsonBreak)
  | member (key : JsonKey) (value : WrittenJson) (later : WrittenMembers)

end

instance : Inhabited WrittenJson := ⟨.broken [] default⟩

/-! ### Places -/

def WrittenJson.start : WrittenJson → List Char
  | .scalar start _ _ => start
  | .array start _ => start
  | .object start _ => start
  | .deep container => container.start
  | .broken start _ => start

/-- What is left from the next item on, or behind the array. -/
def WrittenItems.start : WrittenItems → List Char
  | .closed rest => rest
  | .broken start => start
  | .item value _ => value.start

def WrittenMembers.start : WrittenMembers → List Char
  | .closed rest => rest
  | .broken start _ => start
  | .member key _ _ => key.start

def WrittenMembers.rest : WrittenMembers → List Char
  | .closed rest => rest
  | .broken start _ => start
  | .member _ _ later => later.rest

/-! ### Skipping and capturing -/

mutual

def WrittenJson.skip : WrittenJson → Except JsonFault Unit
  | .scalar _ _ _ => .ok ()
  | .array _ items => items.skip
  | .object _ members => members.skip
  | .deep container => container.skip
  | .broken _ stop => .error stop.skipped

def WrittenItems.skip : WrittenItems → Except JsonFault Unit
  | .closed _ => .ok ()
  | .broken start => .error (.here start)
  | .item value later => do
      value.skip
      later.skip

def WrittenMembers.skip : WrittenMembers → Except JsonFault Unit
  | .closed _ => .ok ()
  | .broken _ stop => .error stop.skipped
  | .member _ value later => do
      value.skip
      later.skip

end

mutual

def WrittenJson.capture : WrittenJson → Except JsonFault Json
  | .scalar _ value _ => value
  | .array _ items => items.capture.map .array
  | .object _ members => members.capture.map .object
  | .deep container => .error (.here container.start)
  | .broken _ stop => .error stop.used

def WrittenItems.capture : WrittenItems → Except JsonFault (List Json)
  | .closed _ => .ok []
  | .broken start => .error (.here start)
  | .item value later => do .ok ((← value.capture) :: (← later.capture))

def WrittenMembers.capture : WrittenMembers → Except JsonFault (List (String × Json))
  | .closed _ => .ok []
  | .broken _ stop => .error stop.used
  | .member key value later => do .ok ((← key.text, ← value.capture) :: (← later.capture))

end

end RelationalLayout
