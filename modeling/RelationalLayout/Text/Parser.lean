/-
Parsers that may go back and try another way.

A parser takes tokens from the front of those it is given, or it is refused. Whatever
becomes of it, it reports the furthest place at which a token was refused on any way it
tried, with all that could have stood there instead.
-/

import RelationalLayout.Text.Token

namespace RelationalLayout

/-- What could have stood at a place. Options are not told apart there. -/
inductive Expectation where
  | identifier
  | number
  | layout
  | endOfInput
  | token (token : Token)
deriving DecidableEq

namespace Expectation

def text : Expectation → String
  | .identifier => "identifier"
  | .number => "number"
  | .layout => "layout"
  | .endOfInput => "end of input"
  | .token expected => expected.description

def insert (other : Expectation) : List Expectation → List Expectation
  | [] => [other]
  | first :: rest =>
      if first.text < other.text then first :: insert other rest
      else if first.text = other.text then first :: rest
      else other :: first :: rest

def sorted (expected : List Expectation) : List Expectation := expected.foldr insert []

end Expectation

/-- A refused token and those behind it, or the end of the tokens, and what was expected there. -/
structure Refusal (place : Type) where
  left : List (Token × place)
  expected : List Expectation

namespace Refusal

variable {place : Type}

def merge (first second : Refusal place) : Refusal place :=
  { first with
    expected := first.expected ++
      second.expected.filter (fun expectation => expectation ∉ first.expected) }

/-- The one with fewer tokens left. -/
def furthest : Option (Refusal place) → Option (Refusal place) → Option (Refusal place)
  | none, second => second
  | some first, none => some first
  | some first, some second =>
      if first.left.length < second.left.length then some first
      else if second.left.length < first.left.length then some second
      else some (first.merge second)

end Refusal

/-- What a parser makes of the tokens, with the tokens left, and its furthest refusal. -/
structure Attempt (place α : Type) where
  value : Option (α × List (Token × place))
  refusal : Option (Refusal place)

/-- A refusal from before is kept, unless there is one that is further. -/
def Attempt.after {place α : Type} (attempt : Attempt place α)
    (earlier : Option (Refusal place)) : Attempt place α :=
  { attempt with refusal := Refusal.furthest earlier attempt.refusal }

def Parser (place α : Type) : Type := List (Token × place) → Attempt place α

namespace Parser

variable {place α β : Type}

def refuse (expected : List Expectation) : Parser place α := fun tokens =>
  { value := none, refusal := some { left := tokens, expected := expected } }

def andThen (parser : Parser place α) (next : α → Parser place β) : Parser place β := fun tokens =>
  match parser tokens with
  | { value := none, refusal } => { value := none, refusal := refusal }
  | { value := some (value, left), refusal } => (next value left).after refusal

instance : Monad (Parser place) where
  pure value := fun tokens => { value := some (value, tokens), refusal := none }
  bind := andThen

def select (expected : List Expectation) (choose : Token → Option α) : Parser place α
  | [] => refuse expected []
  | token :: rest =>
      match choose token.1 with
      | some value => { value := some (value, rest), refusal := none }
      | none => refuse expected (token :: rest)

def just (token : Token) : Parser place Unit :=
  select [.token token] (fun other => if other = token then some () else none)

def atEnd : Parser place Unit
  | [] => { value := some ((), []), refusal := none }
  | tokens => refuse [.endOfInput] tokens

/-- The second way is tried, from where the first one began, if that is refused. -/
def orElse (first second : Parser place α) : Parser place α := fun tokens =>
  match first tokens with
  | { value := none, refusal } => (second tokens).after refusal
  | attempt => attempt

def optional (parser : Parser place α) : Parser place (Option α) :=
  (some <$> parser).orElse (pure none)

def listOf (parser : Parser place α) (others : Parser place (List α)) : Parser place (List α) :=
  orElse
    (do
      let first ← parser
      let rest ← others
      return first :: rest)
    (pure [])

/-- As often as it goes, but no more than some number of times. -/
def many (parser : Parser place α) : Nat → Parser place (List α)
  | 0 => pure []
  | count + 1 => parser.listOf (parser.many count)

/-- As often as it goes. A parser that takes tokens goes no more often than there are some. -/
def repeated (parser : Parser place α) : Parser place (List α) := fun tokens =>
  parser.many (tokens.length + 1) tokens

def separatedBy (parser : Parser place α) (separator : Parser place Unit) :
    Parser place (List α) :=
  parser.listOf (repeated (do separator; parser))

def parenthesized (parser : Parser place α) : Parser place α := do
  just .openParen
  let value ← parser
  just .closeParen
  return value

/-- What is refused at once is expected under one name. -/
def labelled (parser : Parser place α) (label : Expectation) : Parser place α := fun tokens =>
  let attempt := parser tokens
  { attempt with
    refusal := attempt.refusal.map (fun refusal =>
      if refusal.left.length = tokens.length then { refusal with expected := [label] }
      else refusal) }

end Parser

end RelationalLayout
