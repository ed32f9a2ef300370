/-
Reading programs from text, with the errors of texts that are none.

A text with a stretch that is no token is refused for its stretches alone.
Otherwise there is at most one error, at the furthest token that the parser
refused, or behind the text when it came to the end of it.
-/

import RelationalLayout.Text.Syntax

namespace RelationalLayout

inductive SyntaxFault where
  | unrecognized (text : String)
  | unexpected (found : Option Token) (expected : List Expectation)
deriving DecidableEq

structure SyntaxError where
  span : Span
  fault : SyntaxFault
deriving DecidableEq

namespace SyntaxError

def message (error : SyntaxError) : String :=
  match error.fault with
  | .unrecognized text => "Unrecognized input '" ++ text ++ "'"
  | .unexpected (some token) _ => "Unexpected " ++ token.description
  | .unexpected none _ => "Unexpected end of input"

def expected (error : SyntaxError) : List String :=
  match error.fault with
  | .unrecognized _ => []
  | .unexpected _ expectations => expectations.map Expectation.text

def text (error : SyntaxError) : String :=
  "Parse error at " ++ Nat.repr error.span.start ++ ".." ++ Nat.repr error.span.stop ++ ": " ++
    error.message

end SyntaxError

def unrecognizedStretches (lexemes : List (Lexeme × Span)) : List SyntaxError :=
  lexemes.filterMap (fun
    | (.unrecognized text, span) =>
        some { span := span, fault := .unrecognized (String.ofList text) }
    | _ => none)

def placedTokens (lexemes : List (Lexeme × Span)) : List (Token × Span) :=
  lexemes.filterMap (fun item => item.1.token?.map (fun token => (token, item.2)))

def readTokens (source : String) : Except (List SyntaxError) (List (Token × Span)) :=
  let lexemes := Lexeme.place 0 (Lexeme.cut source.toList)
  match unrecognizedStretches lexemes with
  | [] => .ok (placedTokens lexemes)
  | errors => .error errors

/-- The place of an error behind the text: it starts where the text ends, and ends
where the last token ends. -/
def endSpan (source : String) (tokens : List (Token × Span)) : Span :=
  { start := byteWidth source.toList
    stop := match tokens.getLast? with
      | some token => token.2.stop
      | none => 0 }

def Refusal.error (source : String) (tokens : List (Token × Span)) (refusal : Refusal Span) :
    SyntaxError :=
  match refusal.left with
  | token :: _ =>
      { span := token.2
        fault := .unexpected (some token.1) (Expectation.sorted refusal.expected) }
  | [] =>
      { span := endSpan source tokens
        fault := .unexpected none (Expectation.sorted refusal.expected) }

def readProgram (source : String) : Except (List SyntaxError) Program := do
  let tokens ← readTokens source
  match Parser.program tokens with
  | { value := some (program, _), .. } => .ok program
  | { value := none, refusal } =>
      .error (refusal.toList.map (Refusal.error source tokens))

end RelationalLayout
