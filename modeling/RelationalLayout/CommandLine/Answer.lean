/-
The answers of commands, as documents and as lines of text.
-/

import RelationalLayout.CommandLine.Arguments
import RelationalLayout.Document.Inference
import RelationalLayout.Document.Instance

namespace RelationalLayout

def InferredRule.text (inferred : InferredRule Float) : String :=
  inferred.rule.text ++ "; confidence = " ++ plainNumber inferred.confidence

def Point.text (point : Point Float) : String :=
  "(" ++ fixedNumber 1 point.x ++ ", " ++ fixedNumber 1 point.y ++ ")"

def Diagram.lines (diagram : Diagram Float) : List String :=
  diagram.entries.map (fun (atom, point) => atom ++ ": " ++ point.text)

abbrev Verdict := Except TypeError TypeEnv

def Verdict.text : Verdict → String
  | .ok env =>
      let typings := env.entries.map (fun (variableName, signature) =>
        variableName ++ " : " ++ signature)
      "ok (" ++ String.intercalate ", " typings ++ ")"
  | .error fault => fault.message

inductive Answer where
  | checked (verdicts : List Verdict)
  | compiled (layouts : List GroundLayout)
  | inferred (rules : List (InferredRule Float))
  | arranged (diagram : Diagram Float)
  | synthesized (rules : List (InferredRule Float)) (diagram : Diagram Float)

namespace Answer

def verdictLines (verdicts : List Verdict) : List String :=
  verdicts.zipIdx.map (fun (verdict, number) =>
    "rule " ++ Nat.repr number ++ ": " ++ verdict.text)

def lines : Answer → List String
  | .checked verdicts => verdictLines verdicts
  | .compiled layouts => layouts.map Layout.text
  | .inferred rules => rules.map InferredRule.text
  | .arranged diagram => diagram.lines
  | .synthesized rules diagram => rules.map InferredRule.text ++ "" :: diagram.lines

def document? : Answer → Option Json
  | .checked _ => none
  | .compiled layouts => some (.array (layouts.map Layout.document))
  | .inferred rules => some (.array (rules.map InferredRule.document))
  | .arranged diagram => some diagram.document
  | .synthesized rules diagram =>
      some (.object [("inferred", .array (rules.map InferredRule.document)),
        ("diagram", diagram.document)])

def isPositive : Answer → Bool
  | .checked verdicts => verdicts.all Except.toBool
  | _ => true

def text (format : OutputFormat) (answer : Answer) : String :=
  match format, answer.document? with
  | .json, some document => document.indented ++ "\n"
  | _, _ => String.join (answer.lines.map (fun line => line ++ "\n"))

end Answer

end RelationalLayout
