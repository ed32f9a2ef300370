/-
Carrying out what the command line asks for.

Settings are read first and the other files in the order in which the command
lists them; the first that cannot be used ends it. The outcome says what goes to
each of the two output streams and how the program exits.
-/

import RelationalLayout.CommandLine.Answer
import RelationalLayout.Pipeline

namespace RelationalLayout

inductive Failure where
  | settings (path : String) (error : LoadError)
  | load (error : LoadError)
  | pipeline (error : PipelineError)
deriving DecidableEq

def Failure.lines : Failure → List String
  | .settings path error => ["Error: loading config '" ++ path ++ "': " ++ error.message]
  | .load error => error.headlines
  | .pipeline error => ["Error: " ++ error.message]

structure Outcome where
  code : Nat
  output : String
  report : String
deriving DecidableEq

namespace Files

variable (files : Files)

def source (path : String) : Except LoadError String :=
  (files path).mapError (.unreadable path)

def document {α : Type} (decode : Decoder α) (path : String) : Except Failure α :=
  (files.source path >>= loadDocument decode path).mapError .load

def program (path : String) : Except Failure Program :=
  (files.source path >>= loadProgram path).mapError .load

/-- The settings in a file; without a file, those meant by default. -/
def settings : Option String → Except Failure Settings
  | none => .ok .default
  | some path => (files.source path >>= loadSettings).mapError (.settings path)

end Files

namespace Command

def answer (files : Files) (settings : Settings) : Command → Except Failure Answer
  | .check schema program => do
      let schema ← files.document Schema.decode schema
      let program ← files.program program
      .ok (.checked (List.map (Rule.check schema) program))
  | .compile schema world program => do
      let schema ← files.document Schema.decode schema
      let world ← files.document Instance.decode world
      let program ← files.program program
      let layouts ← (Pipeline.compile schema world program).mapError .pipeline
      .ok (.compiled layouts)
  | .infer schema world diagram bound => do
      let schema ← files.document Schema.decode schema
      let world ← files.document Instance.decode world
      let diagram ← files.document Diagram.decode diagram
      let inference :=
        { settings.inference with bound := bound.getD settings.inference.bound }
      let rules ← (Pipeline.infer schema world diagram inference).mapError .pipeline
      .ok (.inferred rules)
  | .arrange schema world program => do
      let schema ← files.document Schema.decode schema
      let world ← files.document Instance.decode world
      let program ← files.program program
      let diagram ← (Pipeline.arrange schema world program settings.staging).mapError .pipeline
      .ok (.arranged diagram)
  | .synthesize schema sample diagram target => do
      let schema ← files.document Schema.decode schema
      let sample ← files.document Instance.decode sample
      let diagram ← files.document Diagram.decode diagram
      let target ← files.document Instance.decode target
      let made ← (Pipeline.synthesize schema sample diagram target settings).mapError .pipeline
      .ok (.synthesized made.inferred made.diagram)

end Command

namespace Invocation

def answer (files : Files) (invocation : Invocation) : Except Failure Answer := do
  let settings ← files.settings invocation.settings
  invocation.command.answer files settings

def run (files : Files) (invocation : Invocation) : Outcome :=
  match invocation.answer files with
  | .ok answer =>
      { code := if answer.isPositive then 0 else 1
        output := answer.text invocation.format
        report := "" }
  | .error failure =>
      { code := 1
        output := ""
        report := String.join (failure.lines.map (fun line => line ++ "\n")) }

end Invocation

def runArguments (files : Files) (arguments : List String) : Outcome :=
  match Invocation.ofArguments arguments with
  | .ok invocation => invocation.run files
  | .error .help => { code := 0, output := usage, report := "" }
  | .error (.misuse error) =>
      { code := 2, output := "", report := "error: " ++ error.message ++ "\n\n" ++ usage }

def pathsOfArguments (arguments : List String) : List String :=
  match Invocation.ofArguments arguments with
  | .ok invocation => invocation.paths
  | .error _ => []

end RelationalLayout
