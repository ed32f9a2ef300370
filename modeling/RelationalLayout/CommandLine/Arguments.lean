/-
Reading the arguments of the command line.

Options of all commands may stand before the command and behind it; of two such
options the one behind counts. All other options belong to one command and stand
behind it. Every option has a value, joined to its name or in the next argument.
An argument that begins with a dash is no value, unless it is nothing but a dash.
-/

import RelationalLayout.Text.Lexeme

namespace RelationalLayout

inductive OutputFormat where
  | json
  | pretty
deriving DecidableEq, Inhabited

def OutputFormat.ofName? : String → Option OutputFormat
  | "json" => some .json
  | "pretty" => some .pretty
  | _ => none

inductive Command where
  | check (schema program : String)
  | compile (schema world program : String)
  | infer (schema world diagram : String) (bound : Option Nat)
  | arrange (schema world program : String)
  | synthesize (schema sample diagram target : String)
deriving DecidableEq

structure Invocation where
  settings : Option String
  format : OutputFormat
  command : Command
deriving DecidableEq

inductive UsageError where
  | noCommand
  | unknownCommand (name : String)
  | unknownOption (argument : String)
  | repeatedOption (name : String)
  | missingOption (name : String)
  | missingValue (name : String)
  | invalidValue (name value : String)
  | surplus (argument : String)
deriving DecidableEq, Inhabited

def UsageError.message : UsageError → String
  | .noCommand => "a command is required"
  | .unknownCommand name => "unknown command '" ++ name ++ "'"
  | .unknownOption argument => "unexpected argument '" ++ argument ++ "'"
  | .repeatedOption name => "the option '" ++ name ++ "' is given more than once"
  | .missingOption name => "the option '" ++ name ++ "' is required"
  | .missingValue name => "a value is required for '" ++ name ++ "'"
  | .invalidValue name value => "invalid value '" ++ value ++ "' for '" ++ name ++ "'"
  | .surplus argument => "unexpected argument '" ++ argument ++ "'"

inductive Interruption where
  | help
  | misuse (error : UsageError)
deriving DecidableEq, Inhabited

/-! ### Single arguments -/

inductive Argument where
  | word
  /-- The mark behind which there are words only. -/
  | endOfOptions
  | option (name : String) (joined : Option String)
deriving DecidableEq

namespace Argument

def longName (name : List Char) : String := String.ofList ('-' :: '-' :: name)

def nameOfLetter (letter : Char) : String :=
  if letter = 'c' then "--config"
  else if letter = 'f' then "--format"
  else if letter = 'h' then "--help"
  else String.ofList ['-', letter]

def joinedValue : List Char → Option String
  | '=' :: value => some (String.ofList value)
  | _ => none

/-- What stands behind a letter; an equals sign may lie between. -/
def letterValue (text : List Char) : Option String :=
  if text.isEmpty then none else some ((joinedValue text).getD (String.ofList text))

def ofText (text : String) : Argument :=
  match text.toList with
  | ['-', '-'] => .endOfOptions
  | '-' :: '-' :: rest =>
      .option (longName (rest.takeWhile (· ≠ '='))) (joinedValue (rest.dropWhile (· ≠ '=')))
  | '-' :: letter :: rest => .option (nameOfLetter letter) (letterValue rest)
  | _ => .word

end Argument

/-! ### Options -/

abbrev GivenOptions := List (String × String)

/-- A whole number that a machine word holds; a plus sign may stand before it. -/
def readBound? (text : String) : Option Nat :=
  let digits := match text.toList with
    | '+' :: rest => rest
    | rest => rest
  if !digits.isEmpty && digits.all Char.isDigit && Lexeme.digitsValue digits < wordLimit then
    some (Lexeme.digitsValue digits)
  else
    none

/-- Whether an option takes a value; a path is not empty. -/
def takesValue (name value : String) : Bool :=
  if name = "--format" then (OutputFormat.ofName? value).isSome
  else if name = "--bound" then (readBound? value).isSome
  else value ≠ ""

namespace GivenOptions

def add (given : GivenOptions) (name value : String) : Except Interruption GivenOptions :=
  if (List.lookup name given).isSome then
    .error (.misuse (.repeatedOption name))
  else if takesValue name value then
    .ok (given ++ [(name, value)])
  else
    .error (.misuse (.invalidValue name value))

/-- Reads options up to the first word, and gives that word and all behind it. -/
def read (known : List String) (given : GivenOptions) :
    List String → Except Interruption (GivenOptions × List String)
  | [] => .ok (given, [])
  | text :: rest =>
      match Argument.ofText text with
      | .word => .ok (given, text :: rest)
      | .endOfOptions =>
          match rest with
          | [] => .ok (given, [])
          | word :: _ => .error (.misuse (.surplus word))
      | .option name joined =>
          if name = "--help" then
            match text.toList, joined with
            | '-' :: '-' :: _, some _ => .error (.misuse (.surplus text))
            | _, _ => .error .help
          else if name ∉ known then
            .error (.misuse (.unknownOption text))
          else
            match joined, rest with
            | some value, rest =>
                match given.add name value with
                | .ok given => read known given rest
                | .error interruption => .error interruption
            | none, [] => .error (.misuse (.missingValue name))
            | none, value :: rest =>
                if Argument.ofText value = .word then
                  match given.add name value with
                  | .ok given => read known given rest
                  | .error interruption => .error interruption
                else
                  .error (.misuse (.missingValue name))

def required (given : GivenOptions) (name : String) : Except Interruption String :=
  match List.lookup name given with
  | some value => .ok value
  | none => .error (.misuse (.missingOption name))

end GivenOptions

/-! ### Commands -/

def sharedOptions : List String := ["--config", "--format"]

structure CommandForm where
  name : String
  options : List String
  build : GivenOptions → Except Interruption Command

namespace CommandForm

def check : CommandForm :=
  { name := "check"
    options := ["--model", "--program"]
    build := fun given => do
      .ok (.check (← given.required "--model") (← given.required "--program")) }

def compile : CommandForm :=
  { name := "compile"
    options := ["--model", "--instance", "--program"]
    build := fun given => do
      .ok (.compile (← given.required "--model") (← given.required "--instance")
        (← given.required "--program")) }

def infer : CommandForm :=
  { name := "infer"
    options := ["--model", "--instance", "--diagram", "--bound"]
    build := fun given => do
      .ok (.infer (← given.required "--model") (← given.required "--instance")
        (← given.required "--diagram") ((List.lookup "--bound" given).bind readBound?)) }

def arrange : CommandForm :=
  { name := "arrange"
    options := ["--model", "--instance", "--program"]
    build := fun given => do
      .ok (.arrange (← given.required "--model") (← given.required "--instance")
        (← given.required "--program")) }

def synthesize : CommandForm :=
  { name := "synthesize"
    options := ["--model", "--example", "--diagram", "--target"]
    build := fun given => do
      .ok (.synthesize (← given.required "--model") (← given.required "--example")
        (← given.required "--diagram") (← given.required "--target")) }

def all : List CommandForm := [check, compile, infer, arrange, synthesize]

def usage (form : CommandForm) : String :=
  form.name ++ String.join (form.options.map (fun option => " " ++ option ++ " <VALUE>"))

end CommandForm

def usage : String :=
  "Usage: [--config <FILE>] [--format json|pretty] <COMMAND>\n\nCommands:\n" ++
    String.join (CommandForm.all.map (fun form => "  " ++ form.usage ++ "\n"))

namespace Invocation

/-- The options behind the command, and those before it where there are no others. -/
def build (form : CommandForm) (before behind : GivenOptions) : Except Interruption Invocation := do
  let command ← form.build behind
  let given := behind ++ before
  .ok
    { settings := List.lookup "--config" given
      format := ((List.lookup "--format" given).bind OutputFormat.ofName?).getD .json
      command := command }

def helpOn : List String → Interruption
  | [] => .help
  | [name] =>
      if name = "help" ∨ name ∈ CommandForm.all.map CommandForm.name then
        .help
      else
        .misuse (.unknownCommand name)
  | _ :: argument :: _ => .misuse (.surplus argument)

def ofArguments (arguments : List String) : Except Interruption Invocation := do
  match ← GivenOptions.read sharedOptions [] arguments with
  | (_, []) => .error (.misuse .noCommand)
  | (before, name :: rest) =>
      if name = "help" then
        .error (helpOn rest)
      else
        match CommandForm.all.find? (fun form => form.name == name) with
        | none => .error (.misuse (.unknownCommand name))
        | some form =>
            match ← GivenOptions.read (sharedOptions ++ form.options) [] rest with
            | (behind, []) => build form before behind
            | (_, argument :: _) => .error (.misuse (.surplus argument))

def paths (invocation : Invocation) : List String :=
  invocation.settings.toList ++
    match invocation.command with
    | .check schema program => [schema, program]
    | .compile schema world program => [schema, world, program]
    | .infer schema world diagram _ => [schema, world, diagram]
    | .arrange schema world program => [schema, world, program]
    | .synthesize schema sample diagram target => [schema, sample, diagram, target]

end Invocation

end RelationalLayout
