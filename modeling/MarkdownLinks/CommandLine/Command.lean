import MarkdownLinks.CommandLine.Arguments
import MarkdownLinks.Check.Basic
import MarkdownLinks.Lint.Discovery
import MarkdownLinks.SourceHost

/-! The commands of the program. Three commands check the documents below a root, each with its own
choice of checks; one command publishes the source links of a single document. A command line is a
request for the version or for help, or verbosity options and the name of a command with its arguments.
Help is given on the program, and on a command that is asked for it before anything that it cannot
take; the command is not run then. -/

namespace MarkdownLinks.CommandLine

/-- How a report is printed. -/
inductive Format where
  | human
  | json
  deriving DecidableEq

/-- A command that checks documents. -/
structure Scan where
  search : Search
  checks : Checks
  format : Format
  showSkipped : Bool
  deriving DecidableEq

/-- A command that publishes the source links of a document. -/
structure Publish where
  /-- The document; standard input if there is none, or if it is `-`. -/
  input : Option Text
  output : Option Text
  inPlace : Bool
  host : SourceHost
  deriving DecidableEq

inductive Command where
  | scan (c : Scan)
  | publish (c : Publish)
  deriving DecidableEq

/-- The commands by their names. -/
inductive CommandName where
  | links
  | encoding
  | check
  | rewrite
  deriving DecidableEq

namespace CommandName

def all : List CommandName := [.links, .encoding, .check, .rewrite]

def text : CommandName → Text
  | .links => "links".toList
  | .encoding => "encoding".toList
  | .check => "check".toList
  | .rewrite => "rewrite".toList

end CommandName

/-- What help can be given on. -/
inductive Topic where
  | program
  | command (name : CommandName)
  | help
  deriving DecidableEq

/-- What a command line asks for. -/
inductive Request where
  | version
  | help (topic : Topic)
  | run (c : Command)
  deriving DecidableEq

/-- The options that stand before the name of a command. -/
def programOptions : List Opt := [.verbose, .help, .version]

/-- The options of the commands that check documents. -/
def scanOptions : List Opt := [.verbose, .help, .exclude, .skipDir, .followLinks, .format, .showSkipped]

/-- The options of the commands that check targets. -/
def targetOptions : List Opt := .respectFences :: scanOptions

/-- The options of the command that publishes source links. -/
def publishOptions : List Opt := [.verbose, .help, .output, .inPlace, .repoUrl, .branch, .sourceRoot]

def CommandName.options : CommandName → List Opt
  | .links => scanOptions
  | .encoding | .check => targetOptions
  | .rewrite => publishOptions

def Format.ofName? (s : Text) : Option Format :=
  if s = "human".toList then some .human else if s = "json".toList then some .json else none

/-- Whether an argument is one that can be taken. Paths are not empty and may be any bytes; a format is one of
the two, and all other values are UTF-8. -/
def Argument.isSound : Argument → Bool
  | .operand path => path ≠ []
  | .option _ none => true
  | .option .output (some path) => path ≠ []
  | .option .format (some name) => (Format.ofName? name).isSome
  | .option _ (some value) => Native.isUtf8 value

/-- Whether a command can take some arguments, as far as they are understood: each one alone, no option twice
unless it adds up, and at most one path. -/
def accepted (arguments : List Argument) : Bool :=
  arguments.all Argument.isSound && givenOnce arguments && (arguments.filterMap Argument.operand?).length ≤ 1

/-- The list that was given, or a default for none. -/
def orDefault (given default : List Text) : List Text := if given = [] then default else given

def policyOf (respect : Bool) : FencePolicy := if respect then .respect else .ignore

/-- A command that checks documents, from its arguments; `checks` is told whether fences are to be
respected. -/
def scanOf (checks : FencePolicy → Checks) (arguments : List Argument) : Scan :=
  let base := Search.ofRoot ((arguments.findSome? Argument.operand?).getD ['.'])
  { search := { base with
      exclude := arguments.filterMap (Argument.valueOf? .exclude)
      skipDirs := orDefault (arguments.filterMap (Argument.valueOf? .skipDir)) base.skipDirs
      followLinks := isGiven arguments .followLinks }
    checks := checks (policyOf (isGiven arguments .respectFences))
    format := ((arguments.findSome? (Argument.valueOf? .format)).bind Format.ofName?).getD .human
    showSkipped := isGiven arguments .showSkipped }

/-- The command that publishes source links, from its arguments. Writing in place needs an input and
excludes another output. -/
def publishOf (arguments : List Argument) : Option Publish :=
  let input := arguments.findSome? Argument.operand?
  let output := arguments.findSome? (Argument.valueOf? .output)
  let inPlace := isGiven arguments .inPlace
  if inPlace && (input.isNone || output.isSome) then none
  else
    let base : SourceHost := {}
    some {
      input := input
      output := output
      inPlace := inPlace
      host := {
        repository := (arguments.findSome? (Argument.valueOf? .repoUrl)).getD base.repository
        branch := (arguments.findSome? (Argument.valueOf? .branch)).getD base.branch
        sourceRoots := orDefault (arguments.filterMap (Argument.valueOf? .sourceRoot)) base.sourceRoots } }

/-- The command that a name stands for, from its arguments. -/
def CommandName.command (name : CommandName) (arguments : List Argument) : Option Command :=
  match name with
  | .links => some (.scan (scanOf (fun _ => .textsOnly) arguments))
  | .encoding => some (.scan (scanOf .targetsOnly arguments))
  | .check => some (.scan (scanOf (fun policy => { targetFences := policy }) arguments))
  | .rewrite => (publishOf arguments).map .publish

/-- What a command is asked for by its arguments. -/
def CommandName.request (name : CommandName) (args : List Text) : Option Request := do
  let arguments ← readArguments name.options args
  guard (accepted arguments)
  if isGiven arguments .help then return .help (.command name)
  return .run (← name.command arguments)

/-- What help is asked for behind the word for it: on the program, or on the one name that stands there. -/
def topicOf : List Text → Option Topic
  | [] => some .program
  | [s] => if s = "help".toList then some .help else (CommandName.all.find? fun name => name.text = s).map .command
  | _ => none

/-- What a command line asks for, or nothing where it cannot be understood. A request for the version or for
help is answered wherever it stands before the name of the command. -/
def requestOf : List Text → Option Request
  | [] => none
  | s :: rest =>
      if !looksLikeOption s then
        if s = "help".toList then (topicOf rest).map .help
        else (CommandName.all.find? fun name => name.text = s).bind fun name => name.request rest
      else
        match readOption programOptions s with
        | none => none
        | some (arguments, _) =>
            if isGiven arguments .help then some (.help .program)
            else if isGiven arguments .version then some .version
            else requestOf rest

end MarkdownLinks.CommandLine
