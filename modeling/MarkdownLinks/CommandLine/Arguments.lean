import MarkdownLinks.Text.Basic

/-! Reading the arguments of a command. An option has a long name, and may have a letter and a value.
The value stands behind an equals sign or is the next argument, which then must not look like an option;
behind a letter it may also follow directly. Letters of options without values may be joined. Two
hyphens end the options, and an option that asks what the program is ends the reading: nothing behind it
matters. An option is given once, unless it is one of those that add up. -/

namespace MarkdownLinks.CommandLine

/-- The options of the program and of its commands. -/
inductive Opt where
  | help
  | version
  | verbose
  | exclude
  | skipDir
  | followLinks
  | format
  | showSkipped
  | respectFences
  | output
  | inPlace
  | repoUrl
  | branch
  | sourceRoot
  deriving DecidableEq

namespace Opt

def long : Opt → Text
  | .help => "help".toList
  | .version => "version".toList
  | .verbose => "verbose".toList
  | .exclude => "exclude".toList
  | .skipDir => "skip-dir".toList
  | .followLinks => "follow-links".toList
  | .format => "format".toList
  | .showSkipped => "show-skipped".toList
  | .respectFences => "respect-fences".toList
  | .output => "output".toList
  | .inPlace => "in-place".toList
  | .repoUrl => "repo-url".toList
  | .branch => "branch".toList
  | .sourceRoot => "prefix".toList

def letter? : Opt → Option Char
  | .help => some 'h'
  | .version => some 'V'
  | .verbose => some 'v'
  | .output => some 'o'
  | _ => none

def takesValue : Opt → Bool
  | .exclude | .skipDir | .format | .output | .repoUrl | .branch | .sourceRoot => true
  | .help | .version | .verbose | .followLinks | .showSkipped | .respectFences | .inPlace => false

/-- Whether an option may be given more than once. -/
def addsUp : Opt → Bool
  | .verbose | .exclude | .skipDir | .sourceRoot => true
  | _ => false

/-- Whether nothing is read behind an option. -/
def endsReading : Opt → Bool
  | .help | .version => true
  | _ => false

end Opt

/-- An argument as it was understood. -/
inductive Argument where
  | option (o : Opt) (value : Option Text)
  | operand (s : Text)
  deriving DecidableEq

namespace Argument

def operand? : Argument → Option Text
  | .operand s => some s
  | .option .. => none

def opt? : Argument → Option Opt
  | .option o _ => some o
  | .operand _ => none

/-- The value of an argument that is the option `o`. -/
def valueOf? (o : Opt) : Argument → Option Text
  | .option o' value => if o' = o then value else none
  | .operand _ => none

def endsReading : Argument → Bool
  | .option o _ => o.endsReading
  | .operand _ => false

end Argument

/-- Whether an option is given among some arguments. -/
def isGiven (arguments : List Argument) (o : Opt) : Bool := (arguments.filterMap Argument.opt?).contains o

/-- Whether an argument is read as an option, and so is no value of the option before it. -/
def looksLikeOption (s : Text) : Bool := s.head? == some '-' && s != ['-']

/-- The options that joined letters stand for, and the one at the end that still lacks its value. -/
def readLetters (known : List Opt) : Text → Option (List Argument × Option Opt)
  | [] => some ([], none)
  | c :: s =>
      match known.find? fun o => o.letter? == some c with
      | none => none
      | some o =>
          if o.takesValue then
            match s with
            | [] => some ([], some o)
            | '=' :: value => some ([.option o (some value)], none)
            | value => some ([.option o (some value)], none)
          else if o.endsReading then some ([.option o none], none)
          else (readLetters known s).map fun (arguments, lacking) => (.option o none :: arguments, lacking)

/-- The option that a long name stands for, or that it begins when its value is the next argument. -/
def readLong (known : List Opt) (s : Text) : Option (List Argument × Option Opt) :=
  match known.find? fun o => o.long == s.takeWhile (· != '=') with
  | none => none
  | some o =>
      match s.dropWhile (· != '='), o.takesValue with
      | _ :: value, true => some ([.option o (some value)], none)
      | _ :: _, false => none
      | [], true => some ([], some o)
      | [], false => some ([.option o none], none)

/-- What a single argument that looks like an option stands for. -/
def readOption (known : List Opt) (s : Text) : Option (List Argument × Option Opt) :=
  match dropPrefix? "--".toList s with
  | some name => readLong known name
  | none => readLetters known (s.drop 1)

/-- The arguments as they are understood, or nothing where they cannot be. -/
def readArguments (known : List Opt) : List Text → Option (List Argument)
  | [] => some []
  | s :: rest =>
      if s = "--".toList then some (rest.map .operand)
      else if !looksLikeOption s then (readArguments known rest).map (.operand s :: ·)
      else
        match readOption known s with
        | none => none
        | some (arguments, none) =>
            if arguments.any Argument.endsReading then some arguments
            else (readArguments known rest).map (arguments ++ ·)
        | some (arguments, some o) =>
            match rest with
            | [] => none
            | value :: rest =>
                if looksLikeOption value then none
                else (readArguments known rest).map fun more => arguments ++ .option o (some value) :: more

/-- Whether every option that does not add up is given at most once. -/
def givenOnce (arguments : List Argument) : Bool :=
  let given := arguments.filterMap Argument.opt?
  given.all fun o => o.addsUp || given.count o ≤ 1

end MarkdownLinks.CommandLine
