import MarkdownLinks.CommandLine.Command

/-! The texts of help. Each one says what it is about, how it is used, and what may be given; behind each
thing that may be given stands what it is for, in a column of its own. -/

namespace MarkdownLinks.CommandLine

/-- The name of the value that an option takes. -/
def Opt.valueName? : Opt → Option Text
  | .exclude => some "GLOB".toList
  | .skipDir => some "NAME".toList
  | .format => some "FORMAT".toList
  | .output => some "FILE".toList
  | .repoUrl => some "REPO_URL".toList
  | .branch => some "BRANCH".toList
  | .sourceRoot => some "PREFIX".toList
  | _ => none

/-- An option as help shows it. Options without a letter stand below the long names of the others, and one that is
counted has three dots. -/
def Opt.label (o : Opt) : Text :=
  (match o.letter? with
    | some c => ['-', c, ',', ' ']
    | none => "    ".toList) ++
  "--".toList ++ o.long ++
  (match o.valueName? with
    | some name => " <".toList ++ name ++ ">".toList
    | none => if o = .verbose then "...".toList else [])

/-- What an option is for, in the help on a topic. -/
def Opt.about (topic : Topic) : Opt → Text
  | .help => "Print help".toList
  | .version => "Print version".toList
  | .verbose => "Increase log verbosity (-v info, -vv debug, -vvv trace)".toList
  | .exclude => "Glob pattern to exclude (matched against the path and the file name)".toList
  | .skipDir => "Directory name to skip; replaces the default list when given".toList
  | .followLinks => "Follow symbolic links while walking".toList
  | .format => "Output format [default: human] [possible values: human, json]".toList
  | .showSkipped => "List files that could not be read on stderr".toList
  | .respectFences =>
      if topic = .command .check then "Skip fenced code blocks in the encoding check".toList
      else "Skip fenced code blocks (by default they are checked too)".toList
  | .output => "Write the result to FILE instead of stdout".toList
  | .inPlace => "Overwrite the input file".toList
  | .repoUrl => "Repository base URL".toList
  | .branch => "Branch used in generated URLs".toList
  | .sourceRoot => "Source-root prefix to rewrite; replaces the default list when given".toList

/-- The options in the order of help: by their place in the list of each command, where one that all commands have
has the first place, and by their letters or names in one place. -/
def Opt.inOrder : List Opt :=
  [.output, .exclude, .verbose, .skipDir, .followLinks, .format, .showSkipped, .respectFences, .inPlace, .repoUrl,
    .branch, .sourceRoot, .help, .version]

namespace Topic

def about : Topic → Text
  | .program => "Markdown documentation link checks".toList
  | .command .links => "Flag links whose text is a raw file name or path".toList
  | .command .encoding => "Flag raw spaces and '+' in relative link targets".toList
  | .command .check => "Run both the link-text and the encoding check".toList
  | .command .rewrite => "Rewrite repository-relative source links to absolute hosting URLs".toList
  | .help => "Print this message or the help of the given subcommand(s)".toList

/-- The options that help shows. -/
def options : Topic → List Opt
  | .program => programOptions
  | .command name => name.options
  | .help => []

/-- What may be given besides options, as help shows it, with what it is for. -/
def operand? : Topic → Option (Text × Text)
  | .program => none
  | .command .rewrite => some ("[INPUT]".toList, "Markdown file to rewrite; reads stdin when omitted or '-'".toList)
  | .command _ => some ("[ROOT]".toList, "Directory or markdown file to scan [default: .]".toList)
  | .help => some ("[COMMAND]...".toList, "Print help for the subcommand(s)".toList)

/-- The words of a use, one after the other. -/
def usage (topic : Topic) : List Text :=
  (match topic with
    | .program => []
    | .command name => [name.text]
    | .help => ["help".toList]) ++
  (if topic.options = [] then [] else ["[OPTIONS]".toList]) ++
  (match topic.operand? with
    | some (operand, _) => [operand]
    | none => ["<COMMAND>".toList])

/-- The commands, if help is on the program. -/
def commands (topic : Topic) : List (Text × Text) :=
  if topic = .program then
    CommandName.all.map (fun name => (name.text, (Topic.command name).about)) ++ [("help".toList, Topic.help.about)]
  else []

end Topic

/-- A heading with rows of two columns below it; nothing where there are no rows. -/
def helpRows (heading : Text) (rows : List (Text × Text)) : Text :=
  if rows = [] then []
  else
    let width := rows.foldl (fun width row => max width row.1.length) 0
    unlines <| [] :: (heading ++ [':']) :: rows.map fun (label, about) =>
      "  ".toList ++ label ++ List.replicate (width - label.length + 2) ' ' ++ about

/-- The help on a topic. -/
def Topic.text (topic : Topic) : Text :=
  unlines [topic.about, [], "Usage: doclinks".toList ++ topic.usage.flatMap (' ' :: ·)] ++
    helpRows "Commands".toList topic.commands ++
    helpRows "Arguments".toList topic.operand?.toList ++
    helpRows "Options".toList ((Opt.inOrder.filter topic.options.contains).map fun o => (o.label, o.about topic))

example :
    String.ofList Topic.help.text = "Print this message or the help of the given subcommand(s)

Usage: doclinks help [COMMAND]...

Arguments:
  [COMMAND]...  Print help for the subcommand(s)
" := by
  decide +kernel

end MarkdownLinks.CommandLine
