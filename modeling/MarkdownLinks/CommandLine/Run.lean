import MarkdownLinks.CommandLine.Help
import MarkdownLinks.Lint.Run
import MarkdownLinks.Report.Json

/-! Running a command line over a file tree. Issues and published documents go to standard output,
skips and the summary to standard error. The exit status is 1 if there are issues and 2 if the command
line or a file stands in the way, or if JSON would have to hold a path that is not UTF-8; then nothing is
written. -/

namespace MarkdownLinks.CommandLine

/-- What a run leaves behind. -/
structure Outcome where
  code : Nat := 0
  stdout : Text := []
  stderr : Text := []
  tree : FileTree

def versionText : Text := "doclinks 0.3.0\n".toList

def usageText : Text :=
  unlines (["Usage: doclinks [-v]... <COMMAND>",
    "  links     [ROOT] [--exclude GLOB]... [--skip-dir NAME]... [--follow-links]",
    "            [--format human|json] [--show-skipped]",
    "  encoding  as links, and [--respect-fences]",
    "  check     as encoding",
    "  rewrite   [FILE] [-o FILE | --in-place] [--repo-url URL] [--branch NAME] [--prefix PREFIX]...",
    "Usage: doclinks --version"].map String.toList)

/-- Why a command fails. -/
inductive Failure where
  | lint (fault : LintFault)
  | pathInJson
  | read (path : Text) (fault : FileTree.Fault)
  | readInput (fault : FileTree.Fault)
  | inPlaceInput
  | write (path : Text) (fault : FileTree.Fault)
  deriving DecidableEq

def Failure.message : Failure → Text
  | .lint fault => fault.message
  | .pathInJson => "path contains invalid UTF-8 characters".toList
  | .read path fault => "Failed to read ".toList ++ Native.display path ++ ": ".toList ++ fault.message
  | .readInput fault => "Failed to read markdown from stdin: ".toList ++ fault.message
  | .inPlaceInput => "--in-place needs a file argument, not stdin".toList
  | .write path fault => "Failed to write ".toList ++ Native.display path ++ ": ".toList ++ fault.message

/-- The outcome of a failure. -/
def Failure.outcome (t : FileTree) (f : Failure) : Outcome where
  code := 2
  stderr := unlines ["Error: ".toList ++ f.message]
  tree := t

/-- The report of a command that checks documents. -/
def Scan.run (t : FileTree) (c : Scan) : Except Failure Report :=
  (t.lint c.search c.checks).mapError .lint

/-- A report as it is printed. -/
def Scan.print (t : FileTree) (c : Scan) (r : Report) : Except Failure Outcome :=
  match c.format with
  | .json =>
      if r.isJson then .ok { code := r.exitCode, stdout := r.json, tree := t } else .error .pathInJson
  | .human =>
      .ok {
        code := r.exitCode
        stdout := r.issueLines
        stderr := (if c.showSkipped then r.skippedLines else []) ++ (if r.ok then [] else r.summary)
        tree := t }

/-- Whether a path stands for standard input. -/
def isStandardInput (path : Text) : Bool := Path.components path == [.name ['-']]

/-- The file that a document is read from; none means standard input. -/
def Publish.source? (c : Publish) : Option Text := c.input.filter fun path => !isStandardInput path

/-- Whether a command reads standard input. -/
def Command.readsStandardInput : Command → Bool
  | .scan _ => false
  | .publish c => c.source?.isNone

/-- The document to be published. -/
def Publish.read (t : FileTree) (stdin : ByteArray) (c : Publish) : Except Failure Text :=
  match c.source? with
  | some path => (t.readText path).mapError (.read path)
  | none =>
      match Utf8.decode? stdin with
      | some text => .ok text
      | none => .error (.readInput .notUtf8)

/-- The file that the result is written to; none means standard output. -/
def Publish.target? (c : Publish) : Except Failure (Option Text) :=
  if c.inPlace then
    match c.source? with
    | some path => .ok (some path)
    | none => .error .inPlaceInput
  else .ok c.output

/-- The document published to where it goes. -/
def Publish.run (t : FileTree) (stdin : ByteArray) (c : Publish) : Except Failure Outcome := do
  let text ← c.read t stdin
  let published := c.host.publish text
  match ← c.target? with
  | none => return { stdout := published, tree := t }
  | some path => return { tree := ← (t.writeText path published).mapError (.write path) }

/-- A command run over a tree. -/
def Command.run (t : FileTree) (stdin : ByteArray) (c : Command) : Outcome :=
  let result :=
    match c with
    | .scan c => (c.run t).bind (c.print t)
    | .publish c => c.run t stdin
  match result with
  | .ok outcome => outcome
  | .error failure => failure.outcome t

/-- A command line run over a tree. -/
def run (t : FileTree) (stdin : ByteArray) (args : List Text) : Outcome :=
  match requestOf args with
  | none => { code := 2, stderr := usageText, tree := t }
  | some .version => { stdout := versionText, tree := t }
  | some (.help topic) => { stdout := topic.text, tree := t }
  | some (.run c) => c.run t stdin

end MarkdownLinks.CommandLine
