import MarkdownLinks.Check.Basic
import MarkdownLinks.Lint.Discovery
import MarkdownLinks.Report.Basic

/-! A run over the documents of a file tree. The run fails only if it is given no path or a path that
leads nowhere. Otherwise every document is read, if the system lets it, it is not too large and is UTF-8,
and checked; one that cannot be read is skipped. The report lists the issues of the documents in their order. -/

namespace MarkdownLinks

/-- Why a run cannot begin. -/
inductive LintFault where
  | noPaths
  | missing (path : Text)
  deriving DecidableEq

def LintFault.message : LintFault → Text
  | .noPaths => "No paths provided for linting".toList
  | .missing path => "Path does not exist: ".toList ++ Native.display path

namespace FileTree

/-- How many bytes of a document are read, to tell whether it has more than `limit`. -/
def readSize (limit : Nat) : Nat := min (limit + 1) maxFileBytes

/-- The text of a document of at most `limit` bytes. A file over the limit is too large whatever its
bytes are; no more of it is read than the byte that shows it. -/
def readDocument (t : FileTree) (limit : Nat) (path : Text) : Except ReadFault Text :=
  match t.fileAt path with
  | .error fault => .error (.system fault.message)
  | .ok (location, bytes) =>
      match (t.refusals location).readFault? bytes.size (readSize limit) with
      | some fault => .error (.system fault.message)
      | none =>
          let read := bytes.extract 0 (readSize limit)
          if limit < read.size then .error (.tooLarge limit)
          else
            match Utf8.decode? read with
            | some text => .ok text
            | none => .error .notUtf8

/-- The documents of a search that can be read, with their texts. -/
def scanned (t : FileTree) (search : Search) : List (Text × Text) :=
  (t.documents search).filterMap fun path =>
    match t.readDocument search.maxFileSize path with
    | .ok text => some (path, text)
    | .error _ => none

/-- The documents of a search that cannot be read. -/
def unread (t : FileTree) (search : Search) : List Skipped :=
  (t.documents search).filterMap fun path =>
    match t.readDocument search.maxFileSize path with
    | .ok _ => none
    | .error fault => some ⟨path, fault.reason, fault.message⟩

/-- The report of the checks over the documents of a search. -/
def report (t : FileTree) (search : Search) (checks : Checks) : Report :=
  let issues := (t.scanned search).flatMap fun (path, text) => checks.issues path text
  { scannedFiles := (t.scanned search).length
    skippedFiles := (t.unread search).length
    ok := issues.isEmpty
    issues := issues
    skipped := t.unvisited search ++ t.unread search }

/-- A run, if all its paths lead somewhere. -/
def lint (t : FileTree) (search : Search) (checks : Checks) : Except LintFault Report :=
  if search.paths = [] then .error .noPaths
  else
    match search.paths.find? fun path => !t.pathExists path with
    | some path => .error (.missing path)
    | none => .ok (t.report search checks)

end FileTree

end MarkdownLinks
