import MarkdownLinks.FileTree.Walk
import MarkdownLinks.Glob.Match
import MarkdownLinks.Skipped

/-! Finding the documents of a run. They are the markdown files that the walks from the given paths
come across, less those that an exclude pattern accepts by path or by name, as these are shown, in the
order of paths and each path once; of equal paths the first one found stays. Patterns that cannot be
read and places that the walks cannot enter are skipped. -/

namespace MarkdownLinks

/-- Where to look for documents, and which ones to read. -/
structure Search where
  paths : List Text := []
  /-- Glob patterns for paths and names to leave out. -/
  exclude : List Text := []
  /-- Names of directories that are not entered. -/
  skipDirs : List Text :=
    [".git", "node_modules", ".vs", ".vscode", "Library", "Temp"].map String.toList
  /-- The size in bytes of the largest file that is read. -/
  maxFileSize : Nat := 10485760
  followLinks : Bool := false
  maxDepth : Nat := 64
  deriving DecidableEq

namespace Search

/-- A search with the usual settings from one path. -/
def ofRoot (root : Text) : Search := { paths := [root] }

def walkOptions (search : Search) : FileTree.WalkOptions :=
  ⟨search.skipDirs, search.followLinks, search.maxDepth⟩

/-- The exclude patterns that can be read. -/
def patterns (search : Search) : List Glob.Pattern :=
  search.exclude.filterMap fun s => (Glob.parse s).toOption

/-- The skips of the exclude patterns that cannot be read. -/
def badPatterns (search : Search) : List Skipped :=
  search.exclude.filterMap fun s =>
    match Glob.parse s with
    | .ok _ => none
    | .error fault =>
        some ⟨s, .badPattern,
          "Invalid exclude glob pattern '".toList ++ s ++ "': ".toList ++ fault.message⟩

/-- Whether an exclude pattern accepts a path, or the name it ends in. -/
def excludes (search : Search) (path : Text) : Bool :=
  search.patterns.any fun pattern =>
    pattern.accepts (Native.display path) ||
      (Path.fileName? path).any fun name => pattern.accepts (Native.display name)

/-- Whether a file at a path is a document of the run. -/
def selects (search : Search) (path : Text) : Bool := Path.isMarkdown path && !search.excludes path

end Search

/-- Of neighbours that are equal as paths, the first. -/
def dropRepeats : List Text → List Text
  | a :: b :: rest =>
      if Path.key a = Path.key b then dropRepeats (a :: rest) else a :: dropRepeats (b :: rest)
  | short => short
termination_by paths => paths.length

/-- Paths in their order, each once. -/
def sortPaths (paths : List Text) : List Text := dropRepeats (paths.mergeSort Path.le)

namespace FileTree

/-- Everything that the walks of a search come across. -/
def visits (t : FileTree) (search : Search) : List Visit :=
  search.paths.flatMap (t.walk search.walkOptions)

/-- The documents of a search. -/
def documents (t : FileTree) (search : Search) : List Text :=
  sortPaths ((t.visits search).filterMap fun
    | .file path => if search.selects path then some path else none
    | .fault .. => none)

/-- What a search leaves out before any file is read. -/
def unvisited (t : FileTree) (search : Search) : List Skipped :=
  search.badPatterns ++ (t.visits search).filterMap fun
    | .file _ => none
    | .fault path fault => some ⟨path, .unwalkable, fault.message path⟩

end FileTree

end MarkdownLinks
