import MarkdownLinks.FileTree.Path
import MarkdownLinks.FileTree.Resolve

/-! Walking a file tree. A walk goes down from a directory to a bounded depth and does not enter the
directories whose names are to be skipped; the directory it begins with is entered whatever its name.
Symbolic links below it are passed over, or followed; a followed link that leads to a directory the
walk is already inside is a fault, and so is one that leads nowhere. A directory is entered by its
path, which the system has to follow, and it has to let the directory be listed. -/

namespace MarkdownLinks.FileTree

/-- How a walk goes about. -/
structure WalkOptions where
  skipDirs : List Text
  followLinks : Bool
  maxDepth : Nat

/-- Why a walk does not enter a place. -/
inductive WalkFault where
  | system (fault : Fault)
  /-- The place is the directory at `ancestor`, which the walk is inside. -/
  | loop (ancestor : Text)
  deriving DecidableEq

def WalkFault.message (path : Text) : WalkFault → Text
  | .system fault =>
      "Directory traversal error: IO error for operation on ".toList ++ Native.display path ++ ": ".toList ++
        fault.message
  | .loop ancestor =>
      "Directory traversal error: File system loop found: ".toList ++ Native.display path ++
        " points to an ancestor ".toList ++ Native.display ancestor

/-- What a walk comes across, by its path. -/
inductive Visit where
  | file (path : Text)
  | fault (path : Text) (fault : WalkFault)
  deriving DecidableEq

/-- The directories that a walk is inside, innermost first, with the paths it took to them. -/
abbrev Ancestors := List (Text × Location)

/-- Why the directory at a location, which a path leads to, is not entered. -/
def listFault? (t : FileTree) (path : Text) (location : Location) : Option Fault :=
  match t.resolve .find path with
  | .error fault => some fault
  | .ok _ => (t.refusals location).list

/-- The walk through a directory, `depth` levels deep, from inside the directories `outer`. -/
def walkDirectory (t : FileTree) (options : WalkOptions) :
    (depth : Nat) → (outer : Ancestors) → (path : Text) → Location → List Visit
  | 0, _, _, _ => []
  | depth + 1, outer, path, location =>
      match t.listFault? path location with
      | some fault => [.fault path (.system fault)]
      | none =>
          let inside := (path, location) :: outer
          (t.children location).flatMap fun (name, entry) =>
            let below := Path.join path name
            match entry with
            | .file _ => [.file below]
            | .directory =>
                if name ∈ options.skipDirs then []
                else walkDirectory t options depth inside below (location ++ [name])
            | .link _ =>
                if !options.followLinks then []
                else
                  match t.status below with
                  | .error fault => [.fault below (.system fault)]
                  | .ok (target, .directory) =>
                      match inside.find? fun a => a.2 = target with
                      | some (ancestor, _) => [.fault below (.loop ancestor)]
                      | none =>
                          if name ∈ options.skipDirs then []
                          else walkDirectory t options depth inside below target
                  | .ok _ => [.file below]

/-- The walk from a path, which may be a file. A link at the path itself is always followed. -/
def walk (t : FileTree) (options : WalkOptions) (path : Text) : List Visit :=
  match t.status path with
  | .error fault => [.fault path (.system fault)]
  | .ok (location, .directory) => walkDirectory t options options.maxDepth [] path location
  | .ok _ => [.file path]

end MarkdownLinks.FileTree
