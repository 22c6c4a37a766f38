import MarkdownLinks.Text.Basic

/-! A file tree: files, directories and symbolic links at locations. A location is the list of names
that leads from the root to an entry; each location has at most one entry, and the root is always a
directory. Paths, which are texts, are not locations: they are followed from the working directory.
What is in a tree need not be open to a program: at each location the system may refuse what is done
there, with a fault of its own. -/

namespace MarkdownLinks

inductive Entry where
  | file (bytes : ByteArray)
  | link (target : Text)
  | directory

/-- The names from the root to an entry. -/
abbrev Location := List Text

namespace FileTree

/-- Why a path cannot be followed, read or written. -/
inductive Fault where
  | notFound
  | notADirectory
  | isADirectory
  | nameTooLong
  | tooManyLinks
  | notUtf8
  /-- Another fault, such as a permission that is lacking, with the message of the system. -/
  | refused (message : Text)
  deriving DecidableEq

def Fault.message : Fault → Text
  | .notFound => "No such file or directory (os error 2)".toList
  | .notADirectory => "Not a directory (os error 20)".toList
  | .isADirectory => "Is a directory (os error 21)".toList
  | .nameTooLong => "File name too long (os error 36)".toList
  | .tooManyLinks => "Too many levels of symbolic links (os error 40)".toList
  | .notUtf8 => "stream did not contain valid UTF-8".toList
  | .refused message => message

/-- What the system refuses at a location. -/
structure Refusals where
  /-- To look up names in the directory. -/
  lookUp : Option Fault := none
  /-- To list the directory. -/
  list : Option Fault := none
  /-- To read the file behind so many bytes. A file that is not opened is not read behind none. -/
  read : Option (Nat × Fault) := none
  /-- To open the file for writing. -/
  write : Option Fault := none
  /-- To make a file in the directory. -/
  create : Option Fault := none
  deriving DecidableEq

/-- The fault in which reading a file of `size` bytes ends, if no more than `count` bytes are wanted. -/
def Refusals.readFault? (refusals : Refusals) (size count : Nat) : Option Fault :=
  (refusals.read.filter fun (behind, _) => behind < count && behind ≤ size).map Prod.snd

end FileTree

structure FileTree where
  entries : List (Location × Entry)
  nodup : (entries.map Prod.fst).Nodup
  working : Location := []
  refusals : Location → FileTree.Refusals := fun _ => {}

namespace FileTree

/-- A tree with nothing in it but its root. -/
def empty : FileTree where
  entries := []
  nodup := List.nodup_nil

/-- What is at a location. -/
def entry? (t : FileTree) (location : Location) : Option Entry :=
  if location = [] then some .directory else t.entries.lookup location

def isDirectory (t : FileTree) (location : Location) : Bool :=
  match t.entry? location with
  | some .directory => true
  | _ => false

/-- The names in a directory, with their entries. -/
def children (t : FileTree) (location : Location) : List (Text × Entry) :=
  t.entries.filterMap fun (l, e) =>
    if l.dropLast = location then l.getLast?.map fun name => (name, e) else none

/-- The tree without what is at a location. -/
def remove (t : FileTree) (location : Location) : FileTree where
  entries := t.entries.filter fun e => e.1 ≠ location
  nodup := t.nodup.sublist (List.filter_sublist.map _)
  working := t.working
  refusals := t.refusals

/-- The tree with an entry at a location, in the place of what is there. -/
def put (t : FileTree) (location : Location) (entry : Entry) : FileTree where
  entries := (location, entry) :: (t.remove location).entries
  nodup := by
    rw [List.map_cons, List.nodup_cons]
    exact ⟨by simp [remove], (t.remove location).nodup⟩
  working := t.working
  refusals := t.refusals

end FileTree

end MarkdownLinks
