import MarkdownLinks.FileTree.Basic
import MarkdownLinks.Text.Native

/-! Following paths through a file tree. A path is a row of names between slashes. Each name is looked
up in the directory reached so far, if the system lets it; an empty name, which is not looked up, and
`.` stay there, `..` goes to the parent, and a symbolic link is replaced by its target. So every name but
the last must be a directory, and a slash at the end asks for one. At most forty links are followed, and
an empty target leads nowhere. Names and paths have a greatest length in bytes, which the targets of
links need not keep as a whole. What a path leads to is read and written if the system does not refuse
it; a write that is refused is refused before anything is written. -/

namespace MarkdownLinks.FileTree

/-- What following does with a last name that leads nowhere. -/
inductive Purpose where
  /-- The path must lead to something. -/
  | find
  /-- The last name may be new; a slash behind it is refused. -/
  | create
  deriving DecidableEq

/-- How many links a path may lead through. -/
def maxLinks : Nat := 40

/-- How many bytes a name may have. -/
def maxNameBytes : Nat := 255

/-- How many bytes a path may have. -/
def maxPathBytes : Nat := 4095

/-- How many bytes a file may have. -/
def maxFileBytes : Nat := 18446744073709551615

/-- Whether a text has more bytes than a limit. -/
def exceeds (limit : Nat) (s : Text) : Bool := limit < (Native.bytes s).length

/-- The directory that a path starts from. -/
def start (path : Text) (here : Location) : Location := if path.head? = some '/' then [] else here

/-- Why a name is not looked up at a location. -/
def refusal? (t : FileTree) (here : Location) (name : Text) : Option Fault :=
  if !t.isDirectory here then some .notADirectory
  else if name = [] then none
  else (t.refusals here).lookUp

/-- The location that some names lead to from a directory, as long as they lead through no link; at a
link, `onLink` is given the directory that its target starts from, and the names of the target and of
the rest of the path. -/
def followNames (t : FileTree) (purpose : Purpose)
    (onLink : Location → List Text → Except Fault Location) (here : Location) :
    List Text → Except Fault Location
  | [] => .ok here
  | name :: names =>
      match t.refusal? here name with
      | some fault => .error fault
      | none =>
          if name = [] ∨ name = ['.'] then followNames t purpose onLink here names
          else if name = ['.', '.'] then followNames t purpose onLink here.dropLast names
          else if purpose = .create ∧ names ≠ [] ∧ ∀ n ∈ names, n = [] then .error .isADirectory
          else if exceeds maxNameBytes name then .error .nameTooLong
          else
            match t.entry? (here ++ [name]) with
            | none => if purpose = .create ∧ names = [] then .ok (here ++ [name]) else .error .notFound
            | some (.link target) =>
                if target = [] then .error .notFound
                else onLink (start target here) (target.splitOn '/' ++ names)
            | some _ => followNames t purpose onLink (here ++ [name]) names

/-- The location that some names lead to from a directory, through at most so many links. -/
def follow (t : FileTree) (purpose : Purpose) : (links : Nat) → Location → List Text → Except Fault Location
  | 0 => followNames t purpose fun _ _ => .error .tooManyLinks
  | links + 1 => followNames t purpose (follow t purpose links)

/-- The location that a path leads to from the working directory. -/
def resolve (t : FileTree) (purpose : Purpose) (path : Text) : Except Fault Location :=
  if path = [] then .error .notFound
  else if exceeds maxPathBytes path then .error .nameTooLong
  else t.follow purpose maxLinks (start path t.working) (path.splitOn '/')

/-- What a path leads to. -/
def status (t : FileTree) (path : Text) : Except Fault (Location × Entry) :=
  match t.resolve .find path with
  | .error fault => .error fault
  | .ok location =>
      match t.entry? location with
      | some entry => .ok (location, entry)
      | none => .error .notFound

def pathExists (t : FileTree) (path : Text) : Bool := (t.status path).toBool

/-- The file that a path leads to, with its location. -/
def fileAt (t : FileTree) (path : Text) : Except Fault (Location × ByteArray) :=
  match t.status path with
  | .ok (location, .file bytes) => .ok (location, bytes)
  | .ok (location, .directory) => .error ((t.refusals location).list.getD .isADirectory)
  | .ok (_, .link _) => .error .notFound
  | .error fault => .error fault

/-- The bytes of the file that a path leads to. -/
def readBytes (t : FileTree) (path : Text) : Except Fault ByteArray :=
  match t.fileAt path with
  | .error fault => .error fault
  | .ok (location, bytes) =>
      match (t.refusals location).readFault? bytes.size (bytes.size + 1) with
      | some fault => .error fault
      | none => .ok bytes

/-- The text of the file that a path leads to. -/
def readText (t : FileTree) (path : Text) : Except Fault Text :=
  match t.readBytes path with
  | .ok bytes =>
      match Utf8.decode? bytes with
      | some text => .ok text
      | none => .error .notUtf8
  | .error fault => .error fault

/-- Why the system opens no file for writing at a location, where one may be or may be made. -/
def writeRefusal? (t : FileTree) (location : Location) : Option Fault :=
  match t.entry? location with
  | some .directory => some .isADirectory
  | some _ => (t.refusals location).write
  | none => (t.refusals location.dropLast).create

/-- The tree with some bytes in the file that a path leads to. The file may be new, its directory
not. -/
def writeBytes (t : FileTree) (path : Text) (bytes : ByteArray) : Except Fault FileTree :=
  match t.resolve .create path with
  | .error fault => .error fault
  | .ok location =>
      match t.writeRefusal? location with
      | some fault => .error fault
      | none => .ok (t.put location (.file bytes))

/-- The tree with a text in the file that a path leads to. -/
def writeText (t : FileTree) (path text : Text) : Except Fault FileTree :=
  t.writeBytes path (Utf8.encode text).toByteArray

end MarkdownLinks.FileTree
