import MarkdownLinks.Text.Native

/-! Paths as they are written. Paths are compared by their components: repeated slashes, a slash at the
end and every `.` but a leading one make no difference. The order is that of the components, a path
before its extensions, so that what is in a directory stays together. -/

namespace MarkdownLinks.Path

inductive Component where
  | root
  /-- A leading `.`. -/
  | here
  | parent
  | name (s : Text)
  deriving DecidableEq

namespace Component

/-- A written component; `.` and the empty one stand for nothing. -/
def ofText? (s : Text) : Option Component :=
  if s = [] ∨ s = ['.'] then none else if s = ['.', '.'] then some .parent else some (.name s)

/-- The rank of a component in the order: the special ones come before all names, and names are
compared by their bytes. The characters behind the bytes tell apart what no system has as two names. -/
def key : Component → List Nat
  | .root => [0]
  | .here => [1]
  | .parent => [2]
  | .name s => 3 :: ((Native.bytes s).map (fun b => b.toNat + 1) ++ 0 :: s.map Char.toNat)

def name? : Component → Option Text
  | .name s => some s
  | _ => none

end Component

/-- The components of a path. -/
def components (path : Text) : List Component :=
  let written := path.splitOn '/'
  let leading : List Component :=
    if path.head? = some '/' then [.root] else if written.head? = some ['.'] then [.here] else []
  leading ++ written.filterMap Component.ofText?

/-- The place of a path in the order of paths. -/
def key (path : Text) : List (List Nat) := (components path).map Component.key

/-- Whether one path stands before another in their order, or they are equal as paths. -/
def le (a b : Text) : Bool := !(key b).lex (key a) fun x y => x.lex y fun m n => m < n

/-- The name that a path ends in. -/
def fileName? (path : Text) : Option Text := (components path).getLast?.bind Component.name?

/-- What follows the last dot of a file name, if something stands before it. -/
def extension? (name : Text) : Option Text :=
  match name.reverse.dropWhile (· ≠ '.') with
  | _ :: _ :: _ => some (name.reverse.takeWhile (· ≠ '.')).reverse
  | _ => none

/-- Whether a path has the markdown extension, in any letter case. -/
def isMarkdown (path : Text) : Bool :=
  ((fileName? path).bind extension?).any fun e => e.map Char.toLower == "md".toList

/-- A name in the directory that a path leads to. -/
def join (path name : Text) : Text :=
  if path.getLast? = some '/' then path ++ name else path ++ '/' :: name

end MarkdownLinks.Path
