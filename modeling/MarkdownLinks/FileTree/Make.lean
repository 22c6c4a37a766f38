import MarkdownLinks.FileTree.Resolve

/-! Making the directories that lead to a place in a file tree. What is there already is followed, links
included; where there is nothing, a directory is made. -/

namespace MarkdownLinks.FileTree

/-- The place that a name leads to, a new directory if there is nothing. -/
def enter (t : FileTree) (here : Location) (name : Text) : Except Fault (FileTree × Location) :=
  match t.follow .find maxLinks here [name] with
  | .ok location => .ok (t, location)
  | .error .notFound =>
      (t.follow .create maxLinks here [name]).map fun location => (t.put location .directory, location)
  | .error fault => .error fault

/-- The place that some names lead to one after the other, in a tree with the directories for it. -/
def makeDirectories (t : FileTree) (here : Location) (names : List Text) :
    Except Fault (FileTree × Location) :=
  names.foldlM (fun (t, here) name => t.enter here name) (t, here)

end MarkdownLinks.FileTree
