import MarkdownLinks.Fence
import MarkdownLinks.Text.Lines

/-! The lines of a document that a check looks at, with their numbers. Fenced blocks are either left
out, fence lines included, or read like everything else. -/

namespace MarkdownLinks

/-- What a check does with fenced blocks, if nothing else is said it respects them. -/
inductive FencePolicy where
  /-- Fence lines and the lines between them are left out. -/
  | respect
  /-- Every line is read. -/
  | ignore
  deriving DecidableEq, Inhabited

/-- A line of a document; the first one has the number 1. -/
structure Line where
  number : Nat
  text : Text
  deriving DecidableEq

/-- The numbered lines of a document. -/
def numberedLines (content : Text) : List Line :=
  ((lines content).zipIdx 1).map fun (text, number) => ⟨number, text⟩

/-- The lines that are prose, when reading begins at `place`. -/
def proseFrom (place : Fence) : List Line → List Line
  | [] => []
  | l :: ls =>
      if place.isProse l.text then l :: proseFrom (place.step l.text).1 ls
      else proseFrom (place.step l.text).1 ls

/-- The lines of a document that a check looks at. -/
def proseLines (policy : FencePolicy) (content : Text) : List Line :=
  match policy with
  | .respect => proseFrom .outside (numberedLines content)
  | .ignore => numberedLines content

end MarkdownLinks
