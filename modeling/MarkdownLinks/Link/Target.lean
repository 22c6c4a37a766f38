import MarkdownLinks.Text.Blank
import MarkdownLinks.Text.LetterCase
import MarkdownLinks.Text.Percent

/-! Link targets: whether a target leads out of the repository, which document it names, and whether
it is written as a target has to be written. A target is a path with an optional query and fragment;
the path is percent-coded. -/

namespace MarkdownLinks.Target

/-- The schemes that lead out of the repository. -/
def externalSchemes : List Text :=
  ["http://", "https://", "mailto:", "tel:", "data:"].map String.toList

def isExternal (target : Text) : Bool := externalSchemes.any fun scheme => scheme.isPrefixOf target

/-- The target up to its query and fragment. -/
def path (target : Text) : Text := target.takeWhile fun c => c != '?' && c != '#'

/-- The path that a target names, decoded. -/
def document (target : Text) : Text := Percent.decode (path target)

/-- What follows the last `/`. -/
def lastSegment (path : Text) : Text := (path.reverse.takeWhile (· != '/')).reverse

/-- The name of the file that a target names, decoded. -/
def fileName (target : Text) : Text := lastSegment (document target)

/-- Whether a text ends in the markdown extension, in any letter case. -/
def endsInMarkdown (s : Text) : Bool := ".md".toList.isSuffixOf (lowercase s)

/-- Whether a target names a markdown document of the repository. -/
def isLocalDocument (target : Text) : Bool :=
  !"#".toList.isPrefixOf target && !isExternal target && endsInMarkdown (document target)

/-- Whether a target holds a space or a plus sign, both of which have to be escaped. -/
def needsEscape (target : Text) : Bool := target.any fun c => c == ' ' || c == '+'

/-- A target without the angle brackets around it. -/
def withoutBrackets (target : Text) : Text :=
  match target with
  | '<' :: inner => if inner.getLast? = some '>' then inner.dropLast else target
  | _ => target

/-- The destination that a target as written stands for: without blanks around it, then without angle
brackets around it. -/
def destination (written : Text) : Text := withoutBrackets (trim written)

end MarkdownLinks.Target
