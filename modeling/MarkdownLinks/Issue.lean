import MarkdownLinks.Text.Native

/-! What a check reports: a link with the place where it stands and a message about it. -/

namespace MarkdownLinks

namespace Issue

/-- The rule that a link breaks. -/
inductive Kind where
  /-- The link text is a file name or a path. -/
  | rawText
  /-- The target of a link or an image holds a raw space or plus sign. -/
  | unescapedTarget
  /-- The target of a reference definition holds a raw space or plus sign. -/
  | unescapedDefinition
  deriving DecidableEq

def Kind.name : Kind → Text
  | .rawText => "link_text".toList
  | .unescapedTarget => "unencoded_target".toList
  | .unescapedDefinition => "unencoded_definition".toList

end Issue

/-- A link that breaks a rule. The target is given as written, not decoded. -/
structure Issue where
  file : Text
  line : Nat
  kind : Issue.Kind
  text : Text
  target : Text
  message : Text
  deriving DecidableEq

namespace Issue

/-- A link to a document whose text is a file name or a path. -/
def rawText (file : Text) (line : Nat) (text target : Text) : Issue where
  file := file
  line := line
  kind := .rawText
  text := text
  target := target
  message :=
    "Link text '".toList ++ text ++
      "' should be human-readable, not a raw file name or path (target: ".toList ++ target ++ [')']

/-- A target with characters that have to be escaped. -/
def unescaped (file : Text) (line : Nat) (kind : Kind) (text target : Text) : Issue where
  file := file
  line := line
  kind := kind
  text := text
  target := target
  message :=
    "Unencoded character(s) in ".toList ++
      (if kind = .unescapedDefinition then "link definition" else "link target").toList ++
      ": '".toList ++ target ++ "'. Encode spaces as %20 and '+' as %2B.".toList

/-- An issue on one line, behind the place where it stands. -/
def render (i : Issue) : Text :=
  Native.display i.file ++ ':' :: (decimal i.line ++ ':' :: ' ' :: i.message)

end Issue

end MarkdownLinks
