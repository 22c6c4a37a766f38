import MarkdownLinks.Check.RawText
import MarkdownLinks.Check.Unescaped

/-! The checks that run over a document, and what they report about it: first the link texts, then the
targets. -/

namespace MarkdownLinks

/-- Which checks run, and what the check on targets does with fenced blocks. -/
structure Checks where
  texts : Bool := true
  targets : Bool := true
  targetFences : FencePolicy := .ignore
  deriving DecidableEq

namespace Checks

/-- Only the check on link texts. -/
def textsOnly : Checks := { targets := false }

/-- Only the check on targets. -/
def targetsOnly (policy : FencePolicy) : Checks := { texts := false, targetFences := policy }

/-- The issues of a document. -/
def issues (checks : Checks) (file content : Text) : List Issue :=
  (if checks.texts then Check.rawTextIssues file content else []) ++
    if checks.targets then Check.unescapedIssues checks.targetFences file content else []

end Checks

end MarkdownLinks
