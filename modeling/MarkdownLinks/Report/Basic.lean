import MarkdownLinks.Issue
import MarkdownLinks.Skipped
import MarkdownLinks.Text.Lines

/-! The report of a run: what was checked, what was left out, and the issues found. Only issues fail a
run. As text a report is one line for each issue, one line for each skip, and a summary that says how
many links break each rule and what to do about them. -/

namespace MarkdownLinks

structure Report where
  scannedFiles : Nat := 0
  skippedFiles : Nat := 0
  ok : Bool := true
  issues : List Issue := []
  skipped : List Skipped := []
  deriving DecidableEq

namespace Report

/-- The number of links with a text that breaks the rule. -/
def rawTextCount (r : Report) : Nat := r.issues.countP fun i => i.kind = .rawText

/-- The number of targets that break the rule. -/
def unescapedCount (r : Report) : Nat := r.issues.length - r.rawTextCount

/-- The exit status of a run with this report. -/
def exitCode (r : Report) : Nat := if r.ok then 0 else 1

/-- One line for each issue. -/
def issueLines (r : Report) : Text := unlines (r.issues.map Issue.render)

/-- One line for each skip. -/
def skippedLines (r : Report) : Text := unlines (r.skipped.map Skipped.render)

/-- How many links break each rule, and the remedy; nothing about a rule that none breaks. -/
def summary (r : Report) : Text :=
  unlines <|
    (if r.rawTextCount = 0 then [] else
      ["Found ".toList ++ decimal r.rawTextCount ++
          " documentation link(s) with non-human-readable text.".toList,
        "Use a descriptive phrase instead of the raw file name.".toList]) ++
    (if r.unescapedCount = 0 then [] else
      ["Found ".toList ++ decimal r.unescapedCount ++
          " markdown link(s) with unencoded spaces or plus signs.".toList,
        "Please URL-encode spaces as %20 and '+' as %2B in relative links.".toList])

end Report

end MarkdownLinks
