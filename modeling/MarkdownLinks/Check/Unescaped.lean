import MarkdownLinks.Issue
import MarkdownLinks.Link.Target
import MarkdownLinks.Link.Spaced
import MarkdownLinks.Prose

/-! The check on targets. The target of a link, an image or a reference definition that stays in the
repository must not hold a raw space or plus sign; the title is no part of the target. Of each line the
inline links come first, from left to right, and then the definition. -/

namespace MarkdownLinks.Check

/-- Whether a destination breaks the rule. -/
def isUnescaped (destination : Text) : Bool :=
  !Target.isExternal destination && Target.needsEscape destination

/-- The inline links and images of a line that break the rule, by trimmed text and destination. -/
def unescapedLinks (line : Text) : List Link :=
  ((Link.spaced.items line).map fun link => ⟨trim link.text, Target.destination link.target⟩).filter
    fun link => isUnescaped link.target

/-- The destination of the reference definition on a line, if it breaks the rule. -/
def unescapedDefinition? (line : Text) : Option Text :=
  ((Link.definitionTarget? line).map Target.destination).filter isUnescaped

/-- The issues of one line. -/
def unescapedIssuesOfLine (file : Text) (line : Line) : List Issue :=
  ((unescapedLinks line.text).map fun link =>
      Issue.unescaped file line.number .unescapedTarget link.text link.target) ++
    (unescapedDefinition? line.text).toList.map fun target =>
      Issue.unescaped file line.number .unescapedDefinition [] target

/-- What is reported on a line is one of its links, or its definition. -/
theorem mem_unescapedIssuesOfLine_iff {file : Text} {line : Line} {issue : Issue} :
    issue ∈ unescapedIssuesOfLine file line ↔
      (∃ link ∈ unescapedLinks line.text,
        issue = .unescaped file line.number .unescapedTarget link.text link.target) ∨
      ∃ target, unescapedDefinition? line.text = some target ∧
        issue = .unescaped file line.number .unescapedDefinition [] target := by
  simp only [unescapedIssuesOfLine, List.mem_append, List.mem_map, Option.mem_toList, eq_comm (a := issue)]

/-- The targets of a document that break the rule, line by line. -/
def unescapedIssues (policy : FencePolicy) (file content : Text) : List Issue :=
  (proseLines policy content).flatMap (unescapedIssuesOfLine file)

/-- Each of these issues names the document, and none is about the text of a link. -/
theorem mem_unescapedIssues {policy : FencePolicy} {file content : Text} {issue : Issue}
    (h : issue ∈ unescapedIssues policy file content) : issue.file = file ∧ issue.kind ≠ .rawText := by
  obtain ⟨line, -, h⟩ := List.mem_flatMap.1 h
  rcases mem_unescapedIssuesOfLine_iff.1 h with ⟨link, -, rfl⟩ | ⟨target, -, rfl⟩
  · exact ⟨rfl, fun h => Issue.Kind.noConfusion h⟩
  · exact ⟨rfl, fun h => Issue.Kind.noConfusion h⟩

end MarkdownLinks.Check
