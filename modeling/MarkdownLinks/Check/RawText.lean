import MarkdownLinks.Issue
import MarkdownLinks.Link.Target
import MarkdownLinks.Link.Token
import MarkdownLinks.Prose

/-! The check on link texts. A link to a markdown document of the repository must not have the name of
the file, a path or any file name ending in the markdown extension for its text. Fenced blocks and code
spans are not looked at: a code span is what stands between two single backticks on a line, and the
links of a line are those that are left when its code spans are deleted. -/

namespace MarkdownLinks.Check

/-- Reads a code span: a backtick, anything but backticks and line feeds, and a backtick. -/
def codeSpan : Reader Unit where
  read
    | '\x60' :: s =>
        match s.dropWhile fun c => c != '\x60' && c != '\n' with
        | '\x60' :: rest => some ((), rest)
        | _ => none
    | _ => none
  shorter {s a rest} h := by
    split at h
    · split at h
      · rename_i inner _ _ hs
        cases h
        have hle := (List.dropWhile_sublist (l := inner) fun c => c != '\x60' && c != '\n').length_le
        rw [hs] at hle
        simp only [List.length_cons] at hle ⊢
        omega
      · cases h
    · cases h

/-- The text with its code spans deleted. -/
def withoutCodeSpans (s : Text) : Text := codeSpan.replace (fun _ => []) s

/-- Whether a link text reads like a file name or a path: it is the name of the file that the target
names, in any letter case; or it holds a slash or a backslash and no blank; or it ends in the markdown
extension. -/
def readsAsFileName (text target : Text) : Bool :=
  lowercase text == lowercase (Target.fileName target) ||
  ((text.contains '/' || text.contains '\\') && !text.any isBlank) ||
  Target.endsInMarkdown (trim text)

/-- The links of a line that break the rule. A line inside code holds no link. -/
def rawLinks (inCode : Bool) (line : Text) : List Link :=
  if inCode then []
  else (Link.tokenLinks (withoutCodeSpans line)).filter fun link =>
    Target.isLocalDocument link.target && readsAsFileName link.text link.target

/-- The links of a document that break the rule, line by line and from left to right. -/
def rawTextIssues (file content : Text) : List Issue :=
  (proseLines .respect content).flatMap fun line =>
    (rawLinks false line.text).map fun link => .rawText file line.number link.text link.target

/-- Each of these issues names the document and the rule. -/
theorem mem_rawTextIssues {file content : Text} {issue : Issue} (h : issue ∈ rawTextIssues file content) :
    issue.file = file ∧ issue.kind = .rawText := by
  obtain ⟨line, -, h⟩ := List.mem_flatMap.1 h
  obtain ⟨link, -, rfl⟩ := List.mem_map.1 h
  exact ⟨rfl, rfl⟩

end MarkdownLinks.Check
