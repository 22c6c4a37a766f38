import MarkdownLinks.Proofs.Text.EndedLine
import MarkdownLinks.Report.Basic

/-! The lines that a report prints for its issues. An issue is printed with the file, the number of the line and
the message. A number is digits, and what the message says about a target is on one line, so an issue takes
up one line of its own unless the name of its file or its target has a line feed. -/

namespace MarkdownLinks

theorem newline_not_mem_decimal (n : Nat) : '\n' ∉ decimal n := fun h => absurd (mem_decimal h) (by decide)

namespace Issue

theorem newline_mem_of_render {i : Issue} (h : '\n' ∈ i.render) : '\n' ∈ i.file ∨ '\n' ∈ i.message := by
  have h : '\n' ∈ Native.display i.file ∨ '\n' ∈ i.message := by simpa [render, newline_not_mem_decimal] using h
  exact h.imp_left fun hfile => (Native.mem_of_mem_display hfile).resolve_left (by decide)

theorem newline_mem_of_message_unescaped {file text target : Text} {n : Nat} {kind : Kind}
    (h : '\n' ∈ (unescaped file n kind text target).message) : '\n' ∈ target := by
  have hfront : '\n' ∉ "Unencoded character(s) in ".toList := by decide
  have hwhat : '\n' ∉ (if kind = .unescapedDefinition then "link definition" else "link target").toList := by
    split <;> decide
  have hbetween : '\n' ∉ ": '".toList := by decide
  have hremedy : '\n' ∉ "'. Encode spaces as %20 and '+' as %2B.".toList := by decide
  simpa only [unescaped, List.mem_append, hfront, hwhat, hbetween, hremedy, false_or, or_false] using h

end Issue

/-- Where no file and no message has a line feed, each issue is printed on a line of its own. -/
theorem Report.fullLines_issueLines {r : Report} (h : ∀ i ∈ r.issues, '\n' ∉ i.file ∧ '\n' ∉ i.message) :
    fullLines r.issueLines = r.issues.map fun i => i.render ++ ['\n'] := by
  have hrows : ∀ row ∈ r.issues.map Issue.render, '\n' ∉ row := by
    intro row hrow
    obtain ⟨i, hi, rfl⟩ := List.mem_map.1 hrow
    exact fun hnewline => (Issue.newline_mem_of_render hnewline).elim (h i hi).1 (h i hi).2
  calc
    fullLines r.issueLines = (r.issues.map Issue.render).map fun row => row ++ ['\n'] := fullLines_unlines hrows
    _ = r.issues.map fun i => i.render ++ ['\n'] := List.map_map

end MarkdownLinks
