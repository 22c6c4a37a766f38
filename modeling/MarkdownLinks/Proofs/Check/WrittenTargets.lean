import MarkdownLinks.Check.Unescaped
import MarkdownLinks.Proofs.Link.Definition
import MarkdownLinks.Proofs.Link.Target
import MarkdownLinks.Proofs.Prose.Traversal
import MarkdownLinks.Proofs.Report.IssueLines
import Mathlib.Data.List.Forall2

/-! Where the check on targets finds what it reports, and how that is printed. Every issue names a line of the
document, and on that line a link, an image or a reference definition is written whose destination is the
target that the issue gives. The lines are read from the first one on, so the issues stand in the order of their
lines. No line has a line feed in it, and what a target stands for has no other characters than the target as it
is written; so no target, whatever else the document has in it, breaks the line that its issue is printed on. -/

namespace MarkdownLinks.Check

open Link

theorem isUnescaped_iff {destination : Text} :
    isUnescaped destination ↔ Target.isExternal destination = false ∧ (' ' ∈ destination ∨ '+' ∈ destination) := by
  have hraw : Target.needsEscape destination ↔ ' ' ∈ destination ∨ '+' ∈ destination := by
    rw [Target.needsEscape, List.any_eq_true]
    constructor
    · rintro ⟨c, hc, h⟩
      rcases (Bool.or_eq_true _ _).mp h with h | h
      · exact Or.inl (eq_of_beq h ▸ hc)
      · exact Or.inr (eq_of_beq h ▸ hc)
    · rintro (h | h)
      · exact ⟨' ', h, rfl⟩
      · exact ⟨'+', h, rfl⟩
  rw [isUnescaped, Bool.and_eq_true, Bool.not_eq_true', hraw]

theorem mem_of_mem_withoutBrackets {c : Char} {s : Text} (h : c ∈ Target.withoutBrackets s) : c ∈ s := by
  unfold Target.withoutBrackets at h
  split at h
  · split at h
    · exact List.mem_cons_of_mem _ (List.dropLast_subset _ h)
    · exact h
  · exact h

theorem mem_of_mem_destination {c : Char} {s : Text} (h : c ∈ Target.destination s) : c ∈ s :=
  mem_of_mem_trim (mem_of_mem_withoutBrackets h)

/-- Whether a line has a link or an image with this text and this destination: the text is the label without
blanks around it, and the target as it is written stands for the destination. -/
def HasLink (line text destination : Text) : Prop :=
  ∃ (before label written after : Text) (title : Option (Title titleEnd?)),
    line = before ++ '[' :: (label ++ ']' :: '(' :: (written ++ (titleText title ++ ')' :: after))) ∧
      label ≠ [] ∧ ']' ∉ label ∧ trim label = text ∧ Target.destination written = destination

/-- Whether a line is a reference definition with this destination: nothing but blanks stands around the
label, the target and the title. -/
def HasDefinition (line destination : Text) : Prop :=
  ∃ (indent label gap written padding : Text) (title : Option (Title titleEnd?)),
    line = indent ++ '[' :: (label ++ ']' :: ':' :: (gap ++ (written ++ (titleText title ++ padding)))) ∧
      (∀ c ∈ indent, isBlank c) ∧ IsDefinitionLabel label ∧ (∀ c ∈ gap, isBlank c) ∧
      (∀ c ∈ padding, isBlank c) ∧ Target.destination written = destination

section
variable {line text target : Text}

theorem hasLink_of_mem_unescapedLinks {link : Link} (h : link ∈ unescapedLinks line) :
    HasLink line link.text link.target := by
  obtain ⟨found, hfound, rfl⟩ := List.mem_map.1 (List.mem_filter.1 h).1
  obtain ⟨s, rest, ⟨before, rfl⟩, hread⟩ := Reader.exists_of_mem_items suffix_of_spaced_read hfound
  obtain ⟨title, rfl, hne, hclosing⟩ := eq_of_spaced_read hread
  exact ⟨before, found.text, found.target, rest, title, rfl, hne, hclosing, rfl, rfl⟩

theorem hasDefinition_of_unescapedDefinition? (h : unescapedDefinition? line = some target) :
    HasDefinition line target := by
  obtain ⟨written, hwritten, rfl⟩ := Option.map_eq_some_iff.1 (Option.eq_some_of_filter_eq_some h)
  obtain ⟨s, hlabel, hends⟩ := exists_of_definitionTarget? hwritten
  obtain ⟨title, padding, rfl, hpadding⟩ := endsLine_iff.1 hends
  obtain ⟨indent, label, gap, rfl, hindent, hlabel, hgap, -⟩ := skipDefinitionLabel?_eq_some_iff.1 hlabel
  exact ⟨indent, label, gap, written, padding, title, rfl, hindent, hlabel, hgap, hpadding, rfl⟩

theorem HasLink.subset (h : HasLink line text target) : target ⊆ line := by
  obtain ⟨before, label, written, after, title, rfl, -, -, -, rfl⟩ := h
  intro c hc
  simp [mem_of_mem_destination hc]

theorem HasDefinition.subset (h : HasDefinition line target) : target ⊆ line := by
  obtain ⟨indent, label, gap, written, padding, title, rfl, -, -, -, -, rfl⟩ := h
  intro c hc
  simp [mem_of_mem_destination hc]

end

/-- Whether an issue tells what is written on a line. -/
def WrittenOn (line : Text) (issue : Issue) : Prop :=
  issue.kind = .unescapedTarget ∧ HasLink line issue.text issue.target ∨
    issue.kind = .unescapedDefinition ∧ issue.text = [] ∧ HasDefinition line issue.target

section
variable {policy : FencePolicy} {file content : Text} {issue : Issue}

theorem writtenOn_of_mem_unescapedIssuesOfLine {line : Line} (h : issue ∈ unescapedIssuesOfLine file line) :
    WrittenOn line.text issue ∧ isUnescaped issue.target := by
  rcases mem_unescapedIssuesOfLine_iff.1 h with ⟨link, hlink, rfl⟩ | ⟨target, htarget, rfl⟩
  · have hunescaped : isUnescaped link.target := (List.mem_filter.1 hlink).2
    exact ⟨Or.inl ⟨rfl, hasLink_of_mem_unescapedLinks hlink⟩, hunescaped⟩
  · have hunescaped : isUnescaped target := (Option.filter_eq_some_iff.1 htarget).2
    exact ⟨Or.inr ⟨rfl, rfl, hasDefinition_of_unescapedDefinition? htarget⟩, hunescaped⟩

/-- The line that an issue names is one of the lines that the check looks at. -/
theorem exists_line_of_mem_unescapedIssues (h : issue ∈ unescapedIssues policy file content) :
    ∃ line, (lines content)[issue.line - 1]? = some line.text ∧ issue ∈ unescapedIssuesOfLine file line ∧
      1 ≤ issue.line ∧ issue.line ≤ (lines content).length := by
  obtain ⟨line, hline, hissue⟩ := List.mem_flatMap.1 h
  have hmem : line ∈ numberFrom 1 (lines content) := (proseLines_sublist policy content).subset hline
  obtain ⟨hfirst, hlast⟩ := number_of_mem_numberFrom hmem
  rw [line_of_mem_unescapedIssuesOfLine hissue]
  exact ⟨line, getElem?_of_mem_numberFrom hmem, hissue, hfirst, by omega⟩

/-- The issues stand in the order of their lines. -/
theorem pairwise_unescapedIssues (policy : FencePolicy) (file content : Text) :
    (unescapedIssues policy file content).Pairwise fun i j => i.line ≤ j.line := by
  have hlines : (proseLines policy content).Pairwise fun l m => l.number < m.number :=
    (pairwise_numberFrom 1 (lines content)).sublist (proseLines_sublist policy content)
  rw [unescapedIssues, List.pairwise_flatMap]
  constructor
  · intro line _
    refine List.pairwise_of_forall_mem_list fun i hi j hj => ?_
    rw [line_of_mem_unescapedIssuesOfLine hi, line_of_mem_unescapedIssuesOfLine hj]
  · apply hlines.imp
    intro l m hlt i hi j hj
    rw [line_of_mem_unescapedIssuesOfLine hi, line_of_mem_unescapedIssuesOfLine hj]
    exact Nat.le_of_lt hlt

theorem newline_not_mem_target (h : issue ∈ unescapedIssues policy file content) : '\n' ∉ issue.target := by
  obtain ⟨line, hline, hissue, -, -⟩ := exists_line_of_mem_unescapedIssues h
  have hfree : '\n' ∉ line.text := newline_not_mem_of_mem_lines (List.mem_of_getElem? hline)
  rcases (writtenOn_of_mem_unescapedIssuesOfLine hissue).1 with ⟨-, hlink⟩ | ⟨-, -, hdefinition⟩
  · exact fun hmem => hfree (hlink.subset hmem)
  · exact fun hmem => hfree (hdefinition.subset hmem)

theorem newline_not_mem_message (h : issue ∈ unescapedIssues policy file content) : '\n' ∉ issue.message := by
  have htarget := newline_not_mem_target h
  obtain ⟨line, -, hissue, -, -⟩ := exists_line_of_mem_unescapedIssues h
  rcases mem_unescapedIssuesOfLine_iff.1 hissue with ⟨link, -, rfl⟩ | ⟨target, -, rfl⟩
  · exact fun hmem => htarget (Issue.newline_mem_of_message_unescaped hmem)
  · exact fun hmem => htarget (Issue.newline_mem_of_message_unescaped hmem)

end

/-- Every issue of the check on targets names the document and a line of it, and tells what is written on that
line: a link with this text and this destination, or a definition with this destination, which begins with none of
the five schemes that lead out of the repository and has a space or a plus sign. The issues stand in the order of
their lines, and a report on them prints each on a line of its own, behind the file, as it is shown, and the number of
its line. A file whose name is UTF-8 is shown by its name. -/
theorem unescapedIssues_written_and_printed (policy : FencePolicy) (file content : Text) :
    (∀ issue ∈ unescapedIssues policy file content,
      issue.file = file ∧ 1 ≤ issue.line ∧ issue.line ≤ (lines content).length ∧
        (∃ line, (lines content)[issue.line - 1]? = some line ∧ WrittenOn line issue) ∧
        (∀ scheme ∈ ["http://", "https://", "mailto:", "tel:", "data:"], ¬scheme.toList <+: issue.target) ∧
        (' ' ∈ issue.target ∨ '+' ∈ issue.target)) ∧
      (unescapedIssues policy file content).Pairwise (fun i j => i.line ≤ j.line) ∧
      (∀ r : Report, '\n' ∉ file → r.issues = unescapedIssues policy file content →
        List.Forall₂ (fun issue row => ∃ message, '\n' ∉ message ∧
            row = Native.display file ++ ':' :: (decimal issue.line ++ ':' :: ' ' :: (message ++ ['\n'])))
          (unescapedIssues policy file content) (fullLines r.issueLines)) ∧
      (Native.isUtf8 file = true → Native.display file = file) := by
  refine ⟨fun issue hissue => ?_, pairwise_unescapedIssues policy file content, fun r hfile hr => ?_,
    Native.display_of_isUtf8⟩
  · obtain ⟨line, hline, hmem, hfirst, hlast⟩ := exists_line_of_mem_unescapedIssues hissue
    obtain ⟨hwritten, hunescaped⟩ := writtenOn_of_mem_unescapedIssuesOfLine hmem
    have hfile : issue.file = file := (mem_unescapedIssues hissue).1
    obtain ⟨hinternal, hraw⟩ := isUnescaped_iff.1 hunescaped
    exact ⟨hfile, hfirst, hlast, ⟨line.text, hline, hwritten⟩, Target.isExternal_eq_false_iff.1 hinternal, hraw⟩
  · -- neither the file nor a message goes on behind a line feed, so the lines printed are the issues one by one
    have hprinted : fullLines r.issueLines = r.issues.map fun i => i.render ++ ['\n'] := by
      apply Report.fullLines_issueLines
      intro i hi
      rw [hr] at hi
      rw [(mem_unescapedIssues hi).1]
      exact ⟨hfile, newline_not_mem_message hi⟩
    rw [hprinted, hr, List.forall₂_map_right_iff, List.forall₂_same]
    intro issue hissue
    refine ⟨issue.message, newline_not_mem_message hissue, ?_⟩
    rw [Issue.render, (mem_unescapedIssues hissue).1]
    simp

/-- A line with a link whose target has a carriage return in it, behind a link with a title, and a definition
below a block. -/
theorem unescapedIssues_written_below_block :
    ∃ (content : Text) (issues : List Issue) (r : Report),
      content = "[ b ](<c d> (e))[f](g\rh+)\r\n\x60\x60\x60\n[i](j k)\n\x60\x60\x60\n\t[l]:<m+n> 'o' ".toList ∧
        issues = [.unescaped "p.md".toList 1 .unescapedTarget "b".toList "c d".toList,
          .unescaped "p.md".toList 1 .unescapedTarget "f".toList "g\rh+".toList,
          .unescaped "p.md".toList 5 .unescapedDefinition [] "m+n".toList] ∧
        unescapedIssues .respect "p.md".toList content = issues ∧ '\n' ∉ "p.md".toList ∧ r.issues = issues ∧
        (∃ line, (lines content)[0]? = some line ∧ HasLink line "f".toList "g\rh+".toList) ∧
        (∃ line, (lines content)[4]? = some line ∧ HasDefinition line "m+n".toList) ∧
        issues.Pairwise (fun i j => i.line ≤ j.line) ∧
        List.Forall₂ (fun issue row => ∃ message, '\n' ∉ message ∧
            row = "p.md".toList ++ ':' :: (decimal issue.line ++ ':' :: ' ' :: (message ++ ['\n'])))
          issues (fullLines r.issueLines) := by
  let content := "[ b ](<c d> (e))[f](g\rh+)\r\n\x60\x60\x60\n[i](j k)\n\x60\x60\x60\n\t[l]:<m+n> 'o' ".toList
  let link := Issue.unescaped "p.md".toList 1 .unescapedTarget "f".toList "g\rh+".toList
  let definition := Issue.unescaped "p.md".toList 5 .unescapedDefinition [] "m+n".toList
  let issues := [.unescaped "p.md".toList 1 .unescapedTarget "b".toList "c d".toList, link, definition]
  have hissues : unescapedIssues .respect "p.md".toList content = issues := by decide +kernel
  obtain ⟨hwritten, hordered, hprinted, hshown⟩ := unescapedIssues_written_and_printed .respect "p.md".toList content
  rw [hissues, hshown (Native.isUtf8_of_not_mem (by decide))] at hprinted
  rw [hissues] at hwritten hordered
  obtain ⟨-, -, -, ⟨line, hline, hlink⟩, -⟩ := hwritten link (by simp [issues])
  obtain ⟨-, -, -, ⟨below, hbelow, hdefinition⟩, -⟩ := hwritten definition (by simp [issues])
  refine ⟨content, issues, { issues := issues }, rfl, rfl, hissues, by decide, rfl, ⟨line, hline, ?_⟩,
    ⟨below, hbelow, ?_⟩, hordered, hprinted { issues := issues } (by decide) rfl⟩
  · rcases hlink with ⟨-, h⟩ | ⟨hkind, -⟩
    · exact h
    · cases hkind
  · rcases hdefinition with ⟨hkind, -⟩ | ⟨-, -, h⟩
    · cases hkind
    · exact h

end MarkdownLinks.Check
