import MarkdownLinks.Proofs.Check.SharedDestination
import MarkdownLinks.Proofs.Link.Definition
import MarkdownLinks.Proofs.Prose.Traversal
import MarkdownLinks.Proofs.Text.EndedLine

/-! References in their two forms. A label with a destination, perhaps a title, and blanks at the end can be
written as a link, `[label](destination "title" )`, or as a reference definition, `[label]: destination
"title" `. The check on targets judges the destination of the definition, whatever stands behind it. The link
is judged alike when there is no title, and when no blank separates the title from the closing parenthesis.
With blanks behind the title the link is never judged by its destination; a title without a closing
parenthesis is then a part of the target as it stands. -/

namespace MarkdownLinks.Check

open Link

/-- What a reference is put together from. -/
structure Reference where
  label : Text
  destination : SharedDestination
  title : Option (Title titleEnd?)
  padding : Text
  label_ne_nil : label ≠ []
  label_head : '^' ∉ label.head?
  label_free : ∀ c ∈ label, c ≠ '[' ∧ c ≠ ']' ∧ c ≠ '\n'
  title_free : ∀ c ∈ titleText title, c ≠ '[' ∧ c ≠ '\n'
  padding_blank : ∀ c ∈ padding, isBlank c ∧ c ≠ '\n'

namespace Reference

variable (r : Reference)

/-- What follows the destination, in both forms. -/
def tail : Text := titleText r.title ++ r.padding

/-- The reference as a link. -/
def asLink : Text :=
  '[' :: (r.label ++ ']' :: '(' :: (r.destination.written ++ (r.tail ++ [')'])))

/-- The reference as a definition. -/
def asDefinition : Text :=
  '[' :: (r.label ++ ']' :: ':' :: ' ' :: (r.destination.written ++ r.tail))

theorem isBlank_of_mem_padding : ∀ c ∈ r.padding, isBlank c := fun c hc => (r.padding_blank c hc).1

theorem free_of_mem_tail {c : Char} (hc : c ∈ r.tail) : c ≠ '[' ∧ c ≠ '\n' := by
  rcases List.mem_append.1 hc with hc | hc
  · exact r.title_free c hc
  · obtain ⟨hblank, hnewline⟩ := r.padding_blank c hc
    refine ⟨fun heq => ?_, hnewline⟩
    rw [heq] at hblank
    cases hblank

theorem isBlank_head?_tail {c : Char} (hc : c ∈ r.tail.head?) : isBlank c := by
  unfold tail at hc
  cases htitle : r.title with
  | none =>
      rw [htitle] at hc
      exact r.isBlank_of_mem_padding c (List.mem_of_mem_head? hc)
  | some t =>
      obtain ⟨d, blanks, hblanks⟩ := List.exists_cons_of_ne_nil t.blanks_ne_nil
      rw [htitle, titleText, t.text_append, hblanks] at hc
      cases hc
      exact t.isBlank_of_mem c (hblanks ▸ List.mem_cons_self)

theorem endsLine_tail : endsLine r.tail = true :=
  endsLine_iff.2 ⟨r.title, r.padding, rfl, r.isBlank_of_mem_padding⟩

theorem skipDefinitionLabel?_asDefinition :
    skipDefinitionLabel? r.asDefinition = some (r.destination.written ++ r.tail) := by
  obtain ⟨e, w, hwritten, hblank, -⟩ := r.destination.exists_written_eq_cons
  have hlabel : IsDefinitionLabel r.label := ⟨r.label_ne_nil, fun h => (r.label_free _ h).2.1 rfl, r.label_head⟩
  have hgap : ∀ c ∈ [' '], isBlank c := by simp [isBlank]
  refine skipDefinitionLabel?_eq_some_iff.2 ⟨[], r.label, [' '], rfl, List.forall_mem_nil _, hlabel, hgap, ?_⟩
  rw [hwritten]
  rintro c ⟨⟩
  exact hblank

/-- The target of the definition is its destination as it is written. -/
theorem definitionTarget?_asDefinition : definitionTarget? r.asDefinition = some r.destination.written := by
  rw [definitionTarget?, skipDefinitionLabel?_asDefinition, Option.bind_some]
  cases hdest : r.destination with
  | token s ne_nil free =>
      have hword : ∀ c ∈ s, (!isBlank c) = true := fun c hc => by rw [(free c hc).1]; rfl
      have htail : r.tail.takeWhile (fun c => !isBlank c) = [] ∧ r.tail.dropWhile (fun c => !isBlank c) = r.tail := by
        cases htail : r.tail with
        | nil => exact ⟨rfl, rfl⟩
        | cons c z =>
            have hc : ¬ (!isBlank c) = true := by
              rw [r.isBlank_head?_tail (by rw [htail]; rfl)]
              decide
            exact ⟨List.takeWhile_cons_of_neg hc, List.dropWhile_cons_of_neg hc⟩
      have htake : (s ++ r.tail).takeWhile (fun c => !isBlank c) = s := by
        rw [List.takeWhile_append_of_pos hword, htail.1, List.append_nil]
      have hdrop : (s ++ r.tail).dropWhile (fun c => !isBlank c) = r.tail := by
        rw [List.dropWhile_append_of_pos hword, htail.2]
      simp only [SharedDestination.angled?_written_append, Option.bind_none, Option.none_or]
      rw [SharedDestination.written, htake, hdrop, r.endsLine_tail, if_pos ⟨ne_nil, rfl⟩]
  | angled s free =>
      simp only [SharedDestination.angled?_written_append, Option.bind_some, r.endsLine_tail, if_true, Option.some_or]

end Reference

/-- Whether the check on targets reports the target in a document, as one of the given kind. -/
def Reported (file content : Text) (kind : Issue.Kind) (target : Text) : Prop :=
  ∃ issue ∈ unescapedIssues .ignore file content, issue.kind = kind ∧ issue.target = target

instance (file content : Text) (kind : Issue.Kind) (target : Text) : Decidable (Reported file content kind target) :=
  inferInstanceAs (Decidable (∃ _ ∈ _, _))

section
variable {line : Text} (hne : line ≠ []) (hline : '\n' ∉ line) (file : Text)
include hne hline

theorem unescapedIssues_of_line : unescapedIssues .ignore file line = unescapedIssuesOfLine file ⟨1, line⟩ := by
  rw [unescapedIssues_eq_flatMap (map_row_proseLines line).1, lines_of_not_mem hne hline]
  exact List.append_nil _

theorem reported_definition_iff {t : Text} :
    Reported file line .unescapedDefinition t ↔ unescapedDefinition? line = some t := by
  rw [Reported, unescapedIssues_of_line hne hline]
  constructor
  · rintro ⟨issue, hissue, hkind, rfl⟩
    rcases mem_unescapedIssuesOfLine_iff.1 hissue with ⟨link, -, rfl⟩ | ⟨target, htarget, rfl⟩
    · cases hkind
    · exact htarget
  · intro h
    exact ⟨_, mem_unescapedIssuesOfLine_iff.2 (Or.inr ⟨t, h, rfl⟩), rfl, rfl⟩

theorem reported_link_iff {t : Text} :
    Reported file line .unescapedTarget t ↔ ∃ link ∈ unescapedLinks line, link.target = t := by
  rw [Reported, unescapedIssues_of_line hne hline]
  constructor
  · rintro ⟨issue, hissue, hkind, rfl⟩
    rcases mem_unescapedIssuesOfLine_iff.1 hissue with ⟨link, hmem, rfl⟩ | ⟨target, -, rfl⟩
    · exact ⟨link, hmem, rfl⟩
    · cases hkind
  · rintro ⟨link, hmem, rfl⟩
    exact ⟨_, mem_unescapedIssuesOfLine_iff.2 (Or.inl ⟨link, hmem, rfl⟩), rfl, rfl⟩

end

namespace Reference

variable (r : Reference) (file : Text)

theorem newline_not_mem_asLink : '\n' ∉ r.asLink := by
  intro h
  simp only [asLink, List.mem_cons, List.mem_append, List.not_mem_nil, or_false] at h
  rcases h with h | h | h | h | h | h | h
  · exact absurd h (by decide)
  · exact (r.label_free _ h).2.2 rfl
  · exact absurd h (by decide)
  · exact absurd h (by decide)
  · exact (r.destination.free_of_mem_written h).2.2 rfl
  · exact (r.free_of_mem_tail h).2 rfl
  · exact absurd h (by decide)

theorem newline_not_mem_asDefinition : '\n' ∉ r.asDefinition := by
  intro h
  simp only [asDefinition, List.mem_cons, List.mem_append] at h
  rcases h with h | h | h | h | h | h | h
  · exact absurd h (by decide)
  · exact (r.label_free _ h).2.2 rfl
  · exact absurd h (by decide)
  · exact absurd h (by decide)
  · exact absurd h (by decide)
  · exact (r.destination.free_of_mem_written h).2.2 rfl
  · exact (r.free_of_mem_tail h).2 rfl

/-- The definition is judged by its destination. -/
theorem reported_asDefinition_iff {t : Text} :
    Reported file r.asDefinition .unescapedDefinition t ↔ t = r.destination.target ∧ isUnescaped t := by
  have hne : r.asDefinition ≠ [] := List.cons_ne_nil _ _
  rw [reported_definition_iff hne r.newline_not_mem_asDefinition, unescapedDefinition?,
    definitionTarget?_asDefinition, Option.map_some, SharedDestination.destination_written, Option.filter_eq_some_iff,
    Option.some.injEq, eq_comm]

/-- The link is judged by what is read as its target. -/
theorem reported_asLink_iff {t : Text} :
    Reported file r.asLink .unescapedTarget t ↔
      ∃ target rest, spacedTarget? (r.destination.written ++ (r.tail ++ [')'])) = some (target, rest) ∧
        t = Target.destination target ∧ isUnescaped t := by
  have hbehind : '[' ∉ r.destination.written ++ (r.tail ++ [')']) := fun h => by
    rcases List.mem_append.1 h with h | h
    · exact (r.destination.free_of_mem_written h).1 rfl
    · rcases List.mem_append.1 h with h | h
      · exact (r.free_of_mem_tail h).1 rfl
      · exact absurd h (by decide)
  have hne : r.asLink ≠ [] := List.cons_ne_nil _ _
  rw [reported_link_iff hne r.newline_not_mem_asLink, unescapedLinks, asLink,
    items_spaced_eq r.label_ne_nil (fun h => (r.label_free _ h).2.1 rfl) (fun h => (r.label_free _ h).1 rfl) hbehind]
  cases spacedTarget? (r.destination.written ++ (r.tail ++ [')'])) with
  | none => simp
  | some p =>
      obtain ⟨target, rest⟩ := p
      constructor
      · rintro ⟨link, hlink, rfl⟩
        obtain ⟨hlink, hunescaped⟩ := List.mem_filter.1 hlink
        obtain rfl := List.mem_singleton.1 hlink
        exact ⟨target, rest, rfl, rfl, hunescaped⟩
      · rintro ⟨target', rest', h, rfl, hunescaped⟩
        cases h
        exact ⟨_, List.mem_filter.2 ⟨List.mem_singleton.2 rfl, hunescaped⟩, rfl⟩

theorem reported_asLink_iff_of_spacedTarget? {target rest : Text}
    (h : spacedTarget? (r.destination.written ++ (r.tail ++ [')'])) = some (target, rest)) {t : Text} :
    Reported file r.asLink .unescapedTarget t ↔ t = Target.destination target ∧ isUnescaped t := by
  simp only [reported_asLink_iff, h, Option.some.injEq, Prod.mk.injEq]
  constructor
  · rintro ⟨_, _, ⟨rfl, rfl⟩, ht⟩
    exact ht
  · exact fun ht => ⟨target, rest, ⟨rfl, rfl⟩, ht⟩

/-- With blanks at its end and no closing parenthesis before them, all of the reference is its target. -/
theorem spacedTarget?_tail (hpadding : r.padding ≠ []) (htitle : ')' ∉ titleText r.title) :
    spacedTarget? (r.destination.written ++ (r.tail ++ [')'])) = some (r.destination.written ++ r.tail, []) :=
  r.destination.spacedTarget?_padded htitle hpadding r.isBlank_of_mem_padding

/-- Without blanks behind a title the link is judged by its destination. -/
theorem reported_asLink_iff_target (h : r.title = none ∨ r.padding = []) {t : Text} :
    Reported file r.asLink .unescapedTarget t ↔ t = r.destination.target ∧ isUnescaped t := by
  by_cases hpadding : r.padding = []
  · have hread : spacedTarget? (r.destination.written ++ (r.tail ++ [')'])) = some (r.destination.written, []) := by
      rw [tail, hpadding, List.append_nil, SharedDestination.spacedTarget?_titled]
    rw [reported_asLink_iff_of_spacedTarget? r file hread, SharedDestination.destination_written]
  · have htitle : r.title = none := h.resolve_right hpadding
    have hread := r.spacedTarget?_tail hpadding (by rw [htitle]; exact List.not_mem_nil)
    have hdestination : Target.destination (r.destination.written ++ r.tail) = r.destination.target := by
      rw [tail, htitle, titleText, List.nil_append, Target.destination, trim_append_of_isBlank r.isBlank_of_mem_padding,
        ← Target.destination, SharedDestination.destination_written]
    rw [reported_asLink_iff_of_spacedTarget? r file hread, hdestination]

section
variable {title : Title titleEnd?} (htitle : r.title = some title) (hpadding : r.padding ≠ [])
include htitle hpadding

/-- With blanks behind a title the link is not judged by its destination. -/
theorem not_reported_asLink : ¬ Reported file r.asLink .unescapedTarget r.destination.target := by
  rw [reported_asLink_iff, tail, htitle, titleText, List.append_assoc]
  rintro ⟨target, rest, hread, hdestination, -⟩
  obtain ⟨s', heq, hne, hclose⟩ := exists_of_spacedTarget? hread
  have hnone : close? titleEnd? s' = none :=
    SharedDestination.close?_behind_destination title hpadding r.isBlank_of_mem_padding r.destination hne heq
      hdestination.symm
  rw [hnone] at hclose
  cases hclose

/-- With blanks behind a title without a closing parenthesis the link is judged by its destination with the
title. -/
theorem reported_asLink_iff_title (hparen : ')' ∉ title.text) {t : Text} :
    Reported file r.asLink .unescapedTarget t ↔ t = r.destination.written ++ title.text ∧ isUnescaped t := by
  have htail : r.tail = title.text ++ r.padding := by rw [tail, htitle, titleText]
  have hread := r.spacedTarget?_tail hpadding (by rwa [htitle])
  have hdestination : Target.destination (r.destination.written ++ r.tail) = r.destination.written ++ title.text := by
    rw [htail, r.destination.destination_written_title title r.isBlank_of_mem_padding]
  rw [reported_asLink_iff_of_spacedTarget? r file hread, hdestination]

end

/-- The definition is judged by its destination, and the link is judged as the definition is when no title is
followed by blanks. Otherwise the link is not judged by its destination; without another closing parenthesis
the title is then a part of the target. -/
theorem reported_asLink_iff_asDefinition (r : Reference) (file : Text) :
    (∀ t, Reported file r.asDefinition .unescapedDefinition t ↔ t = r.destination.target ∧ isUnescaped t) ∧
      (r.title = none ∨ r.padding = [] →
        ∀ t, Reported file r.asLink .unescapedTarget t ↔ Reported file r.asDefinition .unescapedDefinition t) ∧
      (∀ title, r.title = some title → r.padding ≠ [] →
        ¬ Reported file r.asLink .unescapedTarget r.destination.target ∧
          (')' ∉ title.text → ∀ t, Reported file r.asLink .unescapedTarget t ↔
            t = r.destination.written ++ title.text ∧ isUnescaped t)) := by
  refine ⟨fun t => r.reported_asDefinition_iff file, fun h t => ?_, fun title htitle hpadding => ⟨?_, fun hparen t => ?_⟩⟩
  · rw [r.reported_asLink_iff_target file h, r.reported_asDefinition_iff file]
  · exact r.not_reported_asLink file htitle hpadding
  · exact r.reported_asLink_iff_title file htitle hpadding hparen

/-- A title that ends right before the closing parenthesis: both forms are judged by what stands in the angle
brackets. -/
theorem reported_asLink_title_closed :
    ∃ r : Reference, r.asLink = "[x](<a b>\t'c+')".toList ∧ r.asDefinition = "[x]: <a b>\t'c+'".toList ∧
      (∀ t, Reported "d.md".toList r.asLink .unescapedTarget t ↔
        Reported "d.md".toList r.asDefinition .unescapedDefinition t) ∧
      Reported "d.md".toList r.asDefinition .unescapedDefinition "a b".toList := by
  let title : Title titleEnd? := ⟨['\t'], '\'', "c+".toList, '\'', by decide, by simp [isBlank], by decide, by decide⟩
  let r : Reference := ⟨['x'], .angled "a b".toList (by simp), some title, [], by decide, by decide, by simp,
    by simp [title, titleText, Title.text], by simp⟩
  obtain ⟨hdefinition, halike, -⟩ := reported_asLink_iff_asDefinition r "d.md".toList
  exact ⟨r, by decide, by decide, halike (Or.inr rfl), (hdefinition _).2 ⟨rfl, by decide +kernel⟩⟩

/-- A blank behind the title makes the title a part of the target of a link, though not of a definition. -/
theorem reported_asLink_blank_behind_title :
    ∃ r : Reference, r.asLink = "[x](a.md \"t\" )".toList ∧ r.asDefinition = "[x]: a.md \"t\" ".toList ∧
      Reported "b.md".toList r.asLink .unescapedTarget "a.md \"t\"".toList ∧
      ¬ Reported "b.md".toList r.asDefinition .unescapedDefinition "a.md \"t\"".toList := by
  let title : Title titleEnd? := ⟨[' '], '"', ['t'], '"', by decide, by simp [isBlank], by decide, by decide⟩
  refine ⟨⟨['x'], .token "a.md".toList (by decide) (by simp [isBlank]), some title, [' '], by decide, by decide, by simp,
    by simp [title, titleText, Title.text], by simp [isBlank]⟩, by decide, by decide, ?_, ?_⟩
  · decide +kernel
  · decide +kernel

end Reference

end MarkdownLinks.Check
