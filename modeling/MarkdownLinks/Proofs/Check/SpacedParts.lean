import MarkdownLinks.Check.Unescaped
import MarkdownLinks.Proofs.Link.Spaced
import MarkdownLinks.Proofs.Prose.Traversal

/-! Documents whose lines are put together from plain text, links and images with destinations that may
hold blanks. A destination is bare, and then free of parentheses, quotes and opening angle brackets, or it
stands in angle brackets; a title of any of the three kinds may follow. The check on targets takes from
such a document the links and images as they are put together, each with its destination alone: where
blanks stand on both sides of the end of a bare destination, trimming makes up for how they are divided
between the destination and its title. -/

namespace MarkdownLinks.Check

open Link

/-- A destination as it is written. -/
inductive Destination where
  | bare (s : Text) (ne_nil : s ≠ []) (free : ∀ c ∈ s, c ≠ '(' ∧ c ≠ ')' ∧ c ≠ '"' ∧ c ≠ '\'' ∧ c ≠ '<')
  | angled (s : Text) (free : '>' ∉ s)

namespace Destination

def written : Destination → Text
  | bare s _ _ => s
  | angled s _ => '<' :: (s ++ ['>'])

/-- What the destination stands for. -/
def target : Destination → Text
  | bare s _ _ => trim s
  | angled s _ => s

end Destination

/-- A link or an image as it is written. -/
structure SpacedLink where
  image : Bool
  text : Text
  destination : Destination
  title : Option (Title titleEnd?)
  text_ne_nil : text ≠ []
  text_free : ']' ∉ text

/-- The link as it is written, with an exclamation mark in front of an image. -/
def SpacedLink.written (l : SpacedLink) : Text :=
  (if l.image then ['!'] else []) ++
    '[' :: (l.text ++ ']' :: '(' :: (l.destination.written ++ (titleText l.title ++ [')'])))

/-- A part of a line. -/
inductive SpacedPart where
  | plain (s : Text) (free : '[' ∉ s)
  | link (l : SpacedLink)

namespace SpacedPart

/-- The part as it is written. -/
def text : SpacedPart → Text
  | plain s _ => s
  | link l => l.written

/-- The trimmed text and the destination of a part that is a link or an image. -/
def link? : SpacedPart → Option Link
  | plain _ _ => none
  | link l => some ⟨trim l.text, l.destination.target⟩

end SpacedPart

theorem withoutBrackets_angled (s : Text) : Target.withoutBrackets ('<' :: (s ++ ['>'])) = s := by
  simp [Target.withoutBrackets]

theorem withoutBrackets_of_head {s : Text} (h : '<' ∉ s.head?) : Target.withoutBrackets s = s := by
  unfold Target.withoutBrackets
  split
  · exact absurd rfl h
  · rfl

theorem destination_angled (s : Text) : Target.destination ('<' :: (s ++ ['>'])) = s := by
  have htrim : trim ('<' :: (s ++ ['>'])) = '<' :: (s ++ ['>']) := by
    refine trim_eq_self (fun c hc => ?_) fun c hc => ?_
    · cases hc
      rfl
    · rw [← List.cons_append, List.getLast?_concat] at hc
      cases hc
      rfl
  rw [Target.destination, htrim, withoutBrackets_angled]

/-- A link ends behind its destination and its title, and its target stands for the destination. -/
theorem Destination.exists_spacedTarget? (d : Destination) (title : Option (Title titleEnd?)) (rest : Text) :
    ∃ target, spacedTarget? (d.written ++ (titleText title ++ ')' :: rest)) = some (target, rest) ∧
      Target.destination target = d.target := by
  cases d with
  | bare s ne_nil free =>
      obtain ⟨c, u, rfl⟩ := List.exists_cons_of_ne_nil ne_nil
      have hangled : angled? (c :: u ++ (titleText title ++ ')' :: rest)) = none :=
        angled?_eq_none fun h => (free c List.mem_cons_self).2.2.2.2 (Option.some.inj h)
      have hfree : ∀ d ∈ c :: u, d ≠ ')' ∧ titleEnd? d = none := by
        intro d hd
        obtain ⟨hopen, hclose, hdouble, hsingle, -⟩ := free d hd
        refine ⟨hclose, ?_⟩
        unfold titleEnd?
        split <;> first | contradiction | rfl
      obtain ⟨target, blanks, heq, hblanks, hshortest⟩ :=
        exists_shortest?_eq titleEnd?_eq_none_of_isBlank ne_nil hfree rfl title rest
      refine ⟨target, ?_, ?_⟩
      · rw [← hshortest]
        exact spacedTarget?_eq_shortest? fun t s' h => by cases hangled.symm.trans h
      · have htrim : trim target = trim (c :: u) := by rw [heq, trim_append_of_isBlank hblanks]
        rw [Target.destination, htrim, Destination.target, withoutBrackets_of_head]
        exact fun h => (free _ (mem_of_mem_trim (List.mem_of_mem_head? h))).2.2.2.2 rfl
  | angled s free =>
      refine ⟨'<' :: (s ++ ['>']), ?_, destination_angled s⟩
      have hclose : close? titleEnd? (titleText title ++ ')' :: rest) = some rest :=
        (close?_eq_some_iff titleEnd?_eq_none_of_isBlank).2 ⟨title, rfl⟩
      rw [← spacedTarget?_angled free hclose, written]
      simp

namespace SpacedPart

/-- A scan takes from a part the link that it is, and goes on behind it. -/
theorem map_items_text_append (p : SpacedPart) (s : Text) :
    (spaced.items (p.text ++ s)).map (fun link => (⟨trim link.text, Target.destination link.target⟩ : Link)) =
      p.link?.toList ++
        (spaced.items s).map fun link => (⟨trim link.text, Target.destination link.target⟩ : Link) := by
  cases p with
  | plain w free => rw [text, items_spaced_append free, link?, Option.toList_none, List.nil_append]
  | link l =>
      obtain ⟨target, htarget, hdestination⟩ := l.destination.exists_spacedTarget? l.title s
      have hread : spaced.read ('[' :: (l.text ++ ']' :: '(' ::
          (l.destination.written ++ (titleText l.title ++ ')' :: s)))) = some (⟨l.text, target⟩, s) := by
        rw [spaced_read_eq l.text_ne_nil l.text_free, htarget, Option.map_some]
      have hmark : '[' ∉ (if l.image then ['!'] else []) := by
        split <;> decide
      have htext : (link l).text ++ s = (if l.image then ['!'] else []) ++
          '[' :: (l.text ++ ']' :: '(' :: (l.destination.written ++ (titleText l.title ++ ')' :: s))) := by
        simp [text, SpacedLink.written]
      rw [htext, items_spaced_append hmark, spaced.items_of_read hread, List.map_cons, hdestination]
      rfl

/-- The links of a line that break the rule are those among its parts. -/
theorem unescapedLinks_flatMap (parts : List SpacedPart) :
    unescapedLinks (parts.flatMap text) = (parts.filterMap link?).filter fun link => isUnescaped link.target := by
  rw [unescapedLinks]
  congr 1
  induction parts with
  | nil => rw [List.flatMap_nil, spaced.items_nil]; rfl
  | cons p ps ih =>
      rw [List.flatMap_cons, map_items_text_append, ih]
      cases p <;> rfl

theorem filter_unescapedIssuesOfLine (file : Text) (line : Line) :
    (unescapedIssuesOfLine file line).filter (fun issue => issue.kind = .unescapedTarget) =
      (unescapedLinks line.text).map fun link =>
        Issue.unescaped file line.number .unescapedTarget link.text link.target := by
  rw [unescapedIssuesOfLine, List.filter_append, List.filter_eq_self.2, List.filter_eq_nil_iff.2, List.append_nil]
  · intro issue h
    obtain ⟨target, -, rfl⟩ := List.mem_map.1 h
    simp [Issue.unescaped]
  · intro issue h
    obtain ⟨link, -, rfl⟩ := List.mem_map.1 h
    simp [Issue.unescaped]

/-- The targets that the check reports in a document are, line by line and from left to right, the
destinations among the parts of its lines that break the rule. -/
theorem unescapedTargets_of_lines {content : Text} {rows : List (List SpacedPart)}
    (h : lines content = rows.map fun parts => parts.flatMap text) (file : Text) :
    (unescapedIssues .ignore file content).filter (fun issue => issue.kind = .unescapedTarget) =
      (rows.zipIdx 1).flatMap fun (parts, number) =>
        ((parts.filterMap link?).filter fun link => isUnescaped link.target).map fun link =>
          Issue.unescaped file number .unescapedTarget link.text link.target := by
  rw [unescapedIssues_eq_flatMap (map_row_proseLines content).1, h, List.zipIdx_map, List.filter_flatMap,
    List.flatMap_map]
  congr 1
  funext ⟨parts, number⟩
  rw [filter_unescapedIssuesOfLine]
  exact congrArg (List.map _) (unescapedLinks_flatMap parts)

/-- Two lines: a link with a title that closes and reopens parentheses, directly behind it an image with a
destination in angle brackets, and then a link to the outside. -/
theorem unescapedTargets_of_two_lines :
    ∃ rows : List (List SpacedPart),
      lines "a] [ [b]( c d \t \") +(\")![e](<f)+>)\r\n[g](tel:+1\t \") +(\")".toList =
          rows.map (fun parts => parts.flatMap text) ∧
        rows.map (fun parts => parts.filterMap link?) =
          [[⟨"[b".toList, "c d".toList⟩, ⟨"e".toList, "f)+".toList⟩], [⟨"g".toList, "tel:+1".toList⟩]] ∧
        (unescapedIssues .ignore "h.md".toList
            "a] [ [b]( c d \t \") +(\")![e](<f)+>)\r\n[g](tel:+1\t \") +(\")".toList).filter
              (fun issue => issue.kind = .unescapedTarget) =
          [.unescaped "h.md".toList 1 .unescapedTarget "[b".toList "c d".toList,
            .unescaped "h.md".toList 1 .unescapedTarget "e".toList "f)+".toList] := by
  let title : Title titleEnd? :=
    ⟨"\t ".toList, '"', ") +(".toList, '"', by decide, by simp [isBlank], by decide, by decide⟩
  let rows : List (List SpacedPart) :=
    [[.plain "a] ".toList (by decide),
        .link ⟨false, " [b".toList, .bare " c d ".toList (by decide) (by simp), some title, by decide, by decide⟩,
        .link ⟨true, "e".toList, .angled "f)+".toList (by decide), none, by decide, by decide⟩],
      [.link ⟨false, "g".toList, .bare "tel:+1".toList (by decide) (by simp), some title, by decide, by decide⟩]]
  have hlines : lines "a] [ [b]( c d \t \") +(\")![e](<f)+>)\r\n[g](tel:+1\t \") +(\")".toList =
      rows.map fun parts => parts.flatMap text := by
    decide +kernel
  exact ⟨rows, hlines, by decide +kernel, (unescapedTargets_of_lines hlines "h.md".toList).trans (by decide +kernel)⟩

end SpacedPart

end MarkdownLinks.Check
