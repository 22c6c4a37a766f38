import MarkdownLinks.Check.RawText
import MarkdownLinks.Proofs.Prose.Traversal
import MarkdownLinks.Proofs.Text.EndedLine

/-! Documents one after the other. Where the first one is empty or ends with a line feed, the lines of both
together are the lines of the first and then those of the second, further down by as many lines as the first
one has. A reader comes to the second document at the place where the first one left it: outside all blocks
it reads on as if the document began there, and inside a block that no line of the second document closes it
reads nothing more. Each check reports what it finds on the lines it reads, one line at a time, so its issues
follow the lines. -/

namespace MarkdownLinks

open Region

/-- The line with a number that is larger by `n`. -/
def Line.down (n : Nat) (l : Line) : Line := { l with number := l.number + n }

/-- The issue `n` lines further down. -/
def Issue.down (n : Nat) (i : Issue) : Issue := { i with line := i.line + n }

theorem numberFrom_add (n m : Nat) (ls : List Text) :
    numberFrom (n + m) ls = (numberFrom n ls).map (Line.down m) := by
  induction ls generalizing n with
  | nil => rfl
  | cons l ls ih =>
      rw [numberFrom_cons, numberFrom_cons, List.map_cons, ← ih (n + 1), Nat.add_right_comm]
      rfl

theorem numberFrom_lines_append {a : Text} (ha : a = [] ∨ a.getLast? = some '\n') (b : Text) :
    numberFrom 1 (lines (a ++ b)) =
      numberFrom 1 (lines a) ++ (numberFrom 1 (lines b)).map (Line.down (lines a).length) := by
  rw [lines_append ha, numberFrom_append, numberFrom_add]

theorem map_text_numberFrom (n : Nat) (ls : List Text) : (numberFrom n ls).map Line.text = ls := by
  induction ls generalizing n with
  | nil => rfl
  | cons l ls ih => rw [numberFrom_cons, List.map_cons, ih]

/-- A reader comes to the later lines at the place behind the earlier ones. -/
theorem proseFrom_append (place : Fence) (ls more : List Line) :
    proseFrom place (ls ++ more) = proseFrom place ls ++ proseFrom (place.behind (ls.map Line.text)) more := by
  induction ls generalizing place with
  | nil => rfl
  | cons l ls ih =>
      rw [List.cons_append, proseFrom, proseFrom, List.map_cons, Fence.behind_cons, ih]
      split <;> rfl

/-- Which lines are prose does not depend on their numbers. -/
theorem proseFrom_map_down (place : Fence) (n : Nat) (ls : List Line) :
    proseFrom place (ls.map (Line.down n)) = (proseFrom place ls).map (Line.down n) := by
  induction ls generalizing place with
  | nil => rfl
  | cons l ls ih =>
      have htext : (l.down n).text = l.text := rfl
      rw [List.map_cons, proseFrom, proseFrom, htext, ih]
      split <;> rfl

theorem proseLines_respect_append {a : Text} (ha : a = [] ∨ a.getLast? = some '\n') (b : Text) :
    proseLines .respect (a ++ b) = proseLines .respect a ++
      (proseFrom (Fence.outside.behind (lines a)) (numberFrom 1 (lines b))).map (Line.down (lines a).length) := by
  rw [proseLines_respect_eq, numberFrom_lines_append ha, proseFrom_append, proseFrom_map_down, map_text_numberFrom]
  rfl

/-- Inside a block that no line closes a reader sees nothing. -/
theorem proseFrom_numberFrom_eq_nil {k : Nat} {b : Text} (hb : ∀ l ∈ lines b, trim l ≠ marker k) :
    proseFrom (.inside (some (marker k))) (numberFrom 1 (lines b)) = [] := by
  have hinterior : ∀ l ∈ lines b, closes k l = false := fun l hl => beq_eq_false_iff_ne.2 (hb l hl)
  have hread := proseFrom_interior hinterior 1 []
  rwa [List.append_nil] at hread

section
variable {check : Line → List Issue}

/-- A check that goes from line to line finds its issues further down when the lines are further down. -/
theorem flatMap_map_down (hcheck : ∀ n l, check (l.down n) = (check l).map (Issue.down n)) (n : Nat)
    (ls : List Line) : (ls.map (Line.down n)).flatMap check = (ls.flatMap check).map (Issue.down n) := by
  rw [List.flatMap_map, List.map_flatMap]
  congr 1
  funext l
  exact hcheck n l

theorem flatMap_proseLines_ignore_append
    (hcheck : ∀ n l, check (l.down n) = (check l).map (Issue.down n)) {a : Text}
    (ha : a = [] ∨ a.getLast? = some '\n') (b : Text) :
    (proseLines .ignore (a ++ b)).flatMap check = (proseLines .ignore a).flatMap check ++
      ((proseLines .ignore b).flatMap check).map (Issue.down (lines a).length) := by
  rw [proseLines_ignore_eq, numberFrom_lines_append ha, List.flatMap_append, flatMap_map_down hcheck]
  rfl

theorem flatMap_proseLines_respect_append
    (hcheck : ∀ n l, check (l.down n) = (check l).map (Issue.down n)) {a : Text}
    (ha : a = [] ∨ a.getLast? = some '\n') (b : Text)
    (hplace : Fence.outside.behind (lines a) = .outside) :
    (proseLines .respect (a ++ b)).flatMap check = (proseLines .respect a).flatMap check ++
      ((proseLines .respect b).flatMap check).map (Issue.down (lines a).length) := by
  rw [proseLines_respect_append ha, hplace, List.flatMap_append, flatMap_map_down hcheck]
  rfl

end

theorem proseLines_respect_append_of_inside {a b : Text} (ha : a = [] ∨ a.getLast? = some '\n') {k : Nat}
    (hplace : Fence.outside.behind (lines a) = .inside (some (marker k)))
    (hb : ∀ l ∈ lines b, trim l ≠ marker k) : proseLines .respect (a ++ b) = proseLines .respect a := by
  rw [proseLines_respect_append ha, hplace, proseFrom_numberFrom_eq_nil hb, List.map_nil, List.append_nil]

namespace Check

theorem unescapedIssuesOfLine_down (file : Text) (n : Nat) (l : Line) :
    unescapedIssuesOfLine file (l.down n) = (unescapedIssuesOfLine file l).map (Issue.down n) := by
  simp only [unescapedIssuesOfLine, List.map_append, List.map_map]
  rfl

theorem rawTextIssues_down (file : Text) (n : Nat) (l : Line) :
    (rawLinks false (l.down n).text).map
        (fun link => Issue.rawText file (l.down n).number link.text link.target) =
      ((rawLinks false l.text).map
        fun link => Issue.rawText file l.number link.text link.target).map (Issue.down n) := by
  rw [List.map_map]
  rfl

/-- The checks go from document to document. Behind a text that is empty or ends with a line feed, the check
on targets that reads every line finds in the next text what it finds there alone, further down; the checks
that read past fences do so too if no block is open between the two texts, and they find nothing more if a
block is open that the next text does not close. -/
theorem issues_append {a : Text} (ha : a = [] ∨ a.getLast? = some '\n') (b file : Text) :
    unescapedIssues .ignore file (a ++ b) = unescapedIssues .ignore file a ++
        (unescapedIssues .ignore file b).map (Issue.down (lines a).length) ∧
      (Fence.outside.behind (lines a) = .outside →
        rawTextIssues file (a ++ b) = rawTextIssues file a ++
            (rawTextIssues file b).map (Issue.down (lines a).length) ∧
          unescapedIssues .respect file (a ++ b) = unescapedIssues .respect file a ++
            (unescapedIssues .respect file b).map (Issue.down (lines a).length)) ∧
      ∀ k, Fence.outside.behind (lines a) = .inside (some (marker k)) → (∀ l ∈ lines b, trim l ≠ marker k) →
        rawTextIssues file (a ++ b) = rawTextIssues file a ∧
          unescapedIssues .respect file (a ++ b) = unescapedIssues .respect file a := by
  have htargets := unescapedIssuesOfLine_down file
  refine ⟨flatMap_proseLines_ignore_append htargets ha b, fun hplace => ⟨?_, ?_⟩, fun k hplace hb => ⟨?_, ?_⟩⟩
  · exact flatMap_proseLines_respect_append (rawTextIssues_down file) ha b hplace
  · exact flatMap_proseLines_respect_append htargets ha b hplace
  · rw [rawTextIssues, proseLines_respect_append_of_inside ha hplace hb]
    rfl
  · rw [unescapedIssues, proseLines_respect_append_of_inside ha hplace hb]
    rfl

/-- A first text with a block of its own, and one that leaves a block of four backticks open, each in front of
a text with a shorter block. -/
theorem issues_append_of_blocks :
    ∃ closed unclosed next : Text,
      closed = "\x60\x60\x60\n[a](b c)\n \x60\x60\x60 \r\n[d](e f)\n".toList ∧
      unclosed = "[d](e f)\n\x60\x60\x60\x60md\r\n".toList ∧
      next = "\x60\x60\x60\n[g.md](g h.md)\n\x60\x60\x60\n[i.md](i.md) [j](k+)".toList ∧
      Fence.outside.behind (lines closed) = .outside ∧
      Fence.outside.behind (lines unclosed) = .inside (some (marker 4)) ∧
      unescapedIssues .ignore "n.md".toList (closed ++ next) =
        unescapedIssues .ignore "n.md".toList closed ++
          [.unescaped "n.md".toList 6 .unescapedTarget "g.md".toList "g h.md".toList,
            .unescaped "n.md".toList 8 .unescapedTarget "j".toList "k+".toList] ∧
      rawTextIssues "n.md".toList (closed ++ next) =
        [.rawText "n.md".toList 8 "i.md".toList "i.md".toList] ∧
      unescapedIssues .respect "n.md".toList (closed ++ next) =
        [.unescaped "n.md".toList 4 .unescapedTarget "d".toList "e f".toList,
          .unescaped "n.md".toList 8 .unescapedTarget "j".toList "k+".toList] ∧
      rawTextIssues "n.md".toList (unclosed ++ next) = [] ∧
      unescapedIssues .respect "n.md".toList (unclosed ++ next) =
        [.unescaped "n.md".toList 1 .unescapedTarget "d".toList "e f".toList] := by
  let closed := "\x60\x60\x60\n[a](b c)\n \x60\x60\x60 \r\n[d](e f)\n".toList
  let unclosed := "[d](e f)\n\x60\x60\x60\x60md\r\n".toList
  let next := "\x60\x60\x60\n[g.md](g h.md)\n\x60\x60\x60\n[i.md](i.md) [j](k+)".toList
  have hclosed : Fence.outside.behind (lines closed) = .outside := by decide +kernel
  have hunclosed : Fence.outside.behind (lines unclosed) = .inside (some (marker 4)) := by decide +kernel
  obtain ⟨hall, hout, -⟩ := issues_append (a := closed) (Or.inr (by decide +kernel)) next "n.md".toList
  obtain ⟨-, -, hin⟩ := issues_append (a := unclosed) (Or.inr (by decide +kernel)) next "n.md".toList
  obtain ⟨htexts, htargets⟩ := hout hclosed
  obtain ⟨hnoTexts, hnoTargets⟩ := hin 4 hunclosed (by decide +kernel)
  exact ⟨closed, unclosed, next, rfl, rfl, rfl, hclosed, hunclosed, hall.trans (by decide +kernel),
    htexts.trans (by decide +kernel), htargets.trans (by decide +kernel), hnoTexts.trans (by decide +kernel),
    hnoTargets.trans (by decide +kernel)⟩

end Check

end MarkdownLinks
