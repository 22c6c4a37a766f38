import MarkdownLinks.Text.Blank
import MarkdownLinks.Text.Lines

/-! Lines that are ended. A text that is put together from lines, each ended by a line feed or by a
carriage return and a line feed, is taken apart into the same lines. A carriage return in front of the
line feed belongs to the ending, so no line that is ended by a line feed alone has it as its last
character. A text without line feeds is one line that is not ended. No line has a line feed in it, and so
lines that are written out each with a line feed behind it can be told apart again. -/

namespace MarkdownLinks

/-- How a line is ended. -/
inductive Ending where
  | lineFeed
  | returnLineFeed
  deriving DecidableEq

/-- The characters that end a line. -/
def Ending.text : Ending → Text
  | lineFeed => ['\n']
  | returnLineFeed => ['\r', '\n']

/-- A line of text with its ending. -/
structure EndedLine where
  text : Text
  ending : Ending
  newline_not_mem : '\n' ∉ text
  return_not_last : ending = .lineFeed → '\r' ∉ text.getLast?

namespace EndedLine

variable (l : EndedLine) (s : Text)

/-- The line with its ending. -/
def full : Text := l.text ++ l.ending.text

theorem exists_full_eq : ∃ body, '\n' ∉ body ∧ l.full = body ++ ['\n'] := by
  rw [full]
  cases l.ending with
  | lineFeed => exact ⟨l.text, l.newline_not_mem, rfl⟩
  | returnLineFeed =>
      refine ⟨l.text ++ ['\r'], ?_, by simp [Ending.text]⟩
      rw [List.mem_append, not_or]
      exact ⟨l.newline_not_mem, by decide⟩

theorem dropTerminator_full : dropTerminator l.full = l.text := by
  obtain ⟨text, ending, -, hreturn⟩ := l
  cases ending with
  | returnLineFeed => simp [full, Ending.text, dropTerminator]
  | lineFeed =>
      have hreverse : (text ++ ['\n']).reverse = '\n' :: text.reverse := by simp
      rw [full, Ending.text, dropTerminator, hreverse]
      split
      · rename_i r heq
        refine absurd ?_ (hreturn rfl)
        rw [← List.head?_reverse, (List.cons.inj heq).2]
        rfl
      · rename_i r _ heq
        rw [← (List.cons.inj heq).2, List.reverse_reverse]
      · rename_i hnot
        exact absurd rfl (hnot _)

theorem firstLine_full_append : firstLine (l.full ++ s) = l.full := by
  obtain ⟨body, hbody, hfull⟩ := l.exists_full_eq
  rw [hfull, List.append_assoc, firstLine_append hbody, List.singleton_append, firstLine_newline]

theorem otherLines_full_append : otherLines (l.full ++ s) = s := by
  obtain ⟨body, hbody, hfull⟩ := l.exists_full_eq
  rw [hfull, List.append_assoc, otherLines_append hbody, List.singleton_append, otherLines_newline]

theorem lines_full_append : lines (l.full ++ s) = l.text :: lines s := by
  obtain ⟨c, t, ht⟩ : ∃ c t, l.full ++ s = c :: t := by
    obtain ⟨body, -, hfull⟩ := l.exists_full_eq
    cases body <;> simp [hfull]
  rw [lines, ht, fullLines_eq, ← ht, firstLine_full_append, otherLines_full_append, List.map_cons,
    dropTerminator_full, lines]

/-- Lines put together are taken apart into the same lines. -/
theorem lines_flatMap_full (ls : List EndedLine) : lines (ls.flatMap full) = ls.map text := by
  induction ls with
  | nil => rfl
  | cons l ls ih => rw [List.flatMap_cons, lines_full_append, ih, List.map_cons]

end EndedLine

theorem fullLines_eq_nil_iff {s : Text} : fullLines s = [] ↔ s = [] := by
  refine ⟨fun h => ?_, fun h => by rw [h, fullLines_nil]⟩
  rw [← flatten_fullLines s, h, List.flatten_nil]

theorem pushFront_append {ls : List Text} (hls : ls ≠ []) (c : Char) (more : List Text) :
    pushFront c (ls ++ more) = pushFront c ls ++ more := by
  obtain ⟨l, ls, rfl⟩ := List.exists_cons_of_ne_nil hls
  rw [List.cons_append, pushFront, pushFront]
  split <;> rfl

theorem pushFront_newline (ls : List Text) : pushFront '\n' ls = ['\n'] :: ls := by
  cases ls <;> rfl

/-- A text that ends a line is followed by lines of their own. -/
theorem fullLines_append {a : Text} (ha : a = [] ∨ a.getLast? = some '\n') (b : Text) :
    fullLines (a ++ b) = fullLines a ++ fullLines b := by
  induction a with
  | nil => rfl
  | cons c a ih =>
      rw [List.cons_append, fullLines_cons, fullLines_cons]
      cases a with
      | nil =>
          obtain rfl : c = '\n' := by simpa using ha
          rw [List.nil_append, fullLines_nil, pushFront_newline, pushFront_newline, List.singleton_append]
      | cons d a =>
          have hlast : (d :: a).getLast? = some '\n' := by
            rcases ha with ha | ha
            · cases ha
            · rwa [List.getLast?_cons_cons] at ha
          have hne : fullLines (d :: a) ≠ [] := fun h => List.cons_ne_nil d a (fullLines_eq_nil_iff.1 h)
          rw [ih (Or.inr hlast), pushFront_append hne]

theorem lines_append {a : Text} (ha : a = [] ∨ a.getLast? = some '\n') (b : Text) :
    lines (a ++ b) = lines a ++ lines b := by
  rw [lines, fullLines_append ha, List.map_append]
  rfl

theorem dropTerminator_of_not_mem {s : Text} (h : '\n' ∉ s) : dropTerminator s = s := by
  have hreverse : '\n' ∉ s.reverse := fun hmem => h (List.mem_reverse.1 hmem)
  unfold dropTerminator
  split
  · rename_i heq
    exact absurd (heq ▸ List.mem_cons_self) hreverse
  · rename_i heq
    exact absurd (heq ▸ List.mem_cons_self) hreverse
  · rfl

/-- A text without line feeds is a line. -/
theorem lines_of_not_mem {s : Text} (hne : s ≠ []) (h : '\n' ∉ s) : lines s = [s] := by
  obtain ⟨c, s, rfl⟩ := List.exists_cons_of_ne_nil hne
  have hnone : splitFirst? '\n' (c :: s) = none := splitFirst?_eq_none_iff.2 h
  have hfirst : firstLine (c :: s) = c :: s := by
    simp only [firstLine, hnone]
  have hother : otherLines (c :: s) = [] := by
    simp only [otherLines, hnone]
  rw [lines, fullLines_eq, hfirst, hother, fullLines_nil, List.map_singleton, dropTerminator_of_not_mem h]

/-- A full line has no line feed, but for one at its end. -/
theorem exists_of_mem_fullLines {s l : Text} (h : l ∈ fullLines s) :
    ∃ body, '\n' ∉ body ∧ (l = body ∨ l = body ++ ['\n']) := by
  induction s generalizing l with
  | nil => cases h
  | cons c s ih =>
      rw [fullLines_cons] at h
      by_cases hc : c = '\n'
      · rw [hc, pushFront_newline, List.mem_cons] at h
        rcases h with rfl | h
        · exact ⟨[], List.not_mem_nil, Or.inr rfl⟩
        · exact ih h
      · cases hs : fullLines s with
        | nil =>
            rw [hs, pushFront, List.mem_singleton] at h
            exact ⟨[c], by simpa using Ne.symm hc, Or.inl h⟩
        | cons d ds =>
            rw [hs, pushFront, if_neg hc, List.mem_cons] at h
            rcases h with rfl | h
            · obtain ⟨body, hbody, hd⟩ := ih (hs ▸ List.mem_cons_self)
              refine ⟨c :: body, by simp [hbody, Ne.symm hc], ?_⟩
              exact hd.imp (congrArg (c :: ·)) (congrArg (c :: ·))
            · exact ih (hs ▸ List.mem_cons_of_mem d h)

theorem prefix_dropTerminator_concat (body : Text) : dropTerminator (body ++ ['\n']) <+: body := by
  have hreverse : (body ++ ['\n']).reverse = '\n' :: body.reverse := by simp
  rw [dropTerminator, hreverse]
  split
  · rename_i r heq
    rw [← List.reverse_reverse body, (List.cons.inj heq).2, List.reverse_cons]
    exact List.prefix_append _ _
  · rename_i r _ heq
    have hbody : r.reverse = body := by rw [← (List.cons.inj heq).2, List.reverse_reverse]
    exact hbody ▸ List.prefix_refl _
  · rename_i hnot
    exact absurd rfl (hnot _)

theorem newline_not_mem_of_mem_lines {s l : Text} (h : l ∈ lines s) : '\n' ∉ l := by
  obtain ⟨full, hfull, rfl⟩ := List.mem_map.1 h
  obtain ⟨body, hbody, rfl | rfl⟩ := exists_of_mem_fullLines hfull
  · rwa [dropTerminator_of_not_mem hbody]
  · exact fun hmem => hbody ((prefix_dropTerminator_concat body).subset hmem)

/-- A line with its line feed is followed by lines of their own. -/
theorem fullLines_line_append {l : Text} (hl : '\n' ∉ l) (s : Text) :
    fullLines (l ++ '\n' :: s) = (l ++ ['\n']) :: fullLines s := by
  obtain ⟨c, t, ht⟩ : ∃ c t, l ++ '\n' :: s = c :: t := List.exists_cons_of_ne_nil (by simp)
  rw [ht, fullLines_eq, ← ht, firstLine_append hl, otherLines_append hl, firstLine_newline, otherLines_newline]

/-- Lines without line feeds, each ended by one, are the full lines of the text that they make. -/
theorem fullLines_unlines {ls : List Text} (h : ∀ l ∈ ls, '\n' ∉ l) :
    fullLines (unlines ls) = ls.map fun l => l ++ ['\n'] := by
  induction ls with
  | nil => rfl
  | cons l ls ih =>
      obtain ⟨hl, hls⟩ := List.forall_mem_cons.1 h
      calc
        fullLines (unlines (l :: ls)) = fullLines (l ++ '\n' :: unlines ls) := by
          rw [unlines, List.flatMap_cons, ← List.append_cons, unlines]
        _ = (l ++ ['\n']) :: fullLines (unlines ls) := fullLines_line_append hl (unlines ls)
        _ = (l :: ls).map fun l => l ++ ['\n'] := by rw [ih hls, List.map_cons]

end MarkdownLinks
