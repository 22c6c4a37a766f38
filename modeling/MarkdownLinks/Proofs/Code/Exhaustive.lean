import MarkdownLinks.Proofs.Code.Fences
import MarkdownLinks.Proofs.Code.Placeholder
import MarkdownLinks.Proofs.Code.Runs

/-! Hiding leaves no code. Without its blocks a text has no fence that a later one closes, and replacing
spans, which begin with a backtick and may reach over lines, makes no fence that was not there: it only
takes fences away. Nor do the spans leave two runs of the same length. So an edit of the masked text
sees neither a whole block nor a closed span, and hiding its code again changes nothing. -/

namespace MarkdownLinks.Code

/-- The spans of a text may be replaced by their placeholders, and no fence arises: neither in the text
nor where the text continues `front`, which may not end within a run that the text goes on with. -/
theorem fences_spans_sublist (front : Text) {s : Text} {n : Nat}
    (hfront : '\x60' ∉ front.getLast? ∨ Unticked isTick s) :
    (fences (front ++ placeholdersFrom inlinePlaceholder n (spanParts isTick s))).Sublist
      (fences (front ++ s)) := by
  fun_induction spanParts isTick s generalizing front n with
  | case1 => exact List.Sublist.refl _
  | case2 c s hc through rest hs ih =>
      -- The placeholder ends with an underscore, so what follows it starts afresh.
      obtain rfl : c = '\x60' := beq_iff_eq.1 hc
      have hlast : '\x60' ∉ front.getLast? := hfront.resolve_right fun h => by simpa [isTick] using h _ rfl
      have hlow : (inlinePlaceholder n).getLast? = some '_' := Slot.getLast?_placeholder (.inline n)
      have hend : '\x60' ∉ (front ++ inlinePlaceholder n).getLast? := by
        rw [List.getLast?_append, hlow, Option.some_or, Option.mem_some]
        decide
      obtain ⟨word, hword⟩ := Slot.exists_placeholder_eq_cons (.inline n)
      have hline := Slot.newline_not_mem_placeholder (.inline n)
      rw [hword, List.mem_cons, not_or] at hline
      have hfences := fences_replace_sublist hlast hline.2 (s.takeWhile isTick ++ through) rest
      rw [← hword, List.cons_append, List.append_assoc, ← throughRun?_eq hs,
        List.takeWhile_append_dropWhile] at hfences
      rw [placeholdersFrom_code, ← List.append_assoc]
      apply (ih _ (Or.inl hend)).trans
      rw [List.append_assoc]
      exact hfences
  | case3 c s hc hs ih =>
      have hrun : front ++ c :: s = front ++ (c :: s.takeWhile isTick) ++ s.dropWhile isTick := by
        rw [List.append_assoc, List.cons_append, List.takeWhile_append_dropWhile]
      rw [placeholdersFrom_map_plain_append, ← List.append_assoc, hrun]
      exact ih _ (Or.inr (Unticked.dropWhile s))
  | case4 c s hc ih =>
      rw [placeholdersFrom_plain, List.append_cons, List.append_cons front c s]
      refine ih _ (Or.inl fun h => hc ?_)
      rw [List.getLast?_concat] at h
      obtain rfl : c = '\x60' := Option.some.inj h
      rfl

/-- A text without blocks is left as it is. -/
theorem hideFenced_of_codes_eq_nil {s : Text} (h : codes (fencedParts s) = []) : hideFenced s = (s, []) := by
  have hparts := eq_map_plain_of_codes_eq_nil h
  rw [segmentsText_fencedParts] at hparts
  rw [hideFenced, hparts, placeholdersFrom_map_plain, codes_map_plain]

/-- A text without spans is left as it is. -/
theorem hideInline_of_codes_eq_nil {s : Text} (h : codes (spanParts isTick s) = []) : hideInline s = (s, []) := by
  have hparts := eq_map_plain_of_codes_eq_nil h
  rw [segmentsText_spanParts] at hparts
  rw [hideInline, hparts, placeholdersFrom_map_plain, codes_map_plain]

/-- If no code is hidden, the text is left as it is. -/
theorem hide_of_snd_eq {text : Text} (h : (hide text).2 = ⟨[], []⟩) : hide text = (text, ⟨[], []⟩) := by
  have hblocks := hideFenced_of_codes_eq_nil (congrArg Hidden.fenced h)
  have hspans : codes (spanParts isTick (hideFenced text).1) = [] := congrArg Hidden.inline h
  rw [hblocks] at hspans
  rw [hide, hblocks]
  simp only [hideInline_of_codes_eq_nil hspans]

theorem hideFenced_of_pairwise {s : Text}
    (h : (fences s).Pairwise fun opening closing => ¬Closes closing opening) : hideFenced s = (s, []) :=
  hideFenced_of_codes_eq_nil (by rw [fencedParts_of_pairwise h, codes_map_plain])

theorem hideInline_of_nodup {s : Text} (h : (runLengths isTick s).Nodup) : hideInline s = (s, []) :=
  hideInline_of_codes_eq_nil (by rw [spanParts_of_nodup h, codes_map_plain])

/-- A line without backticks holds no code: one fence alone makes no block. -/
theorem hide_of_line {s : Text} (hline : '\n' ∉ s) (htick : '\x60' ∉ s) : hide s = (s, ⟨[], []⟩) := by
  have hother : otherLines s = [] := by
    have happend := otherLines_append hline []
    rwa [List.append_nil, otherLines_nil] at happend
  have hfences : (fences s).Pairwise fun opening closing => ¬Closes closing opening := by
    rw [fences_eq, hother, fences_nil, List.append_nil]
    cases fence? (firstLine s) with
    | none => exact List.Pairwise.nil
    | some f => exact List.pairwise_singleton _ f
  have hruns : (runLengths isTick s).Nodup := by
    have hunticked : ∀ c ∈ s, isTick c = false := fun c hc =>
      beq_eq_false_iff_ne.2 fun heq => htick (heq ▸ hc)
    have happend := runLengths_append_of_not hunticked []
    rw [List.append_nil, runLengths_nil] at happend
    rw [happend]
    exact List.nodup_nil
  rw [hide, hideFenced_of_pairwise hfences]
  simp only [hideInline_of_nodup hruns]

/-- Hiding the code of a text whose code is hidden finds none, and changes nothing: of the fence lines of the masked
text none closes an earlier one, and no two of its runs of backticks are equally long. -/
theorem hide_hide (text : Text) :
    hide (hide text).1 = ((hide text).1, ⟨[], []⟩) ∧
      ((fences (hide text).1).Pairwise fun opening closing => ¬Closes closing opening) ∧
      (runLengths isTick (hide text).1).Nodup := by
  have hblocks := (fences_placeholdersFrom (fun k => Slot.exists_placeholder_eq_cons (.fenced k))
    (fun k => Slot.newline_not_mem_placeholder (.fenced k)) 0 text).2.2
  have hfences : (fences (hide text).1).Pairwise fun opening closing => ¬Closes closing opening :=
    hblocks.sublist (fences_spans_sublist [] (Or.inl (by simp)))
  have hruns : (runLengths isTick (hide text).1).Nodup :=
    (runLengths_placeholdersFrom (fun k => Slot.isTick_eq_false_of_mem_placeholder (.inline k)) _).2
  refine ⟨?_, hfences, hruns⟩
  generalize (hide text).1 = masked at hfences hruns ⊢
  rw [hide, hideFenced_of_pairwise hfences]
  simp only [hideInline_of_nodup hruns]

end MarkdownLinks.Code
