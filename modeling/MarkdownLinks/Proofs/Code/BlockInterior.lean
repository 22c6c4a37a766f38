import MarkdownLinks.Code.Hidden
import MarkdownLinks.Proofs.Code.SettledEdit
import MarkdownLinks.Proofs.Text.EndedLine

/-! The lines within a block. A line between the two fence lines of a block may be replaced by any line that
is no fence line, and the text is taken apart as before, but for that line: a fence above the block that
nothing closed is not closed by the new line, a block above it ends where it ended, the block itself is
closed by the same run, and what stands behind it is the same text. So what is within a block has no
influence on the masked text. -/

namespace MarkdownLinks.Code

/-- A text with a line that another line stands in front of and another one behind. -/
def withLine (head line tail : Text) : Text := head ++ '\n' :: (line ++ '\n' :: tail)

theorem append_withLine (a head line tail : Text) : a ++ withLine head line tail = withLine (a ++ head) line tail := by
  rw [withLine, withLine, List.append_assoc]

theorem withLine_append (head line tail a : Text) : withLine head line tail ++ a = withLine head line (tail ++ a) := by
  simp [withLine]

theorem head?_withLine (head line line' tail tail' : Text) :
    (withLine head line tail).head? = (withLine head line' tail').head? := by
  cases head <;> rfl

theorem fences_append {a : Text} (ha : a = [] ∨ a.getLast? = some '\n') (s : Text) :
    fences (a ++ s) = fences a ++ fences s := by
  rw [fences, fullLines_append ha, List.filterMap_append]
  rfl

/-- The fences of a text with a line are those above it, its own, and those below it. -/
theorem fences_withLine {line : Text} (hline : '\n' ∉ line) (head tail : Text) :
    fences (withLine head line tail) = fences (head ++ ['\n']) ++ ((fence? (line ++ ['\n'])).toList ++ fences tail) := by
  rw [withLine, List.append_cons, fences_append (Or.inr List.getLast?_concat), fences_newline_append hline]

/-- A line feed of a text ends the first line, or a line of what follows the first line. -/
theorem exists_above {a s head t : Text} (ha : '\n' ∉ a) (h : head ++ '\n' :: t = a ++ '\n' :: s) :
    ∃ above, (above = [] ∨ above.getLast? = some '\n') ∧ head ++ ['\n'] = a ++ '\n' :: above ∧ s = above ++ t := by
  cases hsplit : splitFirst? '\n' head with
  | none =>
      obtain ⟨rfl, rfl⟩ := append_delimiter_inj (splitFirst?_eq_none_iff.1 hsplit) ha h
      exact ⟨[], Or.inl rfl, rfl, rfl⟩
  | some p =>
      obtain ⟨b, above⟩ := p
      obtain ⟨rfl, hb⟩ := splitFirst?_eq_some_iff.1 hsplit
      rw [List.append_assoc, List.cons_append] at h
      obtain ⟨rfl, rfl⟩ := append_delimiter_inj hb ha h
      exact ⟨above ++ ['\n'], Or.inr List.getLast?_concat, by simp, by simp⟩

/-- A line that closes no block is passed over. -/
theorem throughClosing?_newline {opening : FenceLine} {a : Text} (ha : '\n' ∉ a)
    (hopen : ∀ f, FenceLine.ofLine? (a ++ ['\n']) = some f → ¬f.closes opening) (s : Text) :
    throughClosing? opening (a ++ '\n' :: s) =
      (throughClosing? opening s).map fun (through, rest) => (a ++ '\n' :: through, rest) := by
  have hfirst : firstLine (a ++ '\n' :: s) = a ++ ['\n'] := by rw [firstLine_append ha, firstLine_newline]
  rw [throughClosing?_of_not_closes (by rw [hfirst]; exact hopen), hfirst, otherLines_append ha, otherLines_newline]
  simp only [List.append_assoc, List.singleton_append]

/-- The parts behind some symbols outside code that a piece of code stands among. -/
theorem exists_eq_append_of_map_plain_append {s code : Text} {parts before after : List (Segment Char)}
    (h : s.map .plain ++ parts = before ++ .code code :: after) :
    ∃ before', before = s.map .plain ++ before' ∧ parts = before' ++ .code code :: after := by
  rcases List.append_eq_append_iff.1 h with ⟨before', rfl, hparts⟩ | ⟨between, hs, hcode⟩
  · exact ⟨before', rfl, hparts⟩
  · cases between with
    | nil => exact ⟨[], by rw [List.append_nil, hs, List.append_nil], hcode.symm⟩
    | cons p between =>
        obtain ⟨rfl, -⟩ := List.cons.inj hcode
        exact absurd (hs ▸ List.mem_append_right before List.mem_cons_self) code_not_mem_map_plain

section
variable {line line' : Text} (hline : '\n' ∉ line) (hline' : '\n' ∉ line')
  (hfence : FenceLine.ofLine? (line' ++ ['\n']) = none)
include hline hline' hfence

/-- With a line that is no fence line in the place of another one, a text has no more fences. -/
theorem fences_withLine_sublist (head tail : Text) :
    (fences (withLine head line' tail)).Sublist (fences (withLine head line tail)) := by
  have hnone : fence? (line' ++ ['\n']) = none := by rw [fence?, hfence, Option.map_none]
  rw [fences_withLine hline, fences_withLine hline', hnone]
  exact (List.Sublist.refl _).append (List.sublist_append_right _ _)

/-- A line above the closing run may be replaced, and the same run closes the block. -/
theorem throughClosing?_replace_line {opening : FenceLine} {s above tail rest : Text}
    (habove : above = [] ∨ above.getLast? = some '\n')
    (h : throughClosing? opening s = some (above ++ (line ++ '\n' :: tail), rest)) :
    throughClosing? opening (above ++ (line' ++ '\n' :: (tail ++ rest))) =
      some (above ++ (line' ++ '\n' :: tail), rest) := by
  generalize hthrough : above ++ (line ++ '\n' :: tail) = through at h
  fun_induction throughClosing? opening s generalizing through above with
  | case1 => cases h
  | case2 c s closing hf =>
      -- The closing run and the blanks in front of it have no line feed.
      cases h
      have hnl := FenceLine.newline_not_mem (Option.filter_eq_some_iff.1 hf).1
      rw [← hthrough] at hnl
      exact absurd (List.mem_append_right _ (List.mem_append_right _ List.mem_cons_self)) hnl
  | case3 c s hf ih =>
      obtain ⟨⟨through', rest'⟩, hp, h⟩ := Option.map_eq_some_iff.1 h
      cases h
      obtain ⟨a, ha, hfirst⟩ :=
        (firstLine_cases (c :: s)).resolve_right fun hlast => ne_nil_of_throughClosing? hp hlast.2.2
      have hopen : ∀ f, FenceLine.ofLine? (a ++ ['\n']) = some f → ¬f.closes opening := by
        rw [Option.filter_eq_none_iff, hfirst] at hf
        exact fun f hl => hf f hl
      rw [hfirst, List.append_assoc, List.singleton_append] at hthrough
      rcases habove with rfl | hlast
      · -- The line that is replaced is this one.
        obtain ⟨rfl, rfl⟩ := append_delimiter_inj hline ha hthrough
        have hopen' : ∀ f, FenceLine.ofLine? (line' ++ ['\n']) = some f → ¬f.closes opening := by
          intro f hl
          rw [hfence] at hl
          cases hl
        rw [List.nil_append, throughClosing?_newline hline' hopen', ← throughClosing?_eq hp, hp]
        rfl
      · obtain ⟨head, rfl⟩ := List.getLast?_eq_some_iff.1 hlast
        rw [List.append_assoc, List.singleton_append] at hthrough
        obtain ⟨above, habove, hhead, hrest⟩ := exists_above ha hthrough
        rw [hhead, List.append_assoc, List.cons_append, throughClosing?_newline ha hopen,
          ih habove through' hrest.symm hp, List.append_assoc]
        rfl

/-- A line of a block may be replaced, and the block ends with the same run. -/
theorem fencedParts_of_opens_withLine {s through rest head tail : Text} {opening : FenceLine}
    (hl : FenceLine.ofLine? (firstLine s) = some opening)
    (ht : throughClosing? opening (otherLines s) = some (through, rest))
    (hcode : opening.run ++ opening.rest ++ through = withLine head line tail) :
    fencedParts (opening.indent ++ (withLine head line' tail ++ rest)) =
      opening.indent.map .plain ++ .code (withLine head line' tail) :: fencedParts rest := by
  have hs : otherLines s ≠ [] := ne_nil_of_throughClosing? ht
  -- The line feed that ends the opening line is the first one of the block.
  obtain ⟨info, hinfo, hrest⟩ : ∃ info, '\n' ∉ opening.run ++ info ∧ opening.rest = info ++ ['\n'] := by
    obtain ⟨a, ha, hfirst⟩ := (firstLine_cases s).resolve_right fun hlast => hs hlast.2.2
    have hne : opening.rest ≠ [] := fun hnil => hs (otherLines_eq_nil_of_ofLine? hl hnil)
    obtain ⟨info, d, hconcat⟩ := (List.eq_nil_or_concat opening.rest).resolve_left hne
    have heq := FenceLine.line_eq hl
    rw [hfirst, hconcat, List.concat_eq_append, ← List.append_assoc] at heq
    obtain ⟨rfl, hd⟩ := List.append_inj' heq rfl
    cases hd
    refine ⟨info, fun hmem => ha ?_, by rw [hconcat, List.concat_eq_append]⟩
    rw [List.append_assoc]
    exact List.mem_append_right _ hmem
  have hlines : head ++ '\n' :: (line ++ '\n' :: tail) = opening.run ++ info ++ '\n' :: through := by
    rw [← withLine, ← hcode, hrest]
    simp only [List.append_assoc, List.singleton_append]
  obtain ⟨above, habove, hhead, hthrough⟩ := exists_above hinfo hlines
  have hblock : withLine head line' tail = opening.run ++ opening.rest ++ (above ++ (line' ++ '\n' :: tail)) := by
    rw [withLine, List.append_cons, hhead, hrest]
    simp only [List.append_assoc, List.cons_append, List.nil_append]
  obtain ⟨hfirst, hother⟩ := firstLine_firstLine_append s (fun hnil : otherLines s = [] => absurd hnil hs)
    (t := above ++ (line' ++ '\n' :: (tail ++ rest)))
  have hclosed := throughClosing?_replace_line hline hline' hfence habove (hthrough ▸ ht)
  have htext : opening.indent ++ (withLine head line' tail ++ rest) =
      firstLine s ++ (above ++ (line' ++ '\n' :: (tail ++ rest))) := by
    rw [FenceLine.line_eq hl, hblock]
    simp only [List.append_assoc, List.cons_append]
  rw [htext, fencedParts_of_opens (by rw [hfirst]; exact hl) (by rw [hother]; exact hclosed), hblock]

/-- A line of a block may be replaced, and the text is taken apart as before but for the line. -/
theorem fencedParts_withLine {s head tail : Text} {before after : List (Segment Char)}
    (h : fencedParts s = before ++ .code (withLine head line tail) :: after) :
    fencedParts (segmentsText before ++ (withLine head line' tail ++ segmentsText after)) =
      before ++ .code (withLine head line' tail) :: after := by
  have hrow : ∀ (front : List (Segment Char)) (l : Text),
      segmentsText front ++ (withLine head l tail ++ segmentsText after) =
        withLine (segmentsText front ++ head) l (tail ++ segmentsText after) := by
    intro front l
    rw [← List.append_assoc, append_withLine, withLine_append]
  have hfound : ∀ {t : Text} {front : List (Segment Char)},
      fencedParts t = front ++ .code (withLine head line tail) :: after →
        t = withLine (segmentsText front ++ head) line (tail ++ segmentsText after) := by
    intro t front ht
    rw [← hrow, ← segmentsText_code, ← segmentsText_append, ← ht, segmentsText_fencedParts]
  induction s using blocks_induction generalizing before with
  | nil => exact absurd rfl (ne_nil_of_fencedParts_eq h)
  | line s hloose ih =>
      -- No block begins on the first line, nor does one with fewer fences below it.
      rw [fencedParts_of_loose hloose] at h
      obtain ⟨before, rfl, hother⟩ := exists_eq_append_of_map_plain_append h
      have hs : otherLines s ≠ [] := ne_nil_of_fencedParts_eq hother
      have hsub := fences_withLine_sublist hline hline' hfence (segmentsText before ++ head) (tail ++ segmentsText after)
      rw [← hfound hother, ← hrow] at hsub
      rw [segmentsText_append, segmentsText_map_plain, List.append_assoc, fencedParts_append_of_loose hs hloose hsub,
        ih hother, List.append_assoc]
  | block s opening through rest hl ht ih =>
      rw [fencedParts_of_opens hl ht] at h
      obtain ⟨before, rfl, hparts⟩ := exists_eq_append_of_map_plain_append h
      cases before with
      | nil =>
          obtain ⟨hcode, rfl⟩ := List.cons.inj hparts
          rw [List.append_nil, segmentsText_map_plain, segmentsText_fencedParts]
          exact fencedParts_of_opens_withLine hline hline' hfence hl ht (Segment.code.inj hcode)
      | cons p before =>
          obtain ⟨rfl, hrest⟩ := List.cons.inj hparts
          have hhead := head?_withLine (segmentsText before ++ head) line' line (tail ++ segmentsText after)
            (tail ++ segmentsText after)
          rw [← hfound hrest, ← hrow] at hhead
          rw [segmentsText_append, segmentsText_map_plain, segmentsText_code, List.append_assoc, List.append_assoc,
            fencedParts_append_of_opens hl ht (fun m _ hmem => hhead ▸ hmem), ih hrest]
          simp only [List.append_assoc, List.cons_append]

end

/-- A line between the fence lines of a hidden block may be replaced by a line without line feeds that
begins, behind its blanks, with neither three backticks nor three tildes: then the masked text is the same,
and what is hidden is the same but for that line of that block. -/
theorem hide_replace_line (text : Text) (n : Nat) (head line tail line' : Text)
    (hcode : (hide text).2.fenced[n]? = some (withLine head line tail)) (hline : '\n' ∉ line) (hline' : '\n' ∉ line')
    (htick : ¬"```".toList <+: trimStart line') (htilde : ¬"~~~".toList <+: trimStart line') :
    ∃ before after, fencedParts text = before ++ .code (withLine head line tail) :: after ∧
      (codes before).length = n ∧
      text = segmentsText before ++ (withLine head line tail ++ segmentsText after) ∧
      hide (segmentsText before ++ (withLine head line' tail ++ segmentsText after)) =
        ((hide text).1, ⟨(hide text).2.fenced.set n (withLine head line' tail), (hide text).2.inline⟩) := by
  obtain ⟨before, after, hparts, rfl⟩ := exists_eq_append_of_getElem?_codes hcode
  have hblank : ∀ c ∈ ['\n'], isBlank c := by simp [isBlank]
  have hfence : FenceLine.ofLine? (line' ++ ['\n']) = none := FenceLine.ofLine?_append_eq_none hblank htick htilde
  have hreplaced := fencedParts_withLine hline hline' hfence hparts
  refine ⟨before, after, hparts, rfl, ?_, ?_⟩
  · rw [← segmentsText_code, ← segmentsText_append, ← hparts, segmentsText_fencedParts]
  · simp only [hide, hideFenced, hreplaced, hparts, codes_append, codes_code,
      placeholdersFrom_append_code before (withLine head line' tail) (withLine head line tail)]
    simp

/-- Tildes in the new line, of which there are enough to close the first fence, do not stand at its front. -/
theorem hide_replace_line_of_tildes :
    let text := "~~~~\n```\na\n[b](c)\n```\n`d`".toList
    ∃ front behind, text = front ++ ("```\na\n[b](c)\n```".toList ++ behind) ∧
      hide (front ++ ("```\n`` ~~~~\n[b](c)\n```".toList ++ behind)) =
        ("~~~~\n__FENCED_CODE_BLOCK_0__\n__INLINE_CODE_0__".toList,
          ⟨["```\n`` ~~~~\n[b](c)\n```".toList], ["`d`".toList]⟩) := by
  intro text
  obtain ⟨before, after, -, -, htext, hhide⟩ :=
    hide_replace_line text 0 "```".toList ['a'] "[b](c)\n```".toList "`` ~~~~".toList (by decide +kernel)
      (by decide +kernel) (by decide +kernel) (by decide +kernel) (by decide +kernel)
  refine ⟨segmentsText before, segmentsText after, htext, hhide.trans ?_⟩
  decide +kernel

end MarkdownLinks.Code
