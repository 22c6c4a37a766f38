import MarkdownLinks.Check.RawText
import MarkdownLinks.Proofs.Link.Token
import MarkdownLinks.Proofs.Text.Scan
import Mathlib.Data.List.TakeWhile

/-! Where the links that the check on link texts reports stand in the line. The check looks for links in
what is left of the line without its code spans, so a reported link is written in a stretch of the line
that may have code spans in it. It is written contiguously, as reported, exactly if there are none: each
code span takes two backticks away, and neither the trimming of the label nor the target makes up for
them. The opening bracket itself stands in the line as it does in what is left: a span ends with a
backtick, so what directly precedes the bracket is an exclamation mark in both or in neither. -/

namespace MarkdownLinks.Check

section
variable {s rest : Text}

theorem codeSpan_read_eq_some_iff :
    codeSpan.read s = some ((), rest) ↔
      ∃ inner, s = '\x60' :: (inner ++ '\x60' :: rest) ∧ ∀ c ∈ inner, c ≠ '\x60' ∧ c ≠ '\n' := by
  constructor
  · intro h
    simp only [codeSpan] at h
    split at h
    · rename_i s
      split at h
      · rename_i hdrop
        cases h
        refine ⟨s.takeWhile fun c => c != '\x60' && c != '\n', ?_, fun c hc => ?_⟩
        · rw [← hdrop, List.takeWhile_append_dropWhile]
        · simpa using List.mem_takeWhile_imp hc
      · cases h
    · cases h
  · rintro ⟨inner, rfl, hinner⟩
    have hdrop : (inner ++ '\x60' :: rest).dropWhile (fun c => c != '\x60' && c != '\n') = '\x60' :: rest := by
      rw [List.dropWhile_append_of_pos (by simpa using hinner)]
      rfl
    simp only [codeSpan, hdrop]

theorem codeSpan_local : codeSpan.Local := by
  intro s u rest h
  obtain ⟨inner, rfl, hinner⟩ := codeSpan_read_eq_some_iff.1 h
  refine ⟨'\x60' :: (inner ++ ['\x60']), by simp, fun t => codeSpan_read_eq_some_iff.2 ⟨inner, by simp, hinner⟩⟩

theorem withoutCodeSpans_eq (s : Text) : withoutCodeSpans s = codeSpan.without s := rfl

/-- Text without backticks stays as it is. -/
theorem withoutCodeSpans_append {w : Text} (hw : '\x60' ∉ w) (s : Text) :
    withoutCodeSpans (w ++ s) = w ++ withoutCodeSpans s := by
  refine Reader.replace_append_of_passes _ fun c v hv => Option.eq_none_iff_forall_ne_some.2 fun ⟨u, rest⟩ h => ?_
  obtain ⟨inner, hs, -⟩ := codeSpan_read_eq_some_iff.1 h
  exact hw ((List.cons.inj hs).1 ▸ hv.subset List.mem_cons_self)

/-- Each code span takes two backticks away. -/
theorem count_withoutCodeSpans (s : Text) :
    (withoutCodeSpans s).count '\x60' + 2 * (codeSpan.items s).length = s.count '\x60' := by
  rw [withoutCodeSpans_eq]
  induction s using codeSpan.induction with
  | nil => simp
  | char c s hread ih =>
      rw [Reader.without_of_read_eq_none hread, codeSpan.items_of_read_eq_none hread, List.count_cons,
        List.count_cons, ← ih]
      omega
  | item s u rest hread ih =>
      rw [Reader.without_of_read hread, codeSpan.items_of_read hread, List.length_cons]
      obtain ⟨inner, rfl, hinner⟩ := codeSpan_read_eq_some_iff.1 hread
      have hzero : inner.count '\x60' = 0 := List.count_eq_zero.2 fun h => (hinner _ h).1 rfl
      simp only [List.count_cons_self, List.count_append, hzero]
      omega

/-- A text with at most one backtick has no code spans. -/
theorem withoutCodeSpans_eq_self (h : s.count '\x60' ≤ 1) : withoutCodeSpans s = s := by
  have hcount := count_withoutCodeSpans s
  exact Reader.replace_of_items_eq_nil _ (List.length_eq_zero_iff.1 (by omega))

/-- A character that is no backtick stays at the end of a text. -/
theorem withoutCodeSpans_concat {c : Char} (hc : c ≠ '\x60') (s : Text) :
    withoutCodeSpans (s ++ [c]) = withoutCodeSpans s ++ [c] := by
  rw [withoutCodeSpans_eq, withoutCodeSpans_eq]
  induction s using codeSpan.induction with
  | nil =>
      have hread : codeSpan.read [c] = none := by
        refine Option.eq_none_iff_forall_ne_some.2 fun ⟨u, rest⟩ h => ?_
        obtain ⟨inner, hs, -⟩ := codeSpan_read_eq_some_iff.1 h
        exact hc (List.cons.inj hs).1
      rw [List.nil_append, Reader.without_of_read_eq_none hread, Reader.without_nil, List.nil_append]
  | char d s hread ih =>
      have hread' : codeSpan.read (d :: (s ++ [c])) = none := by
        refine Option.eq_none_iff_forall_ne_some.2 fun ⟨u, rest⟩ h => ?_
        obtain ⟨inner, hs, hinner⟩ := codeSpan_read_eq_some_iff.1 h
        -- the span would end before the last character, and be a span of the text without it
        rcases List.eq_nil_or_concat' rest with rfl | ⟨rest, e, rfl⟩
        · have hlast : (d :: s) ++ [c] = ('\x60' :: inner) ++ ['\x60'] := by simpa using hs
          exact hc (List.cons.inj (List.append_inj' hlast rfl).2).1
        · have hlast : (d :: s) ++ [c] = ('\x60' :: (inner ++ '\x60' :: rest)) ++ [e] := by simpa using hs
          rw [codeSpan_read_eq_some_iff.2 ⟨inner, (List.append_inj' hlast rfl).1, hinner⟩] at hread
          cases hread
      rw [List.cons_append, Reader.without_of_read_eq_none hread', Reader.without_of_read_eq_none hread, ih,
        List.cons_append]
  | item s u rest hread ih =>
      obtain ⟨w, rfl, hw⟩ := codeSpan_local hread
      rw [List.append_assoc, Reader.without_of_read (hw _), Reader.without_of_read hread, ih]

end

section
variable {c : Char} (hc : isBlank c = false)
include hc

theorem count_dropWhile_isBlank (s : Text) : (s.dropWhile isBlank).count c = s.count c := by
  obtain ⟨blanks, hs, hblank⟩ := exists_trimStart s
  have hzero : blanks.count c = 0 := List.count_eq_zero.2 fun h => by
    rw [hblank c h] at hc
    cases hc
  rw [show s.dropWhile isBlank = trimStart s from rfl]
  conv_rhs => rw [hs, List.count_append, hzero, Nat.zero_add]

theorem count_trim (s : Text) : (trim s).count c = s.count c := by
  rw [trim, trimEnd, List.count_reverse, count_dropWhile_isBlank hc, List.count_reverse, trimStart,
    count_dropWhile_isBlank hc]

end

/-- A link has as many backticks where it is written as in its text and its target. -/
theorem count_of_opensAs {link : Link} {s : Text} (h : link.OpensAs s) :
    s.count '\x60' = link.text.count '\x60' + link.target.count '\x60' := by
  obtain ⟨label, rfl, htext⟩ := h
  rw [← htext, count_trim (by decide)]
  simp

/-- The stretch that a link is left from is written as the link itself exactly if it has no code spans. -/
theorem opensAs_iff_of_withoutCodeSpans {link : Link} {s : Text} (h : link.OpensAs (withoutCodeSpans s)) :
    link.OpensAs s ↔ codeSpan.items s = [] := by
  constructor
  · intro hs
    have hcount := count_withoutCodeSpans s
    rw [count_of_opensAs h, count_of_opensAs hs] at hcount
    exact List.length_eq_zero_iff.1 (by omega)
  · intro hitems
    rwa [withoutCodeSpans_eq, Reader.without, Reader.replace_of_items_eq_nil _ hitems] at h

theorem getLast?_ne_of_withoutCodeSpans {s : Text} {c : Char} (hc : c ≠ '\x60')
    (h : (withoutCodeSpans s).getLast? ≠ some c) : s.getLast? ≠ some c := by
  intro hs
  obtain ⟨t, rfl⟩ := List.getLast?_eq_some_iff.1 hs
  exact h (by rw [withoutCodeSpans_concat hc, List.getLast?_concat])

/-- Without an opening bracket left there is nothing to report. -/
theorem rawLinks_eq_nil {line : Text} (h : '[' ∉ withoutCodeSpans line) : rawLinks false line = [] := by
  refine List.eq_nil_iff_forall_not_mem.2 fun link hlink => ?_
  have hmem : link ∈ Link.tokenLinks (withoutCodeSpans line) := (List.mem_filter.1 hlink).1
  obtain ⟨before, written, after, hline, -, ⟨label, rfl, -⟩, -⟩ := Link.exists_of_mem_tokenLinks hmem
  exact h (by rw [hline]; simp)

/-- Each reported link is left from a stretch of the line that begins with the bracket of the link, which
no exclamation mark directly precedes; the link is written in that stretch as reported exactly if the
stretch has no code spans. -/
theorem rawLinks_written {line : Text} {link : Link} (h : link ∈ rawLinks false line) :
    ∃ before stretch after, line = before ++ (stretch ++ after) ∧
      withoutCodeSpans line = withoutCodeSpans before ++ (withoutCodeSpans stretch ++ withoutCodeSpans after) ∧
      stretch.head? = some '[' ∧ before.getLast? ≠ some '!' ∧ link.OpensAs (withoutCodeSpans stretch) ∧
      (link.OpensAs stretch ↔ codeSpan.items stretch = []) := by
  have hmem : link ∈ Link.tokenLinks (withoutCodeSpans line) := (List.mem_filter.1 h).1
  obtain ⟨before', written, after', hline, hbefore, hopens, hne⟩ := Link.exists_of_mem_tokenLinks hmem
  obtain ⟨label, rfl, htext⟩ := hopens
  obtain ⟨target, d, htarget⟩ := (List.eq_nil_or_concat' link.target).resolve_left hne
  have hcut : codeSpan.without line = before' ++ '[' :: ((label ++ ']' :: '(' :: target) ++ d :: after') := by
    rw [← withoutCodeSpans_eq, hline, htarget]
    simp
  obtain ⟨before, inner, after, rfl, rfl, hstretch, rfl⟩ := codeSpan_local.exists_stretch hcut
  have hwritten : withoutCodeSpans ('[' :: (inner ++ [d])) = '[' :: (label ++ ']' :: '(' :: link.target) := by
    rw [withoutCodeSpans_eq, hstretch, htarget]
    simp
  have hopens : link.OpensAs (withoutCodeSpans ('[' :: (inner ++ [d]))) := ⟨label, hwritten, htext⟩
  refine ⟨before, '[' :: (inner ++ [d]), after, by simp, ?_, rfl, ?_, hopens, opensAs_iff_of_withoutCodeSpans hopens⟩
  · rw [hline, hwritten]
    rfl
  · exact getLast?_ne_of_withoutCodeSpans (by decide) hbefore

/-- A link behind a code span. -/
theorem rawLinks_written_behind_span :
    (⟨"A.md".toList, "A.md".toList⟩ : Link) ∈ rawLinks false "a \x60b\x60 [ A.md](A.md)".toList ∧
      ∃ before stretch after, "a \x60b\x60 [ A.md](A.md)".toList = before ++ (stretch ++ after) ∧
        withoutCodeSpans "a \x60b\x60 [ A.md](A.md)".toList =
          withoutCodeSpans before ++ (withoutCodeSpans stretch ++ withoutCodeSpans after) ∧
        stretch.head? = some '[' ∧ before.getLast? ≠ some '!' ∧
        Link.OpensAs ⟨"A.md".toList, "A.md".toList⟩ (withoutCodeSpans stretch) ∧
        (Link.OpensAs ⟨"A.md".toList, "A.md".toList⟩ stretch ↔ codeSpan.items stretch = []) :=
  ⟨by decide +kernel, rawLinks_written (by decide +kernel)⟩

/-- A link that is reported although no closing bracket of the line has a parenthesis behind it. -/
theorem rawLinks_not_written :
    (⟨"A.md".toList, "A.md".toList⟩ : Link) ∈ rawLinks false "[A.md]\x60x\x60(A.md)".toList ∧
      ∀ before written after, "[A.md]\x60x\x60(A.md)".toList = before ++ (written ++ after) →
        ¬Link.OpensAs ⟨"A.md".toList, "A.md".toList⟩ written := by
  refine ⟨by decide +kernel, ?_⟩
  rintro before written after hline ⟨label, rfl, -⟩
  have hinfix : [']', '('] <:+: "[A.md]\x60x\x60(A.md)".toList :=
    ⟨before ++ '[' :: label, "A.md".toList ++ after, by rw [hline]; simp⟩
  exact absurd hinfix (by decide +kernel)

-- a reported target that the line does not have
example :
    rawLinks false "[A.md](docs/\x60x\x60A.md)".toList = [⟨"A.md".toList, "docs/A.md".toList⟩] := by
  decide +kernel

end MarkdownLinks.Check
