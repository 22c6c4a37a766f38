import MarkdownLinks.Proofs.Check.RawText
import MarkdownLinks.Proofs.Link.EncodedTarget

/-! Links to documents whose target is the path encoded and whose text is the name of the file. Such a link is
reported whatever the path is made of: what encoding leaves is one token, with nothing in it that would end the
link, cut the path short or lead outside, so the target names the very path. The letter case of the text does
not matter; and but for letters it has the characters of the name, so a bracket or a backtick in the text would
be one in the name. -/

namespace MarkdownLinks.Check

open Target

/-- A link on its own is what the check looks at, if its target is one token. -/
theorem rawLinks_write {text target : Text} (htext : text ≠ []) (htarget : target ≠ [])
    (hlabel : ∀ c ∈ text, c ≠ ']' ∧ c ≠ '\x60') (htoken : ∀ c ∈ target, isBlank c = false ∧ c ≠ ')' ∧ c ≠ '\x60') :
    rawLinks false (Link.write ⟨text, target⟩) =
      if isLocalDocument target && readsAsFileName (trim text) target then [⟨trim text, target⟩] else [] := by
  have htick : '\x60' ∉ Link.write ⟨text, target⟩ := fun h => by
    simp only [Link.write, List.mem_cons, List.mem_append, List.not_mem_nil, or_false] at h
    rcases h with h | h | h | h | h | h
    · exact absurd h (by decide)
    · exact (hlabel _ h).2 rfl
    · exact absurd h (by decide)
    · exact absurd h (by decide)
    · exact (htoken _ h).2.2 rfl
    · exact absurd h (by decide)
  have hspans : withoutCodeSpans (Link.write ⟨text, target⟩) = Link.write ⟨text, target⟩ := by
    apply withoutCodeSpans_eq_self
    rw [List.count_eq_zero.2 htick]
    exact Nat.zero_le 1
  have hchars : ∀ c ∈ target, Link.isTokenChar c := fun c hc => by
    simp [Link.isTokenChar, (htoken c hc).1, (htoken c hc).2.1]
  have hlinks := Link.tokenLinks_write none htext (fun h => (hlabel _ h).1 rfl) htarget hchars
  rw [Link.titleText, List.append_nil] at hlinks
  rw [rawLinks, if_neg Bool.false_ne_true, hspans, hlinks, List.filter_cons, List.filter_nil]

/-- An encoded path is one token, and stays one with a query or a fragment that is. -/
theorem free_of_mem_encodePath_append {query : Text} (htoken : ∀ c ∈ query, isBlank c = false ∧ c ≠ ')' ∧ c ≠ '\x60')
    (path : Text) : ∀ c ∈ Percent.encodePath path ++ query, isBlank c = false ∧ c ≠ ')' ∧ c ≠ '\x60' := by
  intro c hc
  rcases List.mem_append.1 hc with hc | hc
  · refine ⟨Percent.isBlank_eq_false_of_mem_encodePath hc, ?_, ?_⟩
    · rintro rfl
      exact Percent.not_mem_encodePath (by decide) (by decide) path hc
    · rintro rfl
      exact Percent.not_mem_encodePath (by decide) (by decide) path hc
  · exact htoken c hc

/-- A link to an encoded path, with a query or a fragment behind it or without, is reported as it is written if
its text is the name of the file in any letter case. -/
theorem rawLinks_encodePath {path text query : Text}
    (hfile : ".md".toList <:+ (lastSegment path).map Char.toLower)
    (htext : text.map Char.toLower = (lastSegment path).map Char.toLower)
    (hname : ∀ c ∈ lastSegment path, c ≠ ']' ∧ c ≠ '\x60') (hquery : ∀ c ∈ query.head?, c = '?' ∨ c = '#')
    (htoken : ∀ c ∈ query, isBlank c = false ∧ c ≠ ')' ∧ c ≠ '\x60') :
    rawLinks false (Link.write ⟨text, Percent.encodePath path ++ query⟩) =
      [⟨trim text, Percent.encodePath path ++ query⟩] := by
  have hpath : endsInMarkdown path := (endsInMarkdown_lastSegment_iff path).1 (endsInMarkdown_iff.2 hfile)
  have hmarkdown : endsInMarkdown text := endsInMarkdown_iff.2 (htext ▸ hfile)
  have hne : ∀ {s : Text}, endsInMarkdown s → s ≠ [] := by
    rintro s h rfl
    exact absurd h (by decide)
  have hlabel : ∀ c ∈ text, c ≠ ']' ∧ c ≠ '\x60' := fun c hc => by
    constructor
    · rintro rfl
      exact (hname _ (LetterCase.mem_of_map_toLower_eq (by decide) (by decide) htext hc)).1 rfl
    · rintro rfl
      exact (hname _ (LetterCase.mem_of_map_toLower_eq (by decide) (by decide) htext hc)).2 rfl
  have hlocal : isLocalDocument (Percent.encodePath path ++ query) :=
    (isLocalDocument_encodePath_append hquery path (hne hpath)).trans hpath
  have hraw : readsAsFileName (trim text) (Percent.encodePath path ++ query) := by
    rw [readsAsFileName, endsInMarkdown_trim (endsInMarkdown_trim hmarkdown), Bool.or_true]
  have htarget : Percent.encodePath path ++ query ≠ [] :=
    List.append_ne_nil_of_left_ne_nil (Percent.encodePath_ne_nil (hne hpath)) query
  rw [rawLinks_write (hne hmarkdown) htarget hlabel (free_of_mem_encodePath_append htoken path), hlocal, hraw]
  rfl

/-- A name with blanks, brackets of both kinds, a percent sign, and the signs that begin a query and a fragment. -/
theorem rawLinks_encodePath_marks :
    let path := "docs: a+b/ 50% [Ä#1?) c.Md".toList
    let text := " 50% [Ä#1?) C.mD".toList
    let query := "?v=1#\"top\"".toList
    ".md".toList <:+ (lastSegment path).map Char.toLower ∧
      text.map Char.toLower = (lastSegment path).map Char.toLower ∧
      rawLinks false (Link.write ⟨text, Percent.encodePath path ++ query⟩) =
        [⟨trim text, Percent.encodePath path ++ query⟩] := by
  intro path text query
  have hfile : ".md".toList <:+ (lastSegment path).map Char.toLower := by decide +kernel
  have htext : text.map Char.toLower = (lastSegment path).map Char.toLower := by decide +kernel
  have hname : lastSegment path = " 50% [Ä#1?) c.Md".toList := by decide +kernel
  exact ⟨hfile, htext, rawLinks_encodePath hfile htext (by simp [hname]) (by simp [query]) (by simp [query, isBlank])⟩

end MarkdownLinks.Check
