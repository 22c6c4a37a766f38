import MarkdownLinks.Link.Target
import MarkdownLinks.Proofs.Text.Blank
import MarkdownLinks.Proofs.Text.LetterCase

/-! What a target is told by. It is external only if it has a colon in front of its query and fragment, which
begin at the first of two characters. Whether a text ends in the markdown extension is a matter of its last
three characters and of ASCII letter case alone, although the test lowercases all of Unicode. None of the three
is blank or separates the segments of a path, so a text that ends in the extension still does when it is
trimmed, and a path ends in it exactly if its last segment does. -/

namespace MarkdownLinks.Target

section
variable {w : Text} (hw : ∀ c ∈ w, c ≠ '?' ∧ c ≠ '#')
include hw

theorem path_append (s : Text) : path (w ++ s) = w ++ path s :=
  List.takeWhile_append_of_pos fun c hc => by
    rw [Bool.and_eq_true, bne_iff_ne, bne_iff_ne]
    exact hw c hc

theorem prefix_path {target : Text} (h : w <+: target) : w <+: path target := by
  obtain ⟨s, rfl⟩ := h
  rw [path_append hw]
  exact List.prefix_append w _

end

/-- A query or a fragment is no part of the path. -/
theorem path_cons_of_eq {c : Char} (hc : c = '?' ∨ c = '#') (s : Text) : path (c :: s) = [] := by
  rcases hc with rfl | rfl <;> rfl

/-- A target stays in the repository unless it begins with one of five schemes. -/
theorem isExternal_eq_false_iff {target : Text} :
    isExternal target = false ↔
      ∀ scheme ∈ ["http://", "https://", "mailto:", "tel:", "data:"], ¬scheme.toList <+: target := by
  simp only [isExternal, externalSchemes, List.any_map, List.any_eq_false, Function.comp_apply,
    List.isPrefixOf_iff_prefix]

theorem colon_mem_path {target : Text} (h : isExternal target) : ':' ∈ path target := by
  have hschemes : ∀ scheme ∈ externalSchemes, ':' ∈ scheme ∧ ∀ c ∈ scheme, c ≠ '?' ∧ c ≠ '#' := by
    simp [externalSchemes]
  obtain ⟨scheme, hscheme, hprefix⟩ := List.any_eq_true.1 h
  obtain ⟨hcolon, hfree⟩ := hschemes scheme hscheme
  exact (prefix_path hfree (List.isPrefixOf_iff_prefix.1 hprefix)).subset hcolon

theorem endsInMarkdown_iff {s : Text} : endsInMarkdown s ↔ ".md".toList <:+ s.map Char.toLower := by
  rw [endsInMarkdown, List.isSuffixOf_iff_suffix]
  exact suffix_lowercase_iff (by simp)

/-- Whether a text is the markdown extension, in any letter case. -/
def IsMarkdownExtension (v : Text) : Prop := v.map Char.toLower = ".md".toList

theorem exists_of_endsInMarkdown {s : Text} (h : endsInMarkdown s) : ∃ u v, s = u ++ v ∧ IsMarkdownExtension v := by
  obtain ⟨t, ht⟩ := endsInMarkdown_iff.1 h
  obtain ⟨u, v, hs, -, hv⟩ := List.map_eq_append_iff.1 ht.symm
  exact ⟨u, v, hs, hv⟩

theorem endsInMarkdown_of_suffix {s v : Text} (hv : endsInMarkdown v) (h : v <:+ s) : endsInMarkdown s :=
  endsInMarkdown_iff.2 ((endsInMarkdown_iff.1 hv).trans (h.map Char.toLower))

namespace IsMarkdownExtension

variable {v : Text} (hv : IsMarkdownExtension v)
include hv

theorem endsInMarkdown_append (u : Text) : endsInMarkdown (u ++ v) := by
  rw [endsInMarkdown_iff, List.map_append, hv]
  exact List.suffix_append _ _

theorem ne_nil : v ≠ [] := by
  rintro rfl
  cases hv

theorem toLower_mem {c : Char} (hc : c ∈ v) : c.toLower ∈ ".md".toList := hv ▸ List.mem_map_of_mem hc

theorem slash_not_mem : '/' ∉ v := fun hc => absurd (hv.toLower_mem hc) (by decide)

theorem isBlank_eq_false {c : Char} (hc : c ∈ v) : isBlank c = false := by
  refine Bool.eq_false_iff.2 fun hblank => ?_
  -- No blank is a capital letter, so a blank would stand in the extension as it is.
  have hlower : c.toLower = c := by
    rcases LetterCase.toLower_cases c with heq | ⟨hfirst, hlast, -⟩
    · exact heq
    · simp only [isBlank, Bool.or_eq_true, Bool.and_eq_true, decide_eq_true_eq, beq_iff_eq] at hblank
      omega
  have hmem := hv.toLower_mem hc
  rw [hlower] at hmem
  have hfree : ∀ d ∈ ".md".toList, isBlank d = false := by simp [isBlank]
  rw [hfree c hmem] at hblank
  cases hblank

end IsMarkdownExtension

theorem endsInMarkdown_trim {s : Text} (h : endsInMarkdown s) : endsInMarkdown (trim s) := by
  obtain ⟨u, v, rfl, hv⟩ := exists_of_endsInMarkdown h
  rw [trim_append_of_not_isBlank hv.ne_nil fun c hc => hv.isBlank_eq_false hc]
  exact hv.endsInMarkdown_append _

theorem lastSegment_append {v : Text} (hv : '/' ∉ v) (u : Text) : lastSegment (u ++ v) = lastSegment u ++ v := by
  have hall : ∀ c ∈ v.reverse, (c != '/') = true := fun c hc =>
    bne_iff_ne.2 fun heq => hv (heq ▸ List.mem_reverse.1 hc)
  rw [lastSegment, List.reverse_append, List.takeWhile_append_of_pos hall, List.reverse_append,
    List.reverse_reverse, ← lastSegment]

theorem lastSegment_suffix (s : Text) : lastSegment s <:+ s := by
  rw [← List.reverse_prefix, lastSegment, List.reverse_reverse]
  exact List.takeWhile_prefix _

/-- A path ends in the extension exactly if its last segment does. -/
theorem endsInMarkdown_lastSegment_iff (s : Text) : endsInMarkdown (lastSegment s) ↔ endsInMarkdown s := by
  constructor
  · exact fun h => endsInMarkdown_of_suffix h (lastSegment_suffix s)
  · intro h
    obtain ⟨u, v, rfl, hv⟩ := exists_of_endsInMarkdown h
    rw [lastSegment_append hv.slash_not_mem]
    exact hv.endsInMarkdown_append _

end MarkdownLinks.Target
