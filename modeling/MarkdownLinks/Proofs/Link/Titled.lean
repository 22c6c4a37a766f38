import MarkdownLinks.Link.Enclosed
import MarkdownLinks.Proofs.Link.Enclosed
import MarkdownLinks.Proofs.Link.Spaced
import MarkdownLinks.Proofs.Link.Token

/-! What the three forms of links make of one link. A token with a title in double quotes behind it can be read
in each of them. The two forms that know titles take the token for the target; the third, for which the target
is everything between the parentheses, takes the title too. -/

namespace MarkdownLinks.Link

theorem suffix_of_cons_suffix_append {c : Char} {s a b : Text} (hc : c ∉ a) (h : c :: s <:+ a ++ b) : c :: s <:+ b := by
  induction a with
  | nil => exact h
  | cons d a ih =>
      obtain ⟨hd, ha⟩ := List.ne_and_not_mem_of_not_mem_cons hc
      rcases List.suffix_cons_iff.1 h with heq | h
      · exact absurd (List.cons.inj heq).1 hd
      · exact ih ha h

/-- Behind an angle bracket in a title there is one double quote left. -/
theorem exists_eq_of_bracket_suffix (t : Title quotedTitleEnd?) {s : Text} (h : '>' :: s <:+ t.text ++ [')']) :
    ∃ w, s = w ++ ['"', ')'] ∧ w <:+ t.inner ∧ '"' ∉ w := by
  obtain ⟨hopening, hclosing⟩ := eq_quote_of_quotedTitleEnd? t.delimiters
  have hquote : '"' ∉ t.inner := hclosing ▸ t.closing_not_mem
  have hfront : '>' ∉ t.blanks ++ ['"'] := fun hmem => by
    rcases List.mem_append.1 hmem with hmem | hmem
    · exact absurd (t.isBlank_of_mem _ hmem) (by decide)
    · exact absurd hmem (by decide)
  rw [t.text_append, hopening, hclosing, List.append_cons] at h
  have hrest := suffix_of_cons_suffix_append hfront h
  have hend : ['"', ')'] <:+ t.inner ++ ['"', ')'] := List.suffix_append _ _
  rcases List.suffix_or_suffix_of_suffix hrest hend with hshort | ⟨w, hw⟩
  · exact absurd (hshort.subset List.mem_cons_self) (by decide)
  · cases w with
    | nil => exact absurd (List.cons.inj hw).1 (by decide)
    | cons d w =>
        obtain ⟨rfl, rfl⟩ := List.cons.inj hw
        have hinner : '>' :: w <:+ t.inner := by
          rw [← hw] at hrest
          exact ((List.suffix_append_inj_of_length_eq rfl).1 hrest).1
        have hsuffix : w <:+ t.inner := (List.suffix_cons '>' w).trans hinner
        exact ⟨w, rfl, hsuffix, fun hmem => hquote (hsuffix.subset hmem)⟩

section
variable {target : Text} (hfree : ∀ c ∈ target, isTokenChar c) {title : Option (Title quotedTitleEnd?)}
  (hparen : ')' ∉ titleText title)
include hfree

/-- No link ends within a token. -/
theorem close?_token_append_eq_none {v : Text} (hv : v <:+ target) (hne : v ≠ []) (s : Text) :
    close? titleEnd? (v ++ s) = none := by
  obtain ⟨c, v, rfl⟩ := List.exists_cons_of_ne_nil hne
  have hc := hfree c (hv.subset List.mem_cons_self)
  simp only [isTokenChar, Bool.and_eq_true, Bool.not_eq_true', bne_iff_ne] at hc
  exact close?_cons_eq_none hc.2 hc.1 (v ++ s)

include hparen

/-- Behind a destination in angle brackets that is more or less than the token the link does not end. -/
theorem close?_eq_none_of_angled? {written s : Text}
    (h : angled? (target ++ (titleText title ++ [')'])) = some (written, s)) (hne : target ≠ written) :
    close? titleEnd? s = none := by
  obtain ⟨inner, hwritten, heq, -⟩ := exists_of_angled? h
  rcases List.append_eq_append_iff.1 heq with ⟨z, hz, hrest⟩ | ⟨z, rfl, rfl⟩
  · -- the bracket is closed within the title
    have hznil : z ≠ [] := by
      rintro rfl
      exact hne (by rw [hz, List.append_nil])
    obtain ⟨z, d, rfl⟩ := (List.eq_nil_or_concat' z).resolve_left hznil
    have hd : d = '>' := by
      have hlast : written.getLast? = some '>' := by
        rw [hwritten, ← List.cons_append, List.getLast?_concat]
      rw [hz, ← List.append_assoc, List.getLast?_concat] at hlast
      exact Option.some.inj hlast
    have hsuffix : '>' :: s <:+ titleText title ++ [')'] := by
      rw [hrest, hd, List.append_assoc]
      exact List.suffix_append z _
    cases title with
    | none => exact absurd (hsuffix.subset List.mem_cons_self) (by decide)
    | some t =>
        obtain ⟨w, rfl, hw, hquote⟩ := exists_eq_of_bracket_suffix t hsuffix
        refine close?_quote_eq_none hquote fun hmem => hparen ?_
        have hinner : ')' ∈ t.inner := hw.subset hmem
        simp [titleText, Title.text, hinner]
  · -- the token goes on behind the bracket
    have hznil : z ≠ [] := by
      rintro rfl
      exact hne (List.append_nil _)
    exact close?_token_append_eq_none hfree (List.suffix_append _ z) hznil _

/-- A token with a title in double quotes behind it, or without one, is the target. -/
theorem spacedTarget?_token (htarget : target ≠ []) :
    spacedTarget? (target ++ (titleText title ++ [')'])) = some (target, []) := by
  have hclose : close? titleEnd? (titleText title ++ [')']) = some [] :=
    (close?_eq_some_iff titleEnd?_eq_none_of_isBlank).2 ⟨title.map Title.ofQuoted, by rw [titleText_map_ofQuoted]⟩
  have hnot : ')' ∉ target := fun h => absurd (hfree _ h) (by decide)
  have hshortest : shortest? titleEnd? (target ++ (titleText title ++ [')'])) = some (target, []) :=
    shortest?_append htarget hnot (fun v hv _ hne => close?_token_append_eq_none hfree hv hne _) hclose
  by_cases hwhole : ∃ s, angled? (target ++ (titleText title ++ [')'])) = some (target, s)
  · obtain ⟨s, hs⟩ := hwhole
    obtain ⟨inner, hinner, -, hbracket⟩ := exists_of_angled? hs
    have hangled := spacedTarget?_angled hbracket hclose
    rwa [List.append_cons inner, ← List.cons_append, ← hinner] at hangled
  · rw [← hshortest]
    apply spacedTarget?_eq_shortest?
    intro written s h
    apply close?_eq_none_of_angled? hfree hparen h
    rintro rfl
    exact hwhole ⟨s, h⟩

end

/-- A link whose target is one token, with a title in double quotes behind it or without one. -/
structure TitledLink where
  text : Text
  path : Text
  title : Option (Title quotedTitleEnd?)
  text_ne_nil : text ≠ []
  target_ne_nil : path ++ titleText title ≠ []
  text_free : ∀ c ∈ text, c ≠ ']' ∧ c ≠ '\x60' ∧ c ≠ '\n'
  path_free : ∀ c ∈ path, isBlank c = false ∧ c ≠ ')' ∧ c ≠ '\x60'
  title_free : ∀ c ∈ titleText title, c ≠ ')' ∧ c ≠ '\x60' ∧ c ≠ '\n'

namespace TitledLink

variable (l : TitledLink)

/-- What stands between the parentheses. -/
def target : Text := l.path ++ titleText l.title

/-- The link as it is written. -/
def written : Text := write ⟨l.text, l.target⟩

theorem isTokenChar_of_mem_path {c : Char} (h : c ∈ l.path) : isTokenChar c := by
  simp [isTokenChar, (l.path_free c h).1, (l.path_free c h).2.1]

theorem closing_not_mem_text : ']' ∉ l.text := fun h => (l.text_free _ h).1 rfl

theorem tokenLinks_written (hpath : l.path ≠ []) : tokenLinks l.written = [⟨trim l.text, l.path⟩] :=
  tokenLinks_write l.title l.text_ne_nil l.closing_not_mem_text hpath fun _ => l.isTokenChar_of_mem_path

theorem items_spaced_written (hpath : l.path ≠ []) : spaced.items l.written = [⟨l.text, l.path⟩] := by
  have htarget := spacedTarget?_token (fun _ => l.isTokenChar_of_mem_path) (fun h => (l.title_free _ h).1 rfl) hpath
  have hread : spaced.read l.written = some (⟨l.text, l.path⟩, []) := by
    rw [written, write, target, List.append_assoc, spaced_read_eq l.text_ne_nil l.closing_not_mem_text, htarget,
      Option.map_some]
  rw [spaced.items_of_read hread, spaced.items_nil]

theorem enclosed_read_written : enclosed.read l.written = some (⟨l.text, l.target⟩, []) := by
  refine enclosed_read_eq_some_iff.2 ⟨(List.append_nil _).symm, ⟨l.text_ne_nil, l.closing_not_mem_text⟩,
    l.target_ne_nil, fun h => ?_⟩
  rcases List.mem_append.1 h with h | h
  · exact (l.path_free _ h).2.1 rfl
  · exact (l.title_free _ h).1 rfl

end TitledLink

end MarkdownLinks.Link
